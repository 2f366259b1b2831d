import SelfPlay.Proofs.Match.Legality
import SelfPlay.Proofs.Match.Resumption
import SelfPlay.Proofs.TicTacToe.History

/-!
# Games that come to an end

The loop of a game has no bound, and the board would let it put stones on taken squares for ever.
What ends it is that the engines keep the rules: then each round that goes on takes a vacant square,
and where none is left the rules have decided the game.
-/

namespace SelfPlay

open SelfPlay.Numeric

namespace Game

section Boards

variable {ω P M R : Type} [BoardMove M] [DecidableEq M] [Board P M] [Scalar R]
  {setup : MatchSetup ω P M R} {request : PlayRequest}

/-- A game that finishes has a result, unless it was asked to stop. -/
theorem isTerminal_of_progress {number : Nat} {game after : Game ω P M R}
    {entries : Journal ω P M R}
    (h : game.Progress setup request number (some .finished) after entries)
    (hrun : after.abort.requested = false) : after.result.isTerminal = true := by
  cases h with
  | decided hover => exact hover
  | stopped _ hasked =>
    rw [abort_prepareTree, hasked] at hrun
    cases hrun
  | searched _ _ _ _ _ _ _ hlanding =>
    cases hlanding with
    | halted _ hasked => exact absurd (hrun.symm.trans hasked) Bool.false_ne_true
    | resigned _ _ _ hgiven =>
      by_contra hopen
      exact ne_undecided_of_verdict hgiven (GameResult.eq_undecided_of_not_isTerminal hopen)

theorem isTerminal_of_roundsFor {rounds : Nat} {game final : Game ω P M R} {world last : ω}
    (hplay : roundsFor setup request rounds game world = (.finished, final, last))
    (hrun : final.abort.requested = false) : final.result.isTerminal = true := by
  induction rounds generalizing game world with
  | zero => cases hplay
  | succ rounds ih =>
    obtain ⟨first, next, now, hround⟩ : ∃ first next now,
      game.round setup request world = (first, next, now) := ⟨_, _, _, rfl⟩
    cases first with
    | none =>
      rw [roundsFor_of_round_eq_none rounds hround] at hplay
      exact ih hplay
    | some first =>
      rw [roundsFor_of_round_eq_some rounds hround] at hplay
      cases hplay
      obtain ⟨entries, hprogress, -⟩ := round_journaled setup request world [] hround
      exact isTerminal_of_progress hprogress hrun

theorem isTerminal_of_playFor {rounds : Nat} {game final : Game ω P M R} {world last : ω}
    (hplay : playFor setup request rounds game world = (.finished, final, last))
    (hrun : final.abort.requested = false) : final.result.isTerminal = true := by
  unfold playFor at hplay
  split at hplay
  · rename_i hover
    cases hplay
    exact hover
  · exact isTerminal_of_roundsFor hplay hrun

theorem playFor_of_rests {rounds : Nat} {game final : Game ω P M R} {world last : ω}
    {ending : PlayEnd} (hplay : playFor setup request rounds game world = (ending, final, last))
    (hrests : ending ≠ .cutShort) (more : Nat) :
    playFor setup request (rounds + more) game world = (ending, final, last) := by
  unfold playFor at hplay ⊢
  split
  · rename_i hover
    rwa [if_pos hover] at hplay
  · rename_i hopen
    rw [if_neg hopen, roundsFor_eq_runFor] at hplay
    rw [roundsFor_eq_runFor]
    exact runFor_of_rests hplay hrests more

end Boards

open TicTacToe

variable {ω R : Type} [Scalar R] {setup : MatchSetup ω Position Square R} {request : PlayRequest}

/-- A game of legal play, with at most so many vacant squares left. -/
structure Plays (vacant : Nat) (game : Game ω Position Square R) : Prop where
  lawful : game.IsLawful
  history : IsLegalPlay game.record.history
  vacant_le : game.record.head.vacant.length ≤ vacant

theorem plays_of_begin {options : PerSide (SelfPlayOptions R)} {shared : Bool}
    {opening : Opening Square} {game : Game ω Position Square R}
    (h : begin options shared opening = .ok game) :
    game.Plays game.record.head.vacant.length := by
  refine ⟨isLawful_of_begin h, ?_, Nat.le_refl _⟩
  obtain ⟨-, record, hrecord, rfl⟩ := begin_eq_ok_iff.mp h
  rw [Game.record, get_trees_started]
  exact isLegalPlay_of_ofOpening hrecord

variable {vacant number : Nat} {game after : Game ω Position Square R} {ending : Option PlayEnd}
  {entries : Journal ω Position Square R}

/-- A round is legal play, and if the game goes on it has taken a vacant square. -/
theorem Plays.progress (hsetup : setup.KeepsRules) (h : game.Plays vacant)
    (hprogress : game.Progress setup request number ending after entries) :
    after.Plays vacant ∧
      (ending = none → after.record.head.vacant.length + 1 = game.record.head.vacant.length) := by
  obtain ⟨hlawful, hmoved, hended⟩ := lawful_of_progress hsetup h.lawful hprogress
  cases ending with
  | none =>
    obtain ⟨-, move, hmove, hrecord⟩ := hmoved rfl
    have hhead : after.record.head = game.record.head.play move := by
      rw [hrecord]
      rfl
    have hvacant : after.record.head.vacant.length + 1 = game.record.head.vacant.length := by
      rw [hhead]
      exact Position.length_vacant_play hmove
    refine ⟨⟨hlawful, ?_, ?_⟩, fun _ => hvacant⟩
    · rw [hrecord, GameRecord.history_playRelative]
      exact h.history.append hmove
    · have hle := h.vacant_le
      omega
  | some ending =>
    have hrecord := hended (by rintro ⟨⟩)
    refine ⟨⟨hlawful, ?_, ?_⟩, by rintro ⟨⟩⟩
    · rw [hrecord]
      exact h.history
    · rw [hrecord]
      exact h.vacant_le

theorem Plays.perform (hsetup : setup.KeepsRules) (h : game.Plays vacant)
    (hidle : game.abort.inFlight = none) (world : ω) (acts : List (Act ω)) :
    (game.perform setup world acts).1.Plays vacant :=
  keeps_of_perform (Q := Plays vacant)
    (fun hplays hprogress => (Plays.progress hsetup hplays hprogress).1)
    (fun hplays => ⟨⟨hplays.lawful.inStep, hplays.lawful.legal⟩, hplays.history, hplays.vacant_le⟩)
    world hidle h acts

/-- Play rests before more rounds are made than there are vacant squares and one. -/
theorem Plays.rests (hsetup : setup.KeepsRules) (h : game.Plays vacant) {rounds : Nat}
    (hrounds : game.record.head.vacant.length < rounds) {world last : ω} {resting : PlayEnd}
    {final : Game ω Position Square R}
    (hplay : roundsFor setup request rounds game world = (resting, final, last)) :
    resting ≠ .cutShort := by
  induction rounds generalizing game world with
  | zero => exact absurd hrounds (Nat.not_lt_zero _)
  | succ rounds ih =>
    obtain ⟨first, next, now, hround⟩ : ∃ first next now,
      game.round setup request world = (first, next, now) := ⟨_, _, _, rfl⟩
    cases first with
    | some first =>
      rw [roundsFor_of_round_eq_some rounds hround] at hplay
      cases hplay
      exact ne_cutShort_of_round hround
    | none =>
      rw [roundsFor_of_round_eq_none rounds hround] at hplay
      obtain ⟨entries, hprogress, -⟩ := round_journaled setup request world [] hround
      obtain ⟨hnext, hfewer⟩ := h.progress hsetup hprogress
      have hone := hfewer rfl
      exact ih hnext (by omega) hplay

end Game

open TicTacToe

variable {ω R : Type} [Scalar R]

/-- **Every game of tic-tac-toe comes to an end when its engines keep the rules**, whatever the
options are, and whatever was done to the game since its beginning. Play rests when it has made one
round more than there were vacant squares at the end of the opening, if not before, and more rounds
change nothing. If it finishes and no stop was asked for, the result is terminal. And both sides'
histories are legal play from the start position on: no square is taken twice, and the moves are
counted by the stones. -/
theorem lawful_game_comes_to_end {setup : MatchSetup ω Position Square R}
    (hsetup : setup.KeepsRules) {options : PerSide (SelfPlayOptions R)} {shared : Bool}
    {opening : Opening Square} {start game : Game ω Position Square R}
    (hstart : Game.begin options shared opening = .ok start) {world now : ω} {acts : List (Act ω)}
    (hgame : start.perform setup world acts = (game, now)) (request : PlayRequest) :
    ∃ ending final last,
      (∀ rounds, start.record.head.vacant.length + 1 ≤ rounds →
        Game.playFor setup request rounds game now = (ending, final, last)) ∧
      ending ≠ .cutShort ∧
      (ending = .finished → final.abort.requested = false → final.result.isTerminal = true) ∧
      ∀ side, IsLegalPlay (game.trees.get side).record.history ∧
        IsLegalPlay (final.trees.get side).record.history ∧
        ∀ position ∈ (final.trees.get side).record.history.positions,
          position.white &&& position.black = 0 ∧ position.ply = position.occupied.count := by
  have hidle : start.abort.inFlight = none :=
    congrArg AbortState.inFlight (Game.fresh_of_begin hstart).1.idle
  have hplays : game.Plays start.record.head.vacant.length := by
    have hreached := (Game.plays_of_begin hstart).perform hsetup hidle world acts
    rwa [hgame] at hreached
  obtain ⟨ending, final, last, hplay⟩ : ∃ ending final last,
      Game.playFor setup request (start.record.head.vacant.length + 1) game now =
        (ending, final, last) := ⟨_, _, _, rfl⟩
  have hlater : final.Plays start.record.head.vacant.length := by
    have hreached := (Game.plays_of_begin hstart).perform hsetup hidle world
      (acts ++ [.play request (start.record.head.vacant.length + 1)])
    rw [Game.perform_append, hgame] at hreached
    rw [show final = _ from congrArg (·.2.1) hplay.symm]
    exact hreached
  have hrests : ending ≠ .cutShort := by
    unfold Game.playFor at hplay
    split at hplay
    · cases hplay
      decide
    · exact hplays.rests hsetup (Nat.lt_succ_of_le hplays.vacant_le) hplay
  have hboth (side : Color) : IsLegalPlay (game.trees.get side).record.history ∧
      IsLegalPlay (final.trees.get side).record.history := by
    rw [hplays.lawful.inStep side, hlater.lawful.inStep side]
    exact ⟨hplays.history, hlater.history⟩
  refine ⟨ending, final, last, ?_, hrests, ?_, fun side =>
    ⟨(hboth side).1, (hboth side).2, fun position hmem => ?_⟩⟩
  · intro rounds hrounds
    obtain ⟨more, rfl⟩ := Nat.exists_eq_add_of_le hrounds
    exact Game.playFor_of_rests hplay hrests more
  · rintro rfl hrun
    exact Game.isTerminal_of_playFor hplay hrun
  · have hregular := (hboth side).2.regular position hmem
    exact ⟨hregular.disjoint, hregular.ply_eq_count⟩

namespace TicTacToe

/-- The first legal move of an open position may be offered. -/
theorem allows_firstMove {tree : GameTree Position Square}
    (hopen : tree.record.history.result = .undecided) (now : Unit) :
    tree.Allows ((firstMoveEngine tree).bestMove now) := by
  have hsome : tree.record.head.legalMoves ≠ [] := by
    intro hnone
    have hover := Position.isTerminal_of_legalMoves_eq_nil hnone
    rw [show tree.record.head.result = _ from hopen] at hover
    cases hover
  obtain ⟨move, rest, hmoves⟩ := List.exists_cons_of_ne_nil hsome
  show BoardMove.relativeTo (BoardMove.relativeTo (tree.record.head.legalMoves.headD default) _) _ ∈
    tree.record.head.legalMoves
  rw [BoardMove.relativeTo_relativeTo, hmoves]
  exact List.mem_cons_self

/-- The edges of a tree, the last of them visited once more. -/
def visitLast (tree : GameTree Position Square) : Node Square :=
  tree.expand.head.modifyEdge ((Board.legalMoves tree.record.head).getLastD default) fun edge =>
    { edge with visits := edge.visits + 1 }

theorem visitLast_isLegal {tree : GameTree Position Square} (h : tree.IsLegal) :
    (visitLast tree).IsLegal tree.record.head := by
  have hexpanded := Node.IsLegal.expand h
  refine hexpanded.modifyEdge _ (fun _ => rfl) ?_
  rintro edge hedge hmove child hchild
  rw [← hmove]
  exact hexpanded.child hedge hchild

/-- The engine that insists on the first legal move, although it visits the last one. -/
def stubbornSetup : MatchSetup Unit Position Square Binary32 where
  players := firstMoveSetup.players
  factory := ⟨fun _ => [], fun context world =>
    (.ok { firstMoveEngine context.tree with
      run := fun _ => .finish none (visitLast context.tree) }, world)⟩

theorem stubbornSetup_keepsRules : stubbornSetup.KeepsRules := by
  intro game side engine threads world launched hopen hlegal hcreate
  have hbest (now : Unit) :
      engine.bestMove now = (firstMoveEngine (game.trees.get side)).bestMove now := by
    cases hcreate
    rfl
  have hhead : (game.search stubbornSetup side engine threads launched).head =
      visitLast (game.trees.get side) := by
    cases hcreate
    unfold Game.search
    split <;> rfl
  refine ⟨?_, fun _ given now _ _ => ?_⟩
  · rw [hhead]
    exact visitLast_isLegal hlegal
  · rw [hbest]
    exact allows_firstMove hopen now

/-- Moves are played that have been visited. -/
def picky : SelfPlayOptions Binary32 := { reusing with minimumAllowedVisits := 1 }

def pickyGame : Game Unit Position Square Binary32 :=
  { reusingGame with options := ⟨picky, picky⟩ }

theorem begin_pickyGame :
    Game.begin ⟨picky, picky⟩ false ⟨".../.../...", []⟩ = .ok pickyGame :=
  Game.begin_eq_ok_iff.mpr ⟨rfl, _, ofOpening_empty, rfl⟩

end TicTacToe

open TicTacToe in
/-- Every best move is given up until no edge is left to try, and the most visited edge is played: the
vacant square with the greatest number. Taken up again after two rounds, white wins by the seventh
move; ten rounds would be enough for any game from the empty board. -/
theorem stubborn_game_comes_to_end :
    ∃ game final : Game Unit Position Square Binary32,
      pickyGame.perform stubbornSetup () [.play firstMoveRequest 2] = (game, ()) ∧
      (∀ rounds, 10 ≤ rounds →
        Game.playFor stubbornSetup firstMoveRequest rounds game () = (.finished, final, ())) ∧
      final.result = .won .white ∧
      final.moves.map Square.name = ["c3", "b3", "a3", "c2", "b2", "a2", "c1"] ∧
      IsLegalPlay (final.trees.get .black).record.history := by
  have hwhole : (Game.playFor stubbornSetup firstMoveRequest 10
        (pickyGame.perform stubbornSetup () [.play firstMoveRequest 2]).1 ()).1 = .finished ∧
      (Game.playFor stubbornSetup firstMoveRequest 10
        (pickyGame.perform stubbornSetup () [.play firstMoveRequest 2]).1 ()).2.1.result =
          .won .white ∧
      (Game.playFor stubbornSetup firstMoveRequest 10
        (pickyGame.perform stubbornSetup () [.play firstMoveRequest 2]).1 ()).2.1.moves.map
          Square.name = ["c3", "b3", "a3", "c2", "b2", "a2", "c1"] := by decide +kernel
  generalize hgame : pickyGame.perform stubbornSetup () [.play firstMoveRequest 2] = now at hwhole
  obtain ⟨game, ⟨⟩⟩ := now
  obtain ⟨ending, final, ⟨⟩, hplay, -, -, hlegal⟩ :=
    lawful_game_comes_to_end stubbornSetup_keepsRules begin_pickyGame hgame firstMoveRequest
  have hten : ∀ rounds, 10 ≤ rounds →
      Game.playFor stubbornSetup firstMoveRequest rounds game () = (ending, final, ()) := hplay
  rw [hten 10 (Nat.le_refl 10)] at hwhole
  obtain ⟨rfl, hwon, hmoves⟩ := hwhole
  exact ⟨game, final, rfl, hten, hwon, hmoves, (hlegal .black).2.1⟩

end SelfPlay
