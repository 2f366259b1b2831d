import Mathlib.Data.List.MinMax
import SelfPlay.Proofs.Lookahead.Computations
import SelfPlay.Proofs.Match.Inheritance

/-!
# Games of a batch fall into lockstep

The games of a batch may start with different sides to move. A round lets one side move in all its
open games, and then the other side is to move in these, as it already was in those that waited. So
from the first round on all open games wait for the same side, none is left behind any more, and
each round that computes a network batch is a move of any game that is open to the end.
-/

namespace SelfPlay

/-- Every move gives the turn to the other side. -/
def Board.Alternates (P : Type) {M : Type} [Board P M] : Prop :=
  ∀ (position : P) (move : M), sideToMove (play position move) = (sideToMove position).opponent

namespace Lookahead

open SelfPlay.Numeric

variable {ω P M : Type} [Board P M]

namespace BatchGame

variable [BoardMove M]

/-- An open game goes one legal move on, or is drawn for want of any. -/
inductive Advances (game : BatchGame P M) (after : BatchGame P M) : Prop
  | play {move : M} : move ∈ Board.legalMoves game.record.head → after.result = .undecided →
      after.record = game.record.play (BoardMove.relativeTo move game.record.sideToMove) →
      Advances game after
  | stuck : Board.legalMoves game.record.head = [] → after.result = .draw →
      after.record = game.record → Advances game after

variable [DecidableEq M] {game after : BatchGame P M}

theorem advances_of_advance (hfresh : game.tree.IsFresh) (hopen : game.result = .undecided)
    {format : InputFormat} {values : Nat → Binary32} {next : Nat}
    (h : after = game.expand.advance (scores values next (candidates format game.expand.tree))) :
    game.Advances after := by
  rcases advance_expand_cases game format values next h with ⟨hnone, rfl⟩ | ⟨edge, hedge, rfl⟩
  · have hedges : game.expand.tree.head.edges = _ := GameTree.edges_expand hfresh
    rw [hnone, eq_comm, List.map_eq_nil_iff] at hedges
    exact .stuck hedges rfl rfl
  · exact .play (GameTree.move_mem_of_mem_edges hfresh hedge) hopen rfl

theorem moveCount_of_progress {rules : GameRecord P M → GameResult → Prop}
    (h : game.Progress rules after) : game.record.moveCount ≤ after.record.moveCount := by
  cases h with
  | stay | settle | expand | stuck => exact Nat.le_refl _
  | play => exact Nat.le_succ _

end BatchGame

namespace Batch

open BatchGame

variable {networks : PerSide (Network ω)} {tablebase : Option (Tablebase ω P)}
  {network : Network ω} {side : Color} {batch next later : Batch P M} {world : ω}
  {marks : List Bool}

/-! ## One round -/

/-- No open game waits for the other side. -/
def IsTurnOf (side : Color) (batch : Batch P M) : Prop :=
  ∀ game ∈ batch.games, game.result = .undecided → game.record.sideToMove = side

theorem isTurnOf_settle (h : batch.IsTurnOf side) :
    (batch.settle tablebase world).1.IsTurnOf side := by
  intro game hmem hopen
  obtain ⟨i, hi⟩ := List.mem_iff_getElem?.mp hmem
  exact h game (List.mem_of_getElem? (getElem?_of_settle hi hopen)) hopen

variable [BoardMove M]

/-- A side has moved in all games that await it, and nothing else has happened. -/
structure SideMoved (side : Color) (batch next : Batch P M) : Prop where
  length : next.games.length = batch.games.length
  games : ∀ (i : Nat) (game : BatchGame P M), batch.games[i]? = some game →
    ∃ after, next.games[i]? = some after ∧
      (game.awaits side = false → after = game) ∧ (game.awaits side = true → game.Advances after)

namespace SideMoved

variable {i : Nat} {after : BatchGame P M}

/-- An open game has just been moved, or has waited. -/
theorem before_of_undecided (h : SideMoved side batch next) (hi : next.games[i]? = some after)
    (hopen : after.result = .undecided) :
    ∃ game, batch.games[i]? = some game ∧ game.result = .undecided ∧
      ((game.record.sideToMove = side ∧ ∃ move,
          after.record = game.record.play (BoardMove.relativeTo move game.record.sideToMove)) ∨
        (game.record.sideToMove ≠ side ∧ after = game)) := by
  have hlt := (List.getElem?_eq_some_iff.mp hi).1
  rw [h.length] at hlt
  have hbefore := List.getElem?_eq_getElem hlt
  obtain ⟨after', hafter, hwaits, hawaits⟩ := h.games i _ hbefore
  rw [hi] at hafter
  cases hafter
  cases hside : batch.games[i].awaits side with
  | false =>
    obtain rfl := hwaits hside
    refine ⟨_, hbefore, hopen, .inr ⟨fun hsame => ?_, rfl⟩⟩
    rw [awaits_iff.mpr ⟨hopen, hsame⟩] at hside
    cases hside
  | true =>
    obtain ⟨hstill, hsame⟩ := awaits_iff.mp hside
    cases hawaits hside with
    | play _ _ hrecord => exact ⟨_, hbefore, hstill, .inl ⟨hsame, _, hrecord⟩⟩
    | stuck _ hdraw =>
      rw [hdraw] at hopen
      cases hopen

/-- **Lockstep begins with the first round**, whatever the sides to move were. -/
theorem isTurnOf (hsides : Board.Alternates P) (h : SideMoved side batch next) :
    next.IsTurnOf side.opponent := by
  intro after hmem hopen
  obtain ⟨i, hi⟩ := List.mem_iff_getElem?.mp hmem
  obtain ⟨game, -, -, ⟨hside, move, hrecord⟩ | ⟨hside, rfl⟩⟩ := h.before_of_undecided hi hopen
  · rw [hrecord, ← hside]
    exact hsides _ _
  · exact (Color.eq_or_eq_opponent _ _).resolve_left hside

theorem moveCount_of_isTurnOf (hturn : batch.IsTurnOf side)
    (h : SideMoved side (batch.settle tablebase world).1 next) {i : Nat} {after : BatchGame P M}
    (hi : next.games[i]? = some after) (hopen : after.result = .undecided) :
    ∃ game, batch.games[i]? = some game ∧ game.result = .undecided ∧
      after.record.moveCount = game.record.moveCount + 1 := by
  obtain ⟨game, hgame, hstill, hcase⟩ := h.before_of_undecided hi hopen
  have hbefore := getElem?_of_settle hgame hstill
  refine ⟨game, hbefore, hstill, ?_⟩
  rcases hcase with ⟨-, move, hrecord⟩ | ⟨hside, -⟩
  · rw [hrecord]
    rfl
  · exact absurd (hturn game (List.mem_of_getElem? hbefore) hstill) hside

theorem moveCount_le (h : SideMoved side (batch.settle tablebase world).1 next) {i : Nat}
    {after : BatchGame P M} (hi : next.games[i]? = some after) (hopen : after.result = .undecided) :
    ∃ game, batch.games[i]? = some game ∧ game.record.moveCount ≤ after.record.moveCount := by
  obtain ⟨game, hgame, hstill, hcase⟩ := h.before_of_undecided hi hopen
  refine ⟨game, getElem?_of_settle hgame hstill, ?_⟩
  rcases hcase with ⟨-, move, hrecord⟩ | ⟨-, rfl⟩
  · rw [hrecord]
    exact Nat.le_succ _
  · exact Nat.le_refl _

end SideMoved

variable [DecidableEq M]

theorem Grouped.exists_values (h : batch.Grouped network side none next marks) :
    ∃ values, next.games =
      ((batch.expandGroup side).advance network.format side values).games := by
  cases h with
  | silent => exact ⟨[], rfl⟩
  | valued stop => exact ⟨_, by cases stop <;> rfl⟩

theorem Grouped.sideMoved (hfresh : batch.IsFresh)
    (h : batch.Grouped network side none next marks) : SideMoved side batch next := by
  obtain ⟨values, hgames⟩ := h.exists_values
  constructor
  · rw [hgames]
    simp [advance, expandGroup, length_advanceAll]
  · intro i game hi
    obtain ⟨after, hafter, hwaits, hawaits⟩ := getElem?_advance network.format side values hi
    refine ⟨after, by rw [hgames, hafter], hwaits, fun hside => ?_⟩
    obtain ⟨_, _, hadvance⟩ := hawaits hside
    exact advances_of_advance (hfresh game (List.mem_of_getElem? hi)) (awaits_iff.mp hside).1 hadvance

/-- A network batch is computed for the sake of some game that has a move. -/
theorem Grouped.exists_play (hfresh : batch.IsFresh)
    (h : batch.Grouped network side none next marks) (hmarks : marks ≠ []) :
    ∃ (i : Nat) (game : BatchGame P M), batch.games[i]? = some game ∧ game.awaits side = true ∧
      Board.legalMoves game.record.head ≠ [] := by
  cases h with
  | silent => exact absurd rfl hmarks
  | valued stop hsome =>
    obtain ⟨planes, hplanes⟩ := List.exists_mem_of_ne_nil _ hsome
    obtain ⟨expanded, hexpanded, hsample⟩ := List.mem_flatMap.mp hplanes
    obtain ⟨hmem, hawaits⟩ := List.mem_filter.mp hexpanded
    obtain ⟨game, hgame, rfl⟩ := List.mem_map.mp hmem
    obtain ⟨i, hi⟩ := List.mem_iff_getElem?.mp hgame
    have hside : game.awaits side = true := by
      by_contra hwaits
      rw [if_neg hwaits] at hawaits
      exact hwaits hawaits
    refine ⟨i, game, hi, hside, fun hnone => ?_⟩
    have hedges : game.expand.tree.head.edges = (Board.legalMoves game.record.head).map _ :=
      GameTree.edges_expand (hfresh game hgame)
    rw [if_pos hside] at hsample
    simp [samples, candidates, hedges, hnone] at hsample

/-- A round that goes on is a move of the side that the first open game waits for. -/
theorem Progress.sideMoved (hfresh : batch.IsFresh)
    (h : batch.Progress networks tablebase world none next marks) :
    ∃ first, first ∈ (batch.settle tablebase world).1.games ∧ first.result = .undecided ∧
      SideMoved first.record.sideToMove (batch.settle tablebase world).1 next ∧
      (marks ≠ [] → ∃ (i : Nat) (game : BatchGame P M),
        (batch.settle tablebase world).1.games[i]? = some game ∧
        game.awaits first.record.sideToMove = true ∧ Board.legalMoves game.record.head ≠ []) := by
  cases h with
  | @grouped first _ _ _ _ hfirst hgrouped =>
    have hopen : first.result = .undecided :=
      GameResult.eq_undecided_of_not_isTerminal (by simpa using List.find?_some hfirst)
    have hsettled := isFresh_settle hfresh tablebase world
    exact ⟨first, List.mem_of_find?_eq_some hfirst, hopen, hgrouped.sideMoved hsettled,
      hgrouped.exists_play hsettled⟩

theorem Progress.sideMoved_of_isTurnOf (hfresh : batch.IsFresh) (hturn : batch.IsTurnOf side)
    (h : batch.Progress networks tablebase world none next marks) :
    SideMoved side (batch.settle tablebase world).1 next := by
  obtain ⟨first, hfirst, hopen, hmoved, -⟩ := h.sideMoved hfresh
  rwa [isTurnOf_settle hturn first hfirst hopen] at hmoved

theorem Progress.length_marks {ending : Option PlayEnd}
    (h : batch.Progress networks tablebase world ending next marks) : marks.length ≤ 1 := by
  cases h with
  | stopped | decided => exact Nat.zero_le 1
  | grouped _ _ hgrouped =>
    cases hgrouped with
    | silent => exact Nat.zero_le 1
    | failed | valued => exact Nat.le_refl 1

/-! ## Whole runs -/

/-- The most moves that a game has made on the way from one batch to the other. -/
def mostMoves (batch later : Batch P M) : Nat :=
  ((batch.games.zip later.games).map fun (game, after) =>
    after.record.moveCount - game.record.moveCount).foldr max 0

theorem le_mostMoves {P M : Type} {batch later : Batch P M} {i : Nat}
    {game after : BatchGame P M} (hi : batch.games[i]? = some game)
    (hafter : later.games[i]? = some after) :
    after.record.moveCount - game.record.moveCount ≤ batch.mostMoves later := by
  have hpair : (batch.games.zip later.games)[i]? = some (game, after) :=
    List.getElem?_zip_eq_some.mpr ⟨hi, hafter⟩
  exact List.le_max_of_le' 0 (List.mem_map.mpr ⟨_, List.mem_of_getElem? hpair, rfl⟩)
    (Nat.le_refl _)

theorem moveCount_of_leads (hleads : batch.Leads networks tablebase later) {i : Nat}
    {game : BatchGame P M} (hi : batch.games[i]? = some game) :
    ∃ after, later.games[i]? = some after ∧ game.record.moveCount ≤ after.record.moveCount :=
  keeps_of_leads (fun after => game.record.moveCount ≤ after.record.moveCount)
    (follows_true tablebase)
    (fun _ _ hkept hprogress => Nat.le_trans hkept (moveCount_of_progress hprogress)) hleads hi
    (Nat.le_refl _)

theorem isFresh_of_round {ending : Option PlayEnd} {last : ω} (hfresh : batch.IsFresh)
    (hround : batch.round networks tablebase world = (ending, next, last)) : next.IsFresh := by
  have hstep : Step networks tablebase batch (batch.round networks tablebase world).2.1 :=
    .round world
  rw [hround] at hstep
  exact isFresh_of_leads (.single hstep) hfresh

theorem exists_round_of_cutShort {rounds : Nat} {last : ω}
    (hplay : batch.playFor networks tablebase (rounds + 1) world = (.cutShort, later, last)) :
    ∃ next now, batch.round networks tablebase world = (none, next, now) ∧
      next.playFor networks tablebase rounds now = (.cutShort, later, last) := by
  obtain ⟨ending, next, now, hround⟩ : ∃ ending next now,
      batch.round networks tablebase world = (ending, next, now) := ⟨_, _, _, rfl⟩
  cases ending with
  | some ending =>
    rw [playFor_of_round_eq_some rounds hround] at hplay
    cases hplay
    exact absurd rfl (ne_cutShort_of_round hround)
  | none =>
    rw [playFor_of_round_eq_none rounds hround] at hplay
    exact ⟨next, now, hround, hplay⟩

/-- The last round of a run that was cut short leaves the games in lockstep. -/
theorem exists_isTurnOf_of_cutShort (hsides : Board.Alternates P) (hfresh : batch.IsFresh)
    {rounds : Nat} {last : ω}
    (hplay : batch.playFor networks tablebase (rounds + 1) world = (.cutShort, later, last)) :
    ∃ side, later.IsTurnOf side := by
  induction rounds generalizing batch world with
  | zero =>
    obtain ⟨next, now, hround, hrest⟩ := exists_round_of_cutShort hplay
    cases hrest
    obtain ⟨marks, hprogress, -⟩ := round_watched networks tablebase batch world hround
    obtain ⟨first, -, -, hmoved, -⟩ := hprogress.sideMoved hfresh
    exact ⟨_, hmoved.isTurnOf hsides⟩
  | succ rounds ih =>
    obtain ⟨next, now, hround, hrest⟩ := exists_round_of_cutShort hplay
    exact ih (isFresh_of_round hfresh hround) hrest

/-- In a round that computes a network batch some game makes a move. -/
theorem Progress.exists_moveCount (hfresh : batch.IsFresh)
    (h : batch.Progress networks tablebase world none next marks) (hmarks : marks ≠ []) :
    ∃ (i : Nat) (game after : BatchGame P M), batch.games[i]? = some game ∧
      game.result = .undecided ∧ next.games[i]? = some after ∧
      after.record.moveCount = game.record.moveCount + 1 := by
  obtain ⟨first, -, -, hmoved, hplays⟩ := h.sideMoved hfresh
  obtain ⟨i, game, hgame, hawaits, hmoves⟩ := hplays hmarks
  have hopen := (awaits_iff.mp hawaits).1
  obtain ⟨after, hafter, -, hadvances⟩ := hmoved.games i game hgame
  refine ⟨i, game, after, getElem?_of_settle hgame hopen, hopen, hafter, ?_⟩
  cases hadvances hawaits with
  | play _ _ hrecord =>
    rw [hrecord]
    rfl
  | stuck hnone => exact absurd hnone hmoves

/-- A round that ends the play computes nothing, unless it fails. -/
theorem Progress.marks_eq_nil {ending : PlayEnd}
    (h : batch.Progress networks tablebase world (some ending) next marks)
    (hsound : ∀ error, ending ≠ .failed error) : marks = [] := by
  cases h with
  | stopped | decided => rfl
  | grouped _ _ hgrouped =>
    cases hgrouped with
    | failed => exact absurd rfl (hsound _)

/-- From lockstep on, each network batch that is computed is a move of one and the same game: of any
that is open in the last computation and makes a move then. -/
theorem exists_moveCount_of_isTurnOf (hsides : Board.Alternates P) (hfresh : batch.IsFresh)
    (hturn : batch.IsTurnOf side) {rounds : Nat} {ending : PlayEnd} {last : ω}
    (hplay : batch.playFor networks tablebase rounds world = (ending, later, last))
    (hsound : ∀ error, ending ≠ .failed error)
    (hsome : batch.computations networks tablebase rounds world ≠ []) :
    ∃ (i : Nat) (game after : BatchGame P M), batch.games[i]? = some game ∧
      game.result = .undecided ∧ later.games[i]? = some after ∧
      game.record.moveCount + (batch.computations networks tablebase rounds world).length ≤
        after.record.moveCount := by
  induction rounds generalizing batch side world with
  | zero => exact absurd rfl hsome
  | succ rounds ih =>
    obtain ⟨first, next, now, hround⟩ : ∃ first next now,
        batch.round networks tablebase world = (first, next, now) := ⟨_, _, _, rfl⟩
    obtain ⟨marks, hprogress, hmarks⟩ := computations_succ hround
    rw [hmarks] at hsome ⊢
    cases first with
    | some first =>
      rw [playFor_of_round_eq_some rounds hround] at hplay
      cases hplay
      rw [hprogress.marks_eq_nil hsound] at hsome
      exact absurd rfl hsome
    | none =>
      rw [playFor_of_round_eq_none rounds hround] at hplay
      have hone := hprogress.length_marks
      by_cases hlater : next.computations networks tablebase rounds now = []
      · -- This is the last computation, and some game moves in it.
        simp only [hlater, List.append_nil] at hsome ⊢
        obtain ⟨i, game, mid, hgame, hopen, hmid, hcount⟩ :=
          hprogress.exists_moveCount hfresh hsome
        obtain ⟨after, hafter, hmore⟩ := moveCount_of_leads (leads_of_playFor hplay) hmid
        exact ⟨i, game, after, hgame, hopen, hafter, by omega⟩
      · -- The game that moves in the last one is open until then, so it moves here too.
        have hmoved := hprogress.sideMoved_of_isTurnOf hfresh hturn
        obtain ⟨i, mid, after, hmid, hopen, hafter, hmore⟩ :=
          ih (isFresh_of_round hfresh hround) (hmoved.isTurnOf hsides) hplay hlater
        obtain ⟨game, hgame, hstill, hcount⟩ := hmoved.moveCount_of_isTurnOf hturn hmid hopen
        refine ⟨i, game, after, hgame, hstill, hafter, ?_⟩
        simp only [List.length_append]
        omega

theorem length_computations_le (hsides : Board.Alternates P) (hfresh : batch.IsFresh)
    {rounds : Nat} {ending : PlayEnd} {last : ω}
    (hplay : batch.playFor networks tablebase rounds world = (ending, later, last))
    (hsound : ∀ error, ending ≠ .failed error) :
    (batch.computations networks tablebase rounds world).length ≤ batch.mostMoves later + 1 := by
  cases rounds with
  | zero => exact Nat.zero_le _
  | succ rounds =>
    obtain ⟨first, next, now, hround⟩ : ∃ first next now,
        batch.round networks tablebase world = (first, next, now) := ⟨_, _, _, rfl⟩
    obtain ⟨marks, hprogress, hmarks⟩ := computations_succ hround
    have hone := hprogress.length_marks
    rw [hmarks, List.length_append]
    cases first with
    | some first => exact Nat.le_trans hone (Nat.le_add_left _ _)
    | none =>
      rw [playFor_of_round_eq_none rounds hround] at hplay
      by_cases hlater : next.computations networks tablebase rounds now = []
      · simp only [hlater, List.length_nil]
        omega
      · -- Only the first round may leave out the game that all later ones move.
        obtain ⟨first, -, -, hmoved, -⟩ := hprogress.sideMoved hfresh
        obtain ⟨i, mid, after, hmid, hopen, hafter, hmore⟩ := exists_moveCount_of_isTurnOf hsides
          (isFresh_of_round hfresh hround) (hmoved.isTurnOf hsides) hplay hsound hlater
        obtain ⟨game, hgame, hcount⟩ := hmoved.moveCount_le hmid hopen
        have hmost := le_mostMoves hgame hafter
        simp only
        omega

end Batch

variable [BoardMove M] [DecidableEq M]

/-- **A batch falls into lockstep.** Let every move give the turn to the other side, whatever sides
the games of a batch start with. After the first round, and after each later one, all games that are
not decided wait for the same side. So a later round takes each game that is open after settling one
legal move on, or draws it if it has none, and leaves the others alone. A run that does not fail
computes at most one network batch more than the moves that it makes in some game. -/
theorem batch_falls_into_lockstep {players : PerSide (Player ω M)} {openings : List (Opening M)}
    {start batch : Batch P M} (hstart : Batch.ofOpenings players openings = .ok start)
    {networks : PerSide (Network ω)} {tablebase : Option (Tablebase ω P)}
    (hleads : start.Leads networks tablebase batch) (hsides : Board.Alternates P) (world : ω) :
    (∀ rounds now last,
      batch.playFor networks tablebase (rounds + 1) world = (.cutShort, now, last) →
      (∃ side, now.IsTurnOf side) ∧
      ∀ next after, now.round networks tablebase last = (none, next, after) →
        ∀ (i : Nat) (game : BatchGame P M), (now.settle tablebase last).1.games[i]? = some game →
          ∃ moved, next.games[i]? = some moved ∧
            (game.result.isTerminal = true → moved = game) ∧
            (game.result = .undecided → game.Advances moved)) ∧
    ∀ rounds ending final last,
      batch.playFor networks tablebase rounds world = (ending, final, last) →
      (∀ error, ending ≠ .failed error) →
      (batch.computations networks tablebase rounds world).length ≤ batch.mostMoves final + 1 := by
  have hfresh : batch.IsFresh :=
    Batch.isFresh_of_leads hleads (Batch.isFresh_of_ofOpenings hstart)
  refine ⟨fun rounds now last hplay => ?_, fun rounds ending final last hplay hsound =>
    Batch.length_computations_le hsides hfresh hplay hsound⟩
  obtain ⟨side, hturn⟩ := Batch.exists_isTurnOf_of_cutShort hsides hfresh hplay
  refine ⟨⟨side, hturn⟩, fun next after hround i game hi => ?_⟩
  obtain ⟨marks, hprogress, -⟩ := Batch.round_watched networks tablebase now last hround
  have hmoved := hprogress.sideMoved_of_isTurnOf
    (Batch.isFresh_of_leads (Batch.leads_of_playFor hplay) hfresh) hturn
  obtain ⟨moved, hmoves, hwaits, hawaits⟩ := hmoved.games i game hi
  refine ⟨moved, hmoves, fun hover => hwaits (BatchGame.awaits_of_isTerminal hover side), ?_⟩
  intro hopen
  have hside := Batch.isTurnOf_settle hturn game (List.mem_of_getElem? hi) hopen
  exact hawaits (BatchGame.awaits_iff.mpr ⟨hopen, hside⟩)

open TicTacToe

/-- White is to move in one game and black in the other. White wins its game in the first round,
black wins the other in the second, and the two network batches are one more than the moves of
either. -/
theorem winning_batch_falls_into_lockstep :
    (¬∃ side, winningBatch.IsTurnOf side) ∧
    ∃ now next final : Batch Position Square,
      winningBatch.playFor (linePlayers.map (·.network)) none 1 () = (.cutShort, now, ()) ∧
      (∃ side, now.IsTurnOf side) ∧
      now.round (linePlayers.map (·.network)) none () = (none, next, ()) ∧
      (∃ game moved, (now.settle none ()).1.games[1]? = some game ∧ game.result = .undecided ∧
        next.games[1]? = some moved ∧ game.Advances moved) ∧
      winningBatch.playFor (linePlayers.map (·.network)) none 5 () = (.finished, final, ()) ∧
      (winningBatch.computations (linePlayers.map (·.network)) none 5 ()).length = 2 ∧
      winningBatch.mostMoves final = 1 ∧
      (winningBatch.computations (linePlayers.map (·.network)) none 5 ()).length ≤
        winningBatch.mostMoves final + 1 := by
  constructor
  · rintro ⟨side, hturn⟩
    have hwhite := hturn _ List.mem_cons_self rfl
    have hblack := hturn _ (List.mem_cons_of_mem _ List.mem_cons_self) rfl
    cases hwhite.trans hblack.symm
  · have hleads : winningBatch.Leads (linePlayers.map (·.network)) none winningBatch := .refl
    obtain ⟨hrounds, hcomputed⟩ := batch_falls_into_lockstep ofOpenings_winningOpenings hleads
      (Board.sideToMove_play countsPlies) ()
    have hfirst : (winningBatch.playFor (linePlayers.map (·.network)) none 1 ()).1 = .cutShort ∧
        ((winningBatch.playFor (linePlayers.map (·.network)) none 1 ()).2.1.round
          (linePlayers.map (·.network)) none ()).1 = none ∧
        (((winningBatch.playFor (linePlayers.map (·.network)) none 1 ()).2.1.settle none
          ()).1.games[1]?.map (·.result)) = some .undecided := by decide +kernel
    have hfull : (winningBatch.playFor (linePlayers.map (·.network)) none 5 ()).1 = .finished ∧
        (winningBatch.computations (linePlayers.map (·.network)) none 5 ()).length = 2 ∧
        winningBatch.mostMoves (winningBatch.playFor (linePlayers.map (·.network)) none 5 ()).2.1 =
          1 := by decide +kernel
    generalize hplay : winningBatch.playFor (linePlayers.map (·.network)) none 1 () = run at hfirst
    generalize hwhole : winningBatch.playFor (linePlayers.map (·.network)) none 5 () = whole
      at hfull
    obtain ⟨ending, now, last⟩ := run
    obtain ⟨whole, final, last'⟩ := whole
    obtain ⟨rfl, hgoesOn, hopen⟩ := hfirst
    obtain ⟨rfl, htwo, hone⟩ := hfull
    generalize hround : now.round (linePlayers.map (·.network)) none () = round at hgoesOn
    obtain ⟨ending, next, last''⟩ := round
    obtain rfl : ending = none := hgoesOn
    obtain ⟨game, hgame, hundecided⟩ := Option.map_eq_some_iff.mp hopen
    obtain ⟨hturn, hlater⟩ := hrounds 0 now () hplay
    obtain ⟨moved, hmoved, -, hadvances⟩ := hlater next () hround 1 game hgame
    have hmost := hcomputed 5 .finished final () hwhole fun error => PlayEnd.noConfusion
    exact ⟨now, next, final, rfl, hturn, hround,
      ⟨game, moved, hgame, hundecided, hmoved, hadvances hundecided⟩, rfl, htwo, hone, hmost⟩

end Lookahead

end SelfPlay
