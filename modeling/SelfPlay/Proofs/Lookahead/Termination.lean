import SelfPlay.Proofs.Lookahead.Plies
import SelfPlay.Proofs.TicTacToe.LegalPlay
import SelfPlay.TicTacToe.HouseRules
import SelfPlay.TicTacToe.Rounds

/-!
# Batches of games with stones come to an end

A round is led by the first open game, and that game takes a vacant square or is drawn for want of
moves. So the rounds that a batch has left are bounded by its vacant squares, whatever the networks
and the tablebase answer: they have a say in which square is taken, and in when a game ends before
its squares are used up.
-/

namespace SelfPlay

/-- The network answers every time. The values may be any. -/
def Network.NeverFails {ω : Type} (network : Network ω) : Prop :=
  ∀ samples world, ∃ values, (network.evaluate samples world).outcome = .ok values

namespace Lookahead

open SelfPlay.Numeric TicTacToe

section Boards

variable {ω P M : Type} [BoardMove M] [DecidableEq M] [Board P M]

namespace Batch

variable {networks : PerSide (Network ω)} {tablebase : Option (Tablebase ω P)}
  {batch final : Batch P M} {world last : ω}

/-- Play without failures is not ended by one. -/
theorem round_ne_failed (hnetworks : ∀ side, (networks.get side).NeverFails) (batch : Batch P M)
    (world : ω) (error : Error) :
    (batch.round networks tablebase world).1 ≠ some (.failed error) := by
  unfold round
  split
  · simp
  · simp only
    split
    · simp
    · rename_i first _
      unfold playGroup
      simp only
      split
      · simp
      · obtain ⟨values, hvalues⟩ := hnetworks first.record.sideToMove _
          (batch.settle tablebase world).2
        rw [hvalues]
        simp

theorem playFor_ne_failed (hnetworks : ∀ side, (networks.get side).NeverFails) {rounds : Nat}
    {ending : PlayEnd}
    (hplay : batch.playFor networks tablebase rounds world = (ending, final, last)) (error : Error) :
    ending ≠ .failed error := by
  induction rounds generalizing batch world with
  | zero =>
    cases hplay
    exact PlayEnd.noConfusion
  | succ rounds ih =>
    obtain ⟨first, next, now, hround⟩ : ∃ first next now,
        batch.round networks tablebase world = (first, next, now) := ⟨_, _, _, rfl⟩
    cases first with
    | some first =>
      rw [playFor_of_round_eq_some rounds hround] at hplay
      cases hplay
      have hsound : (batch.round networks tablebase world).1 ≠ some (.failed error) :=
        round_ne_failed hnetworks batch world error
      rw [hround] at hsound
      exact fun hfailed => hsound (congrArg some hfailed)
    | none =>
      rw [playFor_of_round_eq_none rounds hround] at hplay
      exact ih hplay

/-- Play that finished without being asked to stop has decided all games. -/
theorem isTerminal_of_finished {rounds : Nat}
    (hplay : batch.playFor networks tablebase rounds world = (.finished, final, last))
    (hrun : final.aborted = false) : ∀ game ∈ final.games, game.result.isTerminal = true := by
  induction rounds generalizing batch world with
  | zero => cases hplay
  | succ rounds ih =>
    obtain ⟨first, next, now, hround⟩ : ∃ first next now,
        batch.round networks tablebase world = (first, next, now) := ⟨_, _, _, rfl⟩
    cases first with
    | none =>
      rw [playFor_of_round_eq_none rounds hround] at hplay
      exact ih hplay
    | some first =>
      rw [playFor_of_round_eq_some rounds hround] at hplay
      cases hplay
      obtain ⟨marks, hprogress, -⟩ := round_watched networks tablebase batch world hround
      cases hprogress with
      | stopped haborted =>
        rw [haborted] at hrun
        cases hrun
      | decided _ hnone => exact isTerminal_of_firstUndecided?_eq_none hnone
      | grouped _ _ hgrouped => cases hgrouped

end Batch

end Boards

variable {ω P : Type} [Board P Square] [StoneBoard P]

/-- A legal move takes one vacant square, whatever else the rules are. -/
theorem vacant_play {record : GameRecord P Square} {move : Square}
    (h : move ∈ Board.legalMoves record.head) :
    (StoneBoard.stones (record.play (BoardMove.relativeTo move record.sideToMove)).head).vacant.length
        + 1 = (StoneBoard.stones record.head).vacant.length := by
  have hhead : (record.play (BoardMove.relativeTo move record.sideToMove)).head =
      Board.play record.head move := by
    rw [GameRecord.play, BoardMove.relativeTo_relativeTo]
    rfl
  rw [hhead, StoneBoard.stones_play]
  exact Position.length_vacant_play (StoneBoard.legal_of_mem _ _ h)

namespace BatchGame

variable {game after : BatchGame P Square}

def vacancies (game : BatchGame P Square) : Nat :=
  (StoneBoard.stones game.record.head).vacant.length

/-- The rounds that a game can still take part in: a move for each vacant square, and a draw. -/
def roundsLeft (game : BatchGame P Square) : Nat :=
  if game.result.isTerminal then 0 else game.vacancies + 1

theorem roundsLeft_of_isTerminal (h : game.result.isTerminal = true) : game.roundsLeft = 0 :=
  if_pos h

theorem roundsLeft_of_undecided (h : game.result = .undecided) :
    game.roundsLeft = game.vacancies + 1 := by
  rw [roundsLeft, h]
  rfl

theorem roundsLeft_le (game : BatchGame P Square) : game.roundsLeft ≤ game.vacancies + 1 := by
  unfold roundsLeft
  split
  · exact Nat.zero_le _
  · exact Nat.le_refl _

theorem roundsLeft_settle_le (tablebase : Option (Tablebase ω P)) (game : BatchGame P Square)
    (world : ω) : (game.settle tablebase world).1.roundsLeft ≤ game.roundsLeft := by
  rcases settle_cases (follows_true tablebase) game world with
    ⟨hsame, -⟩ | ⟨result, -, -, hover, hgame⟩
  · rw [hsame]
  · rw [hgame, roundsLeft_of_isTerminal hover]
    exact Nat.zero_le _

theorem roundsLeft_lt_of_advances (hopen : game.result = .undecided) (h : game.Advances after) :
    after.roundsLeft < game.roundsLeft := by
  rw [roundsLeft_of_undecided hopen]
  cases h with
  | play hmove hstill hrecord =>
    have htaken := vacant_play hmove
    rw [← hrecord] at htaken
    rw [roundsLeft_of_undecided hstill]
    unfold vacancies
    omega
  | stuck _ hdraw =>
    rw [roundsLeft_of_isTerminal (by rw [hdraw]; rfl)]
    exact Nat.succ_pos _

/-- Each move that a game records has taken one vacant square. -/
theorem squares_of_progress {rules : GameRecord P Square → GameResult → Prop}
    (hfresh : game.tree.IsFresh) (h : game.Progress rules after) :
    after.record.moveCount + after.vacancies = game.record.moveCount + game.vacancies := by
  unfold vacancies
  rcases record_of_progress hfresh h with hsame | ⟨move, hmove, hplayed⟩
  · rw [hsame]
  · have hcount : after.record.moveCount = game.record.moveCount + 1 := by
      rw [hplayed]
      rfl
    rw [hcount, ← vacant_play hmove, hplayed]
    omega

end BatchGame

namespace Batch

open BatchGame

variable {networks : PerSide (Network ω)} {tablebase : Option (Tablebase ω P)}
  {batch next later : Batch P Square} {world : ω} {marks : List Bool}

/-- The vacant squares of all games. -/
def vacancies (batch : Batch P Square) : Nat := (batch.games.map (·.vacancies)).sum

def roundsLeft (batch : Batch P Square) : Nat := (batch.games.map (·.roundsLeft)).sum

theorem roundsLeft_lt_roundLimit (batch : Batch P Square) :
    batch.roundsLeft < roundLimit batch := by
  unfold roundsLeft roundLimit
  induction batch.games with
  | nil => exact Nat.zero_lt_one
  | cons game rest ih =>
    have hle := game.roundsLeft_le
    unfold BatchGame.vacancies at hle
    rw [List.map_cons, List.map_cons, List.sum_cons, List.foldr_cons]
    omega

theorem roundsLeft_settle_le (tablebase : Option (Tablebase ω P)) (batch : Batch P Square)
    (world : ω) : (batch.settle tablebase world).1.roundsLeft ≤ batch.roundsLeft := by
  have hall (games : List (BatchGame P Square)) (world : ω) :
      ((settleAll tablebase games world).1.map (·.roundsLeft)).sum ≤
        (games.map (·.roundsLeft)).sum := by
    induction games generalizing world with
    | nil => exact Nat.le_refl _
    | cons game rest ih =>
      rw [settleAll, List.map_cons, List.map_cons, List.sum_cons, List.sum_cons]
      exact Nat.add_le_add (game.roundsLeft_settle_le tablebase world) (ih _)
  exact hall batch.games world

/-- The games of a side that has moved have fewer rounds left, the others as many as before. -/
theorem SideMoved.roundsLeft_lt {side : Color} {first : BatchGame P Square}
    (h : SideMoved side batch next) (hfirst : first ∈ batch.games)
    (hawaits : first.awaits side = true) : next.roundsLeft < batch.roundsLeft := by
  have hlength := h.length
  have hzip (f : BatchGame P Square → Nat) :
      (batch.games.zip next.games).map (f ∘ Prod.fst) = batch.games.map f ∧
        (batch.games.zip next.games).map (f ∘ Prod.snd) = next.games.map f := by
    rw [← List.map_map, ← List.map_map, List.map_fst_zip (by omega), List.map_snd_zip (by omega)]
    exact ⟨rfl, rfl⟩
  have hpair (i : Nat) (pair : BatchGame P Square × BatchGame P Square)
      (hi : (batch.games.zip next.games)[i]? = some pair) :
      pair.2.roundsLeft ≤ pair.1.roundsLeft ∧
        (pair.1.awaits side = true → pair.2.roundsLeft < pair.1.roundsLeft) := by
    obtain ⟨hbefore, hafter⟩ := List.getElem?_zip_eq_some.mp hi
    obtain ⟨after, hafter', hwaits, hmoves⟩ := h.games i pair.1 hbefore
    rw [hafter] at hafter'
    obtain rfl : pair.2 = after := Option.some.inj hafter'
    cases hside : pair.1.awaits side with
    | false =>
      rw [hwaits hside]
      exact ⟨Nat.le_refl _, fun hside => Bool.noConfusion hside⟩
    | true =>
      have hlt := roundsLeft_lt_of_advances (awaits_iff.mp hside).1 (hmoves hside)
      exact ⟨Nat.le_of_lt hlt, fun _ => hlt⟩
  unfold roundsLeft
  rw [← (hzip (·.roundsLeft)).1, ← (hzip (·.roundsLeft)).2]
  apply List.sum_lt_sum
  · intro pair hmem
    obtain ⟨i, hi⟩ := List.mem_iff_getElem?.mp hmem
    exact (hpair i pair hi).1
  · obtain ⟨i, hi⟩ := List.mem_iff_getElem?.mp hfirst
    obtain ⟨after, hafter, -⟩ := h.games i first hi
    have hboth : (batch.games.zip next.games)[i]? = some (first, after) :=
      List.getElem?_zip_eq_some.mpr ⟨hi, hafter⟩
    exact ⟨_, List.mem_of_getElem? hboth, (hpair i _ hboth).2 hawaits⟩

/-- **Every round that goes on brings the batch nearer to its end.** -/
theorem Progress.roundsLeft_lt (hfresh : batch.IsFresh)
    (h : batch.Progress networks tablebase world none next marks) :
    next.roundsLeft < batch.roundsLeft := by
  obtain ⟨first, hfirst, hopen, hmoved, -⟩ := h.sideMoved hfresh
  exact Nat.lt_of_lt_of_le (hmoved.roundsLeft_lt hfirst (awaits_iff.mpr ⟨hopen, rfl⟩))
    (roundsLeft_settle_le tablebase batch world)

/-- Play rests before its rounds are used up. -/
theorem ne_cutShort_of_roundsLeft_lt (hfresh : batch.IsFresh) {rounds : Nat}
    (hrounds : batch.roundsLeft < rounds) {ending : PlayEnd} {last : ω}
    (hplay : batch.playFor networks tablebase rounds world = (ending, later, last)) :
    ending ≠ .cutShort := by
  rintro rfl
  induction rounds generalizing batch world with
  | zero => exact Nat.not_lt_zero _ hrounds
  | succ rounds ih =>
    obtain ⟨next, now, hround, hrest⟩ := exists_round_of_cutShort hplay
    obtain ⟨marks, hprogress, -⟩ := round_watched networks tablebase batch world hround
    have hlt := hprogress.roundsLeft_lt hfresh
    exact ih (isFresh_of_round hfresh hround) (by omega) hrest

/-- The moves that a batch counts and the squares that stay vacant make up those that were vacant
at its start. -/
theorem pliesPlayed_add_vacancies (hfresh : batch.IsFresh)
    (hleads : batch.Leads networks tablebase later) :
    later.pliesPlayed + later.vacancies = batch.pliesPlayed + batch.vacancies := by
  have hsquares : later.games.map (fun game => game.record.moveCount + game.vacancies) =
      batch.games.map fun game => game.record.moveCount + game.vacancies := by
    apply List.ext_getElem?
    intro i
    rw [List.getElem?_map, List.getElem?_map]
    cases hi : batch.games[i]? with
    | none =>
      rw [List.getElem?_eq_none_iff] at hi
      rw [List.getElem?_eq_none (by rw [length_of_leads hleads]; exact hi)]
    | some game =>
      obtain ⟨after, hafter, -, hsame⟩ := keeps_of_leads
        (fun after => after.tree.IsFresh ∧ after.record.moveCount + after.vacancies =
          game.record.moveCount + game.vacancies) (follows_true tablebase)
        (fun before after hkept hprogress => ⟨isFresh_of_progress hkept.1 hprogress,
          (squares_of_progress hkept.1 hprogress).trans hkept.2⟩)
        hleads hi ⟨hfresh game (List.mem_of_getElem? hi), rfl⟩
      rw [hafter, Option.map_some, Option.map_some, hsame]
  have hsum (batch : Batch P Square) :
      (batch.games.map fun game => game.record.moveCount + game.vacancies).sum =
        batch.recordedMoves + batch.vacancies := List.sum_map_add
  have hsame := congrArg List.sum hsquares
  rw [hsum, hsum] at hsame
  have htallies : later.pliesPlayed + batch.recordedMoves =
      batch.pliesPlayed + later.recordedMoves := tallies_of_leads hleads
  omega

end Batch

/-- **Every batch of games with stones comes to an end**, on any board that takes no stone away and
allows no move that tic-tac-toe forbids. From whatever state calls to play and requests to stop have
led to, play with any networks and any tablebase rests within the round limit, and more rounds
change nothing. If the networks answer every time, it finishes. If it finishes and no stop was asked
for, every result is terminal. And never are more moves counted than squares were vacant at the ends
of the openings. -/
theorem batch_comes_to_end {players : PerSide (Player ω Square)}
    {openings : List (Opening Square)} {start batch : Batch P Square}
    (hstart : Batch.ofOpenings players openings = .ok start) {networks : PerSide (Network ω)}
    {tablebase : Option (Tablebase ω P)} (hleads : start.Leads networks tablebase batch)
    (world : ω) :
    ∃ ending final last,
      (∀ rounds, roundLimit batch ≤ rounds →
        batch.playFor networks tablebase rounds world = (ending, final, last)) ∧
      ending ≠ .cutShort ∧
      ((∀ side, (networks.get side).NeverFails) → ending = .finished) ∧
      (ending = .finished → final.aborted = false →
        ∀ result ∈ final.results, result.isTerminal = true) ∧
      final.pliesPlayed ≤
        (start.games.map fun game => (StoneBoard.stones game.record.head).vacant.length).sum := by
  have hfresh := Batch.isFresh_of_ofOpenings hstart
  obtain ⟨ending, final, last, hplay⟩ : ∃ ending final last,
      batch.playFor networks tablebase (roundLimit batch) world = (ending, final, last) :=
    ⟨_, _, _, rfl⟩
  have hrests : ending ≠ .cutShort :=
    Batch.ne_cutShort_of_roundsLeft_lt (Batch.isFresh_of_leads hleads hfresh)
      batch.roundsLeft_lt_roundLimit hplay
  refine ⟨ending, final, last, ?_, hrests, ?_, ?_, ?_⟩
  · intro rounds hrounds
    obtain ⟨more, rfl⟩ := Nat.exists_eq_add_of_le hrounds
    exact Batch.playFor_of_rests hplay hrests more
  · intro hnetworks
    cases ending with
    | finished => rfl
    | failed error => exact absurd rfl (Batch.playFor_ne_failed hnetworks hplay error)
    | cutShort => exact absurd rfl hrests
  · rintro rfl hrun result hresult
    obtain ⟨game, hgame, rfl⟩ := List.mem_map.mp hresult
    exact Batch.isTerminal_of_finished hplay hrun game hgame
  · have hall := Batch.pliesPlayed_add_vacancies hfresh
      (hleads.trans (Batch.leads_of_playFor hplay))
    rw [Batch.pliesPlayed_of_ofOpenings hstart, Nat.zero_add] at hall
    exact Nat.le.intro hall

/-- A network that has no number to offer, and counts how often it is asked. -/
def speechlessNetwork : Network Nat where
  format := .canonical
  evaluate samples asked := ⟨.ok (samples.map fun _ => Binary32.nan), false, asked + 1⟩

/-- A tablebase that changes its mind with each batch that the network is asked about. -/
def fickleTablebase : Tablebase Nat HousePosition where
  maxPieces := 9
  probe _ asked := ((.win, if asked % 4 = 3 then .ok else .fail), asked)

/-- Two games with house rules: nobody can move once four stones stand, or once seven do. -/
def houseOpenings : List (Opening Square) :=
  [⟨"S4:.../.o./x..", []⟩, ⟨"S7:.../.o./x..", [HousePosition.kingMove]⟩]

def houseBatch : Batch HousePosition Square :=
  ⟨false,
    [⟨⟨⟨⟨⟨0b000000001, 0b000010000, 2⟩, false, some 4, none⟩, []⟩, .empty⟩, .undecided⟩,
      ⟨⟨⟨⟨⟨0b000000101, 0b000010000, 3⟩, false, some 7, none⟩,
        [(⟨⟨0b000000001, 0b000010000, 2⟩, false, some 7, none⟩, HousePosition.kingMove)]⟩, .empty⟩, .undecided⟩],
    0, false⟩

theorem ofOpenings_houseOpenings :
    Batch.ofOpenings (⟨Player.ofNetwork speechlessNetwork, Player.ofNetwork speechlessNetwork⟩ :
      PerSide (Player Nat Square)) houseOpenings = .ok houseBatch := by
  have hwritten : Batch.castlingNotation (⟨Player.ofNetwork speechlessNetwork,
      Player.ofNetwork speechlessNetwork⟩ : PerSide (Player Nat Square)) = .ok false := by
    decide +kernel
  have hfirst : Board.ofFen "S4:.../.o./x.." =
      .ok (⟨⟨0b000000001, 0b000010000, 2⟩, false, some 4, none⟩ : HousePosition) := rfl
  have hsecond : Board.ofFen "S7:.../.o./x.." =
      .ok (⟨⟨0b000000001, 0b000010000, 2⟩, false, some 7, none⟩ : HousePosition) := rfl
  have htrees : Batch.treesOf houseOpenings = .ok (houseBatch.games.map (·.tree)) := by
    unfold houseOpenings Batch.treesOf GameTree.ofOpening GameRecord.ofOpening
    rw [hfirst]
    unfold Batch.treesOf GameTree.ofOpening GameRecord.ofOpening
    rw [hsecond]
    rfl
  exact Batch.ofOpenings_eq_ok_iff.mpr ⟨_, _, hwritten, htrees, rfl⟩

/-- One game is drawn because nobody can move, the other is given to black when the tablebase makes up
its mind. That took four of the thirteen vacant squares. -/
theorem house_batch_comes_to_end :
    ∃ final last,
      (∀ rounds, roundLimit houseBatch ≤ rounds →
        houseBatch.playFor ⟨speechlessNetwork, speechlessNetwork⟩ (some fickleTablebase) rounds 0 =
          (.finished, final, last)) ∧
      final.results = [.draw, .won .black] ∧ final.pliesPlayed = 4 ∧
      (∀ result ∈ final.results, result.isTerminal = true) ∧
      final.pliesPlayed ≤ (houseBatch.games.map fun game =>
        (StoneBoard.stones game.record.head).vacant.length).sum ∧
      (houseBatch.games.map fun game =>
        (StoneBoard.stones game.record.head).vacant.length).sum = 13 := by
  have hplay : (houseBatch.playFor ⟨speechlessNetwork, speechlessNetwork⟩ (some fickleTablebase)
        (roundLimit houseBatch) 0).2.1.results = [.draw, .won .black] ∧
      (houseBatch.playFor ⟨speechlessNetwork, speechlessNetwork⟩ (some fickleTablebase)
        (roundLimit houseBatch) 0).2.1.pliesPlayed = 4 ∧
      (houseBatch.playFor ⟨speechlessNetwork, speechlessNetwork⟩ (some fickleTablebase)
        (roundLimit houseBatch) 0).2.1.aborted = false := by decide +kernel
  have hnetworks : ∀ side, ((⟨speechlessNetwork, speechlessNetwork⟩ :
      PerSide (Network Nat)).get side).NeverFails := by
    intro side
    cases side <;> exact fun _ _ => ⟨_, rfl⟩
  have hleads : houseBatch.Leads ⟨speechlessNetwork, speechlessNetwork⟩ (some fickleTablebase)
      houseBatch := .refl
  obtain ⟨ending, final, last, hlimit, -, hanswers, hterminal, hplies⟩ :=
    batch_comes_to_end ofOpenings_houseOpenings hleads 0
  obtain rfl := hanswers hnetworks
  rw [hlimit _ (Nat.le_refl _)] at hplay
  obtain ⟨hresults, hcount, hrun⟩ := hplay
  exact ⟨final, last, hlimit, hresults, hcount, hterminal rfl hrun, hplies, by decide +kernel⟩

end Lookahead

end SelfPlay
