import SelfPlay.Lookahead.Batch

/-!
# Rulings

A tablebase whose answers depend on the position alone turns settling into a function of the game:
`ruling` is what the rules say about it, or else what the tablebase says about its current position.
`Tablebase.Decides` states in full when a tablebase says anything, and what. Settling a second time
changes nothing, so a game that has to wait for its turn may be settled in every round.
-/

namespace SelfPlay

variable {ω P M : Type} [Board P M]

namespace Tablebase

/-- What a tablebase with fixed answers says about a position, if it says anything. -/
def decision (tablebase : Tablebase ω P) (answer : P → Wdl × ProbeState) (position : P) :
    Option GameResult :=
  if tablebase.covers position then verdict (Board.sideToMove position) (answer position) else none

/-- A position is decided: nobody may castle, the pieces are few enough, the probe has not failed,
and a win or loss of the side to move is one of its colour. The move limit makes draws. -/
structure Decides (tablebase : Tablebase ω P) (answer : P → Wdl × ProbeState) (position : P)
    (result : GameResult) : Prop where
  noCastle : Board.noLegalCastle position = true
  fewPieces : Board.pieceCount position ≤ tablebase.maxPieces
  answered : (answer position).2 ≠ .fail
  result_eq : result = match (answer position).1 with
    | .win => .won (Board.sideToMove position)
    | .loss => .won (Board.sideToMove position).opponent
    | .draw | .cursedWin | .blessedLoss => .draw

theorem adjudicate_of_isFixed {tablebase : Tablebase ω P} {answer : P → Wdl × ProbeState}
    (h : tablebase.IsFixed answer) (position : P) (world : ω) :
    (tablebase.adjudicate position world).1 = tablebase.decision answer position := by
  unfold adjudicate decision
  split
  · simp only
    rw [h]
  · rfl

theorem verdict_eq_some_iff (side : Color) (outcome : Wdl) (state : ProbeState)
    (result : GameResult) :
    verdict side (outcome, state) = some result ↔
      state ≠ .fail ∧ result = outcome.toResult side := by
  cases state <;> simp [verdict, eq_comm]

theorem decision_eq_some_iff (tablebase : Tablebase ω P) (answer : P → Wdl × ProbeState)
    (position : P) (result : GameResult) :
    tablebase.decision answer position = some result ↔
      tablebase.Decides answer position result := by
  have hresult (outcome : Wdl) (side : Color) : outcome.toResult side = match outcome with
      | .win => .won side
      | .loss => .won side.opponent
      | .draw | .cursedWin | .blessedLoss => .draw := by cases outcome <;> rfl
  unfold decision covers
  split
  · rename_i hcovers
    rw [Bool.and_eq_true, decide_eq_true_eq] at hcovers
    rw [verdict_eq_some_iff, hresult]
    exact ⟨fun h => ⟨hcovers.1, hcovers.2, h.1, h.2⟩, fun h => ⟨h.answered, h.result_eq⟩⟩
  · rename_i hcovers
    rw [Bool.and_eq_true, decide_eq_true_eq] at hcovers
    constructor
    · intro h
      cases h
    · intro h
      exact absurd ⟨h.noCastle, h.fewPieces⟩ hcovers

theorem isTerminal_of_decides {tablebase : Tablebase ω P} {answer : P → Wdl × ProbeState}
    {position : P} {result : GameResult} (h : tablebase.Decides answer position result) :
    result.isTerminal = true := by
  rw [h.result_eq]
  split <;> rfl

end Tablebase

namespace Lookahead

/-- What the rules say about a game, or else the tablebase. -/
def ruling (tablebase : Option (Tablebase ω P)) (answer : P → Wdl × ProbeState)
    (record : GameRecord P M) : GameResult :=
  if record.history.result.isTerminal then record.history.result
  else (tablebase.bind fun tablebase => tablebase.decision answer record.head).getD .undecided

theorem ruling_of_isTerminal (tablebase : Option (Tablebase ω P)) (answer : P → Wdl × ProbeState)
    {record : GameRecord P M} (h : record.history.result.isTerminal = true) :
    ruling tablebase answer record = record.history.result := if_pos h

/-- A tablebase is listened to only where the rules leave a game open. -/
theorem ruling_of_decides {tablebase : Tablebase ω P} {answer : P → Wdl × ProbeState}
    {record : GameRecord P M} {result : GameResult} (hopen : record.history.result = .undecided)
    (h : tablebase.Decides answer record.head result) :
    ruling (some tablebase) answer record = result := by
  have hdecision := (tablebase.decision_eq_some_iff answer record.head result).mpr h
  simp [ruling, hopen, GameResult.isTerminal, hdecision]

/-- Nothing rules on a game exactly if the rules leave it open and no tablebase decides it. -/
theorem ruling_eq_undecided_iff (tablebase : Option (Tablebase ω P))
    (answer : P → Wdl × ProbeState) (record : GameRecord P M) :
    ruling tablebase answer record = .undecided ↔
      record.history.result = .undecided ∧
        ∀ tb ∈ tablebase, ∀ result, ¬tb.Decides answer record.head result := by
  cases hopen : record.history.result with
  | won side => simp [ruling, hopen, GameResult.isTerminal]
  | draw => simp [ruling, hopen, GameResult.isTerminal]
  | undecided =>
    cases tablebase with
    | none => simp [ruling, hopen, GameResult.isTerminal]
    | some tb =>
      simp only [Option.mem_def, Option.some.injEq, forall_eq', true_and]
      constructor
      · intro h result hdecides
        rw [ruling_of_decides hopen hdecides] at h
        have hterminal := Tablebase.isTerminal_of_decides hdecides
        rw [h] at hterminal
        cases hterminal
      · intro h
        cases hdecision : tb.decision answer record.head with
        | none => simp [ruling, hopen, GameResult.isTerminal, hdecision]
        | some result =>
          exact absurd ((tb.decision_eq_some_iff answer record.head result).mp hdecision) (h result)

namespace BatchGame

/-- The game after a ruling, unless it is over. -/
def settled (tablebase : Option (Tablebase ω P)) (answer : P → Wdl × ProbeState)
    (game : BatchGame P M) : BatchGame P M :=
  if game.result.isTerminal then game
  else { game with result := ruling tablebase answer game.record }

variable {tablebase : Option (Tablebase ω P)} {answer : P → Wdl × ProbeState}

@[simp] theorem tree_settled (game : BatchGame P M) :
    (game.settled tablebase answer).tree = game.tree := by
  unfold settled
  split <;> rfl

@[simp] theorem record_settled (game : BatchGame P M) :
    (game.settled tablebase answer).record = game.record :=
  congrArg GameTree.record (tree_settled game)

theorem settled_of_isTerminal {game : BatchGame P M} (h : game.result.isTerminal = true) :
    game.settled tablebase answer = game := if_pos h

theorem result_settled {game : BatchGame P M} (h : game.result.isTerminal = false) :
    (game.settled tablebase answer).result = ruling tablebase answer game.record := by
  simp [settled, h]

/-- Settling twice is settling once. -/
@[simp] theorem settled_settled (game : BatchGame P M) :
    (game.settled tablebase answer).settled tablebase answer = game.settled tablebase answer := by
  unfold settled
  by_cases h : game.result.isTerminal = true
  · rw [if_pos h, if_pos h]
  · rw [if_neg h]
    split <;> rfl

theorem settle_of_isFixed (hfixed : ∀ tb ∈ tablebase, tb.IsFixed answer) (game : BatchGame P M)
    (world : ω) : (game.settle tablebase world).1 = game.settled tablebase answer := by
  unfold settle settled ruling
  split
  · rfl
  · simp only
    split
    · rfl
    · rename_i hresult hopen
      cases tablebase with
      | none =>
        have h : game.result = .undecided := GameResult.eq_undecided_of_not_isTerminal hresult
        cases game with
        | mk tree result => cases h; rfl
      | some tb =>
        simp only [Option.bind_some]
        rw [Tablebase.adjudicate_of_isFixed (hfixed tb rfl)]

theorem settleAll_of_isFixed (hfixed : ∀ tb ∈ tablebase, tb.IsFixed answer)
    (games : List (BatchGame P M)) (world : ω) :
    (settleAll tablebase games world).1 = games.map (settled tablebase answer) := by
  induction games generalizing world with
  | nil => rfl
  | cons game rest ih =>
    simp only [settleAll, List.map_cons]
    rw [settle_of_isFixed hfixed, ih]

end BatchGame

namespace Batch

theorem settle_of_isFixed {tablebase : Option (Tablebase ω P)} {answer : P → Wdl × ProbeState}
    (hfixed : ∀ tb ∈ tablebase, tb.IsFixed answer) (batch : Batch P M) (world : ω) :
    (batch.settle tablebase world).1 =
      { batch with games := batch.games.map (BatchGame.settled tablebase answer) } := by
  unfold settle
  simp only
  rw [BatchGame.settleAll_of_isFixed hfixed]

end Batch

end Lookahead

end SelfPlay
