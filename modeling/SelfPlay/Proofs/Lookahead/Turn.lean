import Mathlib.Logic.Function.Iterate
import SelfPlay.Proofs.Lookahead.Group
import SelfPlay.Proofs.Lookahead.Ruling

/-!
# Turns of a game by itself

When networks value each position by itself and the tablebase always gives a position the same
answer, a game of a batch is moved by nothing but its own state. `BatchGame.turn` is that motion:
settle the game, and let it move if it is still open. A round of a batch takes each game either one
turn on or, if it has to wait, only settles it, and settling does not get in the way of the next
turn.
-/

namespace SelfPlay.Lookahead

open SelfPlay.Numeric

variable {ω P M : Type} [Board P M]

/-- What the games of a batch are judged by when nothing else in the world matters. -/
structure Judgement (ω P : Type) where
  networks : PerSide (Network ω)
  value : PerSide (List Plane → Binary32)
  tablebase : Option (Tablebase ω P)
  answer : P → Wdl × ProbeState

/-- Networks and tablebase judge each position by itself. -/
structure Judgement.Holds (judgement : Judgement ω P) : Prop where
  pointwise : ∀ side, (judgement.networks.get side).IsPointwise (judgement.value.get side)
  fixed : ∀ tb ∈ judgement.tablebase, tb.IsFixed judgement.answer

namespace BatchGame

variable (judgement : Judgement ω P)

/-- The game after a ruling. -/
def rest (game : BatchGame P M) : BatchGame P M :=
  game.settled judgement.tablebase judgement.answer

theorem rest_rest (game : BatchGame P M) : (game.rest judgement).rest judgement = game.rest judgement :=
  settled_settled game

variable [BoardMove M] [DecidableEq M]

/-- The game after the move with the greatest value, all values being those of the positions. -/
def moved (format : InputFormat) (value : List Plane → Binary32) (game : BatchGame P M) :
    BatchGame P M :=
  game.expand.advance ((candidates format game.expand.tree).map (Candidate.score value))

/-- The game after a ruling and, if that leaves it open, a move. -/
def turn (game : BatchGame P M) : BatchGame P M :=
  let game := game.rest judgement
  if game.result.isTerminal then game
  else
    let side := game.record.sideToMove
    game.moved (judgement.networks.get side).format (judgement.value.get side)

/-- A game that has waited makes the same turn. -/
theorem turn_rest (game : BatchGame P M) : (game.rest judgement).turn judgement = game.turn judgement := by
  unfold turn
  rw [rest_rest]

variable {judgement}

theorem turn_of_isTerminal {game : BatchGame P M}
    (h : (game.rest judgement).result.isTerminal = true) :
    game.turn judgement = game.rest judgement := if_pos h

theorem turn_of_open {game : BatchGame P M} {side : Color}
    (h : (game.rest judgement).awaits side = true) :
    game.turn judgement =
      (game.rest judgement).moved (judgement.networks.get side).format (judgement.value.get side) := by
  obtain ⟨hopen, hside⟩ := awaits_iff.mp h
  unfold turn
  rw [if_neg (by rw [hopen]; decide)]
  simp only
  rw [hside]

/-- Games that differ by waiting only take the same course. -/
theorem rest_iterate_congr {game other : BatchGame P M}
    (h : game.rest judgement = other.rest judgement) (k : Nat) :
    ((turn judgement)^[k] game).rest judgement = ((turn judgement)^[k] other).rest judgement := by
  cases k with
  | zero => exact h
  | succ k =>
    rw [Function.iterate_succ_apply, Function.iterate_succ_apply, ← turn_rest judgement game, h,
      turn_rest]

/-- The end of a game is not left again. -/
theorem rest_iterate_of_isTerminal {game : BatchGame P M}
    (h : (game.rest judgement).result.isTerminal = true) (k : Nat) :
    ((turn judgement)^[k] game).rest judgement = game.rest judgement := by
  induction k with
  | zero => rfl
  | succ k ih =>
    rw [Function.iterate_succ_apply, turn_of_isTerminal h,
      rest_iterate_congr (rest_rest judgement game) k]
    exact ih

end BatchGame

namespace Batch

variable [BoardMove M] [DecidableEq M]

/-- The batch after a group step, all values being those of the positions. -/
def moved (format : InputFormat) (value : List Plane → Binary32) (side : Color)
    (batch : Batch P M) : Batch P M :=
  { batch with
    games := batch.games.map fun game =>
      if game.awaits side then game.moved format value else game
    pliesPlayed := batch.pliesPlayed + (batch.expandGroup side).groupMoves side }

theorem advance_expandGroup {batch : Batch P M} {format : InputFormat} {side : Color}
    {values : List Binary32} {value : List Plane → Binary32}
    (h : ∀ k planes, ((batch.expandGroup side).groupSamples format side)[k]? = some planes →
      valueOf values k = value planes) :
    (batch.expandGroup side).advance format side values = batch.moved format value side := by
  have hgames : BatchGame.advanceAll format side (valueOf values) 0 (batch.expandGroup side).games =
      batch.games.map fun game => if game.awaits side then game.moved format value else game := by
    rw [BatchGame.advanceAll_eq_map (by rw [BatchGame.flatMap_share]; exact h)]
    unfold expandGroup
    rw [List.map_map]
    apply List.map_congr_left
    intro game _
    by_cases hside : game.awaits side = true
    · have hstill : game.expand.awaits side = true := hside
      simp only [Function.comp_apply, hside, if_true, hstill]
      rfl
    · simp only [Function.comp_apply, hside, Bool.false_eq_true, if_false]
  unfold advance moved
  rw [hgames]
  rfl

/-- A group step moves each game of the group by the values of its own positions. -/
theorem playGroup_of_isPointwise {network : Network ω} {value : List Plane → Binary32}
    (h : network.IsPointwise value) (side : Color) (batch : Batch P M) (world : ω) :
    ∃ after, batch.playGroup network side world =
      (none, batch.moved network.format value side, after) := by
  unfold playGroup
  generalize hsamples : (batch.expandGroup side).groupSamples network.format side = samples
  simp only [hsamples]
  split
  · rename_i hempty
    refine ⟨world, ?_⟩
    rw [advance_expandGroup]
    intro k planes hk
    rw [hsamples, List.isEmpty_iff.mp hempty] at hk
    simp at hk
  · obtain ⟨houtcome, hstop⟩ := h samples world
    refine ⟨(network.evaluate samples world).world, ?_⟩
    rw [houtcome, hstop]
    simp only [Bool.false_eq_true, if_false]
    rw [advance_expandGroup]
    intro k planes hk
    rw [hsamples] at hk
    simp [valueOf, hk]

variable (judgement : Judgement ω P)

/-- The batch after all rulings. -/
def rest (batch : Batch P M) : Batch P M :=
  { batch with games := batch.games.map (BatchGame.rest judgement) }

/-- The batch after all rulings and the moves of one side. -/
def turned (side : Color) (batch : Batch P M) : Batch P M :=
  (batch.rest judgement).moved (judgement.networks.get side).format (judgement.value.get side) side

variable {judgement}

/-- A round either ends the play with all games decided, or moves the games of one side. -/
theorem round_of_holds (h : judgement.Holds) {batch : Batch P M} (hrun : batch.aborted = false)
    (world : ω) :
    ((batch.rest judgement).firstUndecided? = none ∧
      ∃ after, batch.round judgement.networks judgement.tablebase world =
        (some .finished, batch.rest judgement, after)) ∨
    ∃ first side, (batch.rest judgement).firstUndecided? = some first ∧
      first.awaits side = true ∧
      ∃ after, batch.round judgement.networks judgement.tablebase world =
        (none, batch.turned judgement side, after) := by
  have hsettle : (batch.settle judgement.tablebase world).1 = batch.rest judgement :=
    settle_of_isFixed h.fixed batch world
  unfold round
  rw [if_neg (Bool.eq_false_iff.mp hrun)]
  simp only [hsettle]
  cases hfirst : (batch.rest judgement).firstUndecided? with
  | none => exact Or.inl ⟨rfl, _, rfl⟩
  | some first =>
    obtain ⟨after, hgroup⟩ := playGroup_of_isPointwise (h.pointwise first.record.sideToMove)
      first.record.sideToMove (batch.rest judgement) (batch.settle judgement.tablebase world).2
    have hopen : first.result.isTerminal = false := by
      simpa using List.find?_some hfirst
    have hawaits : first.awaits first.record.sideToMove = true :=
      BatchGame.awaits_iff.mpr ⟨GameResult.isTerminal_eq_false_iff.mp hopen, rfl⟩
    exact Or.inr ⟨first, first.record.sideToMove, rfl, hawaits, after, hgroup⟩

theorem isTerminal_of_firstUndecided?_eq_none {P M : Type} {batch : Batch P M}
    (h : batch.firstUndecided? = none) : ∀ game ∈ batch.games, game.result.isTerminal = true := by
  intro game hmem
  simpa using List.find?_eq_none.mp h game hmem

/-- In a round of open games each game goes one turn on, or only waits. -/
theorem games_turned (batch : Batch P M) (side : Color) :
    (batch.turned judgement side).games =
      batch.games.map fun game =>
        if (game.rest judgement).awaits side then game.turn judgement
        else game.rest judgement := by
  unfold turned moved rest
  simp only [List.map_map]
  apply List.map_congr_left
  intro game _
  by_cases hside : (game.rest judgement).awaits side = true
  · rw [Function.comp_apply, if_pos hside, if_pos hside, BatchGame.turn_of_open hside]
  · rw [Function.comp_apply, if_neg hside, if_neg hside]

end Batch

end SelfPlay.Lookahead
