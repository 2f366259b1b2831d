import Mathlib.Algebra.GroupWithZero.Nat
import Mathlib.Algebra.Order.BigOperators.Group.List
import Mathlib.Algebra.Order.Group.Nat
import SelfPlay.Proofs.Lookahead.Lockstep

/-!
# The count of moves

A batch counts its moves by looking at who has edges before a side moves, and each game records its
own. The two agree after every round, whatever became of it: a group step that failed has counted
nothing, and a game that was drawn for want of moves is not counted.
-/

namespace SelfPlay.Lookahead

open SelfPlay.Numeric

variable {ω P M : Type}

namespace BatchGame

variable [BoardMove M] [DecidableEq M] [Board P M]

/-- A game with edges makes a move, a game without is drawn as it stands. -/
theorem moveCount_advance (game : BatchGame P M) (format : InputFormat) (value : Nat → Binary32)
    (next : Nat) :
    (game.advance (scores value next (candidates format game.tree))).record.moveCount =
      game.record.moveCount + if game.tree.head.isExpanded then 1 else 0 := by
  have hlength : (scores value next (candidates format game.tree)).length =
      game.tree.head.edges.length := by
    rw [length_scores, candidates, List.length_map]
  unfold Node.isExpanded
  rcases advance_cases hlength with ⟨hnone, hadvance⟩ | ⟨i, edge, -, hedge, hadvance⟩
  · rw [hadvance, hnone]
    rfl
  · have hsome : game.tree.head.edges.isEmpty = false := by
      rw [List.isEmpty_eq_false_iff]
      exact List.ne_nil_of_mem (List.mem_of_getElem? hedge)
    rw [hadvance, hsome]
    rfl

theorem sum_moveCount_advanceAll (format : InputFormat) (side : Color) (value : Nat → Binary32)
    (games : List (BatchGame P M)) (next : Nat) :
    ((advanceAll format side value next games).map (·.record.moveCount)).sum =
      (games.map (·.record.moveCount)).sum +
        games.countP fun game => game.awaits side && game.tree.head.isExpanded := by
  induction games generalizing next with
  | nil => rfl
  | cons game rest ih =>
    rw [advanceAll]
    split
    · rename_i hawaits
      rw [List.map_cons, List.sum_cons, moveCount_advance, ih, List.map_cons, List.sum_cons,
        List.countP_cons]
      simp only [hawaits, Bool.true_and]
      omega
    · rename_i hwaits
      rw [List.map_cons, List.sum_cons, ih, List.map_cons, List.sum_cons, List.countP_cons]
      simp only [Bool.eq_false_iff.mpr hwaits, Bool.false_and, Bool.false_eq_true, if_false]
      omega

end BatchGame

namespace Batch

open BatchGame

variable {networks : PerSide (Network ω)} {tablebase : Option (Tablebase ω P)}
  {network : Network ω} {side : Color} {batch next later : Batch P M} {world : ω}
  {marks : List Bool}

/-- The moves of all games, forced ones included. -/
def recordedMoves (batch : Batch P M) : Nat := (batch.games.map (·.record.moveCount)).sum

/-- Between two batches, the counter has grown as the records have. -/
def Tallies (batch later : Batch P M) : Prop :=
  later.pliesPlayed + batch.recordedMoves = batch.pliesPlayed + later.recordedMoves

theorem Tallies.trans (h : batch.Tallies next) (hlater : next.Tallies later) :
    batch.Tallies later := by
  unfold Tallies at h hlater ⊢
  omega

theorem tallies_abortIf (stop : Bool) (batch : Batch P M) : batch.Tallies (batch.abortIf stop) := by
  cases stop <;> exact rfl

variable [Board P M]

theorem tallies_settle (tablebase : Option (Tablebase ω P)) (batch : Batch P M) (world : ω) :
    batch.Tallies (batch.settle tablebase world).1 := by
  have hrecords (games : List (BatchGame P M)) (world : ω) :
      (settleAll tablebase games world).1.map (·.record.moveCount) =
        games.map (·.record.moveCount) := by
    induction games generalizing world with
    | nil => rfl
    | cons game rest ih =>
      rw [settleAll, List.map_cons, List.map_cons, ih, record, tree_settle]
      rfl
  have hsame : (batch.settle tablebase world).1.recordedMoves = batch.recordedMoves :=
    congrArg List.sum (hrecords batch.games world)
  unfold Tallies
  rw [hsame]
  rfl

theorem tallies_expandGroup (side : Color) (batch : Batch P M) :
    batch.Tallies (batch.expandGroup side) := by
  have hsame : (batch.expandGroup side).recordedMoves = batch.recordedMoves := by
    unfold recordedMoves expandGroup
    rw [List.map_map]
    congr 1
    refine List.map_congr_left fun game _ => ?_
    rw [Function.comp_apply]
    split <;> rfl
  unfold Tallies
  rw [hsame]
  rfl

variable [BoardMove M] [DecidableEq M]

theorem tallies_advance (format : InputFormat) (side : Color) (values : List Binary32)
    (batch : Batch P M) : batch.Tallies (batch.advance format side values) := by
  unfold Tallies recordedMoves advance groupMoves
  simp only [sum_moveCount_advanceAll]
  omega

theorem Grouped.tallies {ending : Option PlayEnd}
    (h : batch.Grouped network side ending next marks) : batch.Tallies next := by
  have hexpand := tallies_expandGroup side batch
  cases h with
  | silent => exact hexpand.trans (tallies_advance _ _ _ _)
  | failed => exact hexpand.trans (tallies_abortIf _ _)
  | valued => exact (hexpand.trans (tallies_advance _ _ _ _)).trans (tallies_abortIf _ _)

theorem tallies_round (networks : PerSide (Network ω)) (tablebase : Option (Tablebase ω P))
    (batch : Batch P M) (world : ω) :
    batch.Tallies (batch.round networks tablebase world).2.1 := by
  obtain ⟨ending, next, last, hround⟩ : ∃ ending next last,
      batch.round networks tablebase world = (ending, next, last) := ⟨_, _, _, rfl⟩
  obtain ⟨marks, hprogress, -⟩ := round_watched networks tablebase batch world hround
  have hsettle := tallies_settle tablebase batch world
  rw [hround]
  cases hprogress with
  | stopped => exact rfl
  | decided => exact hsettle
  | grouped _ _ hgrouped => exact hsettle.trans hgrouped.tallies

/-- **Whatever happens to a batch, it has counted the moves that its games record.** -/
theorem tallies_of_leads (h : batch.Leads networks tablebase later) : batch.Tallies later := by
  induction h with
  | refl => exact rfl
  | tail _ hstep ih =>
    cases hstep with
    | round world => exact ih.trans (tallies_round networks tablebase _ world)
    | requestAbort => exact ih.trans rfl

/-- The counter has grown by the moves that the games have made meanwhile. -/
theorem pliesPlayed_eq_sum (h : batch.Leads networks tablebase later) :
    later.pliesPlayed = batch.pliesPlayed +
      (List.zipWith (fun game after : BatchGame P M =>
        after.record.moveCount - game.record.moveCount) batch.games later.games).sum := by
  have htallies : later.pliesPlayed + batch.recordedMoves =
      batch.pliesPlayed + later.recordedMoves := tallies_of_leads h
  have hgrown : ∀ (i : Nat) (game after : BatchGame P M), batch.games[i]? = some game →
      later.games[i]? = some after → game.record.moveCount ≤ after.record.moveCount := by
    intro i game after hgame hafter
    obtain ⟨after', hafter', hle⟩ := moveCount_of_leads h hgame
    rw [hafter] at hafter'
    cases hafter'
    exact hle
  have hlength := length_of_leads h
  suffices hsum : later.recordedMoves = batch.recordedMoves +
      (List.zipWith (fun game after : BatchGame P M =>
        after.record.moveCount - game.record.moveCount) batch.games later.games).sum by omega
  unfold recordedMoves
  generalize batch.games = befores, later.games = afters at hgrown hlength
  induction befores generalizing afters with
  | nil =>
    obtain rfl := List.length_eq_zero_iff.mp hlength
    rfl
  | cons game rest ih =>
    cases afters with
    | nil => cases hlength
    | cons after afters =>
      have hfirst := hgrown 0 game after rfl rfl
      have hrest := ih afters (fun i before later hbefore hlater =>
        hgrown (i + 1) before later hbefore hlater) (Nat.succ_inj.mp hlength)
      simp only [List.map_cons, List.sum_cons, List.zipWith_cons_cons, hrest]
      omega

end Batch

end SelfPlay.Lookahead
