import Mathlib.Algebra.Order.Field.Rat
import SelfPlay.Proofs.TicTacToe.Encoding
import SelfPlay.Proofs.TicTacToe.Text
import SelfPlay.Proofs.Training.Labels

/-!
# What a training sample still tells

A sample keeps the masks of the planes that a network was shown, the side to move and the symmetry that
was applied, the last two packed in different bytes for different formats. That is enough to have the
last positions of the game back (`stonesAgo?`). Its policy gives each edge of the searched node its share
of the visits.
-/

namespace SelfPlay

open SelfPlay.Numeric
open SelfPlay.TicTacToe

namespace TicTacToe

/-- The stones of a mask, if it has none beside the board. -/
def Stones.ofMask? (mask : UInt64) : Option Stones :=
  if mask.toNat < 2 ^ 9 then some (.ofNat 9 mask.toNat) else none

theorem Stones.ofMask?_plane (stones : Stones) : ofMask? stones.plane.mask = some stones := by
  rw [ofMask?, toNat_mask_plane, if_pos stones.isLt, BitVec.ofNat_toNat, BitVec.setWidth_eq]

namespace StonePair

/-- The stones of white and those of black, of which `side` sees a pair. -/
def whiteAndBlack (side : Color) (pair : StonePair) : Stones × Stones :=
  match side with
  | .white => (pair.ours, pair.theirs)
  | .black => ((pair.rearranged Square.mirrored).theirs, (pair.rearranged Square.mirrored).ours)

theorem whiteAndBlack_seenBy (side : Color) (position : Position) :
    (seenBy side position).whiteAndBlack side = (position.white, position.black) := by
  cases side with
  | white => rfl
  | black =>
    simp only [seenBy, whiteAndBlack, rearranged, Stones.mirrorRanks_eq,
      Stones.rearranged_rearranged Square.mirrored_mirrored]

end StonePair

end TicTacToe

namespace TrainingSample

variable {R : Type}

/-- The stones of white and black that a sample shows of so many moves ago. Left and right are exchanged
back if the lowest bit of the symmetry is set, and the board is turned back for black to move. -/
def stonesAgo? [Scalar R] (sample : TrainingSample R) (ago : Nat) : Option (Stones × Stones) := do
  let ours ← sample.planes[2 * ago]? >>= Stones.ofMask?
  let theirs ← sample.planes[2 * ago + 1]? >>= Stones.ofMask?
  let pair : StonePair := ⟨ours, theirs⟩
  let pair := if sample.invariance &&& 1 != 0 then pair.rearranged Square.flipped else pair
  return pair.whiteAndBlack sample.sideToMove

/-- The lowest bit of the symmetry tells whether left and right were exchanged, whatever the format and
the side to move. -/
theorem invariance_low_bit (format : InputFormat) (side : Color) (exchanged : Bool) :
    ((sideBytes format side (if exchanged then 1 else 0)).2 &&& 1 != 0) = exchanged := by
  cases format <;> cases side <;> cases exchanged <;> decide

section OfTree

variable [Scalar R] {format : InputFormat} {fill : HistoryFill} {eval : BestEval R}
  {tree : GameTree Position Square}

theorem invariance_ofTree :
    ((ofTree tree format fill eval).invariance &&& 1 != 0) =
      exchanges format (shownPairs tree.record.history.last tree.record.history.earlier historyPlanes
        fill) :=
  invariance_low_bit format tree.sideToMove _

/-- What a sample shows of a position are its stones. -/
theorem stonesAgo?_ofTree {ago : Nat} {position : Position} (hago : ago < historyPlanes)
    (h : tree.record.history.positions[ago]? = some position) :
    (ofTree tree format fill eval).stonesAgo? ago = some (position.white, position.black) := by
  have hpair : (presented format (shownPairs tree.record.history.last tree.record.history.earlier
      historyPlanes fill))[ago]? = _ := getElem?_presented (getElem?_shownPairs hago h)
  obtain ⟨hours, htheirs⟩ := getElem?_planes_encode hpair
  have hplanes : (ofTree tree format fill eval).planes =
      (encode (tree.record.history.last :: tree.record.history.earlier) format historyPlanes
        fill).planes.map (·.mask) := rfl
  have hside : (ofTree tree format fill eval).sideToMove = tree.record.history.last.sideToMove :=
    sideToMove_ofTree leavesSideBit tree format fill eval
  unfold stonesAgo?
  simp only [hplanes, List.getElem?_map, hours, htheirs, Option.map_some, Option.bind_eq_bind,
    Option.bind_some, Stones.ofMask?_plane, invariance_ofTree, hside, Option.pure_def]
  split
  · rw [StonePair.flipFiles_eq, StonePair.rearranged_rearranged Square.flipped_flipped,
      StonePair.whiteAndBlack_seenBy]
  · rw [StonePair.whiteAndBlack_seenBy]

/-- What an entry of the policy says of an edge: it names the absolute move and gives the quotient of its
visits and all visits. -/
structure Describes (side : Color) (total : Nat) (edge : Edge Square (Node Square))
    (entry : PolicyEntry R) : Prop where
  move : ∃ square, Square.ofName entry.move = .ok square ∧
    BoardMove.relativeTo square side = edge.move
  probability : entry.probability =
    if total = 0 then Scalar.zero else Scalar.ofNat edge.visits / Scalar.ofNat total

theorem describes_policy : List.Forall₂ (Describes tree.sideToMove tree.head.totalVisits)
    tree.head.edges (ofTree tree format fill eval).policy := by
  refine List.forall₂_map_right_iff.mpr (List.forall₂_same.mpr fun edge _ => ?_)
  exact {
    move := ⟨BoardMove.relativeTo edge.move tree.sideToMove, Square.ofName_name _,
      BoardMove.relativeTo_relativeTo _ _⟩
    probability := rfl }

theorem probabilities_ofTree : (ofTree tree format fill eval).policy.map (·.probability) =
    (tree.head.edges.map (·.visits)).map fun count =>
      share count (tree.head.edges.map (·.visits)).sum := by
  rw [ofTree, List.map_map, List.map_map]
  rfl

end OfTree

theorem share_rat (visits total : Nat) : (share visits total : Rat) = visits / total := by
  unfold share
  split
  · rename_i hnone
    rw [hnone, Nat.cast_zero, div_zero]
    rfl
  · rfl

theorem sum_share (visits : List Nat) (total : Nat) :
    (visits.map fun count => (share count total : Rat)).sum = visits.sum / total := by
  induction visits with
  | nil => rw [List.map_nil, List.sum_nil, List.sum_nil, Nat.cast_zero, zero_div]
  | cons count rest ih =>
    rw [List.map_cons, List.sum_cons, ih, share_rat, List.sum_cons, Nat.cast_add, add_div]

/-- In exact arithmetic shares are proportional to the visits. -/
theorem share_mul_sum {visits : List Nat} {count : Nat} (h : count ∈ visits) :
    (share count visits.sum : Rat) * visits.sum = count := by
  by_cases hnone : visits.sum = 0
  · rw [List.sum_eq_zero_iff_forall_eq_nat.mp hnone count h, hnone, Nat.cast_zero, mul_zero]
  · rw [share_rat, div_mul_cancel₀ _ (Nat.cast_ne_zero.mpr hnone)]

/-- **A sample tells of which game and search it was taken.** It has the side to move, the stones of the
last eight positions, and of each edge, in order, the absolute move and its share of the visits. In exact
arithmetic the shares are proportional to the visits and come to one altogether if there were visits; if
there were none, all are zero. -/
theorem ofTree_decodes [Scalar R] (tree : GameTree Position Square) (format : InputFormat)
    (fill : HistoryFill) (eval : BestEval R) (exactEval : BestEval Rat) :
    let sample := ofTree tree format fill eval
    let exactSample := ofTree tree format fill exactEval
    let total := (tree.head.edges.map (·.visits)).sum
    sample.sideToMove = tree.sideToMove ∧
    (∀ ago position, ago < 8 → tree.record.history.positions[ago]? = some position →
      sample.stonesAgo? ago = some (position.white, position.black)) ∧
    List.Forall₂ (Describes tree.sideToMove total) tree.head.edges sample.policy ∧
    List.Forall₂ (fun edge (entry : PolicyEntry Rat) => entry.probability * total = edge.visits)
      tree.head.edges exactSample.policy ∧
    ((∃ edge ∈ tree.head.edges, 0 < edge.visits) →
      (exactSample.policy.map (·.probability)).sum = 1) ∧
    ((∀ edge ∈ tree.head.edges, edge.visits = 0) →
      ∀ entry ∈ sample.policy, entry.probability = Scalar.zero) := by
  intro sample exactSample total
  refine ⟨sideToMove_ofTree leavesSideBit tree format fill eval, fun ago position => stonesAgo?_ofTree,
    describes_policy, ?_, ?_, ?_⟩
  · refine List.forall₂_map_right_iff.mpr (List.forall₂_same.mpr fun edge hedge => ?_)
    exact share_mul_sum (List.mem_map_of_mem hedge)
  · rintro ⟨edge, hedge, hvisited⟩
    have htotal : 0 < total :=
      List.sum_pos_iff_exists_pos_nat.mpr ⟨edge.visits, List.mem_map_of_mem hedge, hvisited⟩
    rw [probabilities_ofTree, sum_share, div_self (Nat.cast_ne_zero.mpr htotal.ne')]
  · intro hunvisited entry hentry
    have htotal : total = 0 :=
      List.sum_eq_zero_iff_forall_eq_nat.mpr (List.forall_mem_map.mpr hunvisited)
    obtain ⟨edge, -, rfl⟩ := List.mem_map.mp hentry
    exact if_pos htotal

/-- Black is to move after a stone in the right corner, which the sample shows in the left one. -/
theorem ofTree_decodes_after_first_stone :
    let tree : GameTree Position Square :=
      ⟨⟨⟨Stones.ofSquares [⟨2, 0⟩], 0, 1⟩, [(⟨0, 0, 0⟩, ⟨2, 0⟩)]⟩,
        .ofEdges [⟨⟨1, 1⟩, 3, none⟩, ⟨⟨0, 2⟩, 1, none⟩]⟩
    let sample := ofTree tree .canonical .no (⟨0, 0, 0⟩ : BestEval Rat)
    sample.invariance = 0x81 ∧ sample.sideToMove = .black ∧
      sample.stonesAgo? 0 = some (Stones.ofSquares [⟨2, 0⟩], 0) ∧
      sample.stonesAgo? 1 = some (0, 0) ∧ (sample.policy.map (·.probability)).sum = 1 := by
  intro tree sample
  obtain ⟨hside, hstones, -, -, hsum, -⟩ := ofTree_decodes tree .canonical .no
    (⟨0, 0, 0⟩ : BestEval Rat) ⟨0, 0, 0⟩
  exact ⟨by decide, hside, hstones 0 _ (by decide) rfl, hstones 1 _ (by decide) rfl,
    hsum ⟨_, List.mem_cons_self, by decide⟩⟩

end TrainingSample

end SelfPlay
