import Mathlib.Data.Fintype.Basic
import Mathlib.Tactic.FinCases
import SelfPlay.Proofs.TicTacToe.LegalPlay
import SelfPlay.TicTacToe.Encoding

/-!
# Boards turned over and read from right to left

Exchanging left and right, or turning the board upside down, sends each square to another one, and
what stands on the board is rearranged accordingly (`Stones.rearranged`). The words of bits in which
stones are kept are rearranged a rank or a file at a time, which comes to the same
(`flipFiles_eq`, `mirrorRanks_eq`).
-/

namespace SelfPlay.TicTacToe

namespace Square

/-- The square on the board with left and right exchanged: files change sides, ranks stay. -/
def flipped (square : Square) : Square := ⟨square.file.rev, square.rank⟩

@[simp] theorem flipped_flipped (square : Square) : square.flipped.flipped = square := by
  simp [flipped]

theorem flipped_mirrored (square : Square) : square.mirrored.flipped = square.flipped.mirrored := rfl

end Square

namespace Stones

/-- A stone on each square of a list. -/
def ofSquares (squares : List Square) : Stones := squares.foldr (fun square rest => rest.insert square) 0

theorem has_ofSquares (squares : List Square) (square : Square) :
    (ofSquares squares).has square = decide (square ∈ squares) := by
  induction squares with
  | nil => exact has_zero square
  | cons first rest ih =>
    rw [ofSquares, List.foldr_cons, has_insert, ← ofSquares, ih]
    simp [Bool.or_comm]

/-- The stones on a board that shows on each square what is on the square that `place` sends it to. -/
def rearranged (place : Square → Square) (stones : Stones) : Stones :=
  ofSquares (Square.all.filter fun square => stones.has (place square))

@[simp] theorem has_rearranged (place : Square → Square) (stones : Stones) (square : Square) :
    (stones.rearranged place).has square = stones.has (place square) := by
  rw [rearranged, has_ofSquares]
  simp [Square.mem_all]

/-- Arrangements of the squares that are undone by each other undo each other on stones. -/
theorem rearranged_rearranged {place back : Square → Square} (h : ∀ square, place (back square) = square)
    (stones : Stones) : (stones.rearranged place).rearranged back = stones :=
  ext_has fun square => by rw [has_rearranged, has_rearranged, h]

theorem rearranged_inj {place : Square → Square} (h : ∀ square, place (place square) = square)
    {stones other : Stones} : stones.rearranged place = other.rearranged place ↔ stones = other := by
  refine ⟨fun hsame => ?_, fun hsame => hsame ▸ rfl⟩
  rw [← rearranged_rearranged h stones, hsame, rearranged_rearranged h]

theorem rearranged_zero (place : Square → Square) : rearranged place 0 = 0 :=
  ext_has fun square => by rw [has_rearranged, has_zero, has_zero]

/-- Left and right are exchanged before the board is turned upside down or after, all the same. -/
theorem rearranged_comm (stones : Stones) :
    (stones.rearranged Square.flipped).rearranged Square.mirrored =
      (stones.rearranged Square.mirrored).rearranged Square.flipped :=
  ext_has fun square => by simp only [has_rearranged, Square.flipped_mirrored]

theorem flipFiles_eq (stones : Stones) : stones.flipFiles = stones.rearranged Square.flipped := by
  refine ext_has fun square => ?_
  rw [has_rearranged]
  obtain ⟨file, rank⟩ := square
  fin_cases file <;> fin_cases rank <;>
    simp [flipFiles, has, Square.flipped, Square.index]

theorem mirrorRanks_eq (stones : Stones) : stones.mirrorRanks = stones.rearranged Square.mirrored := by
  refine ext_has fun square => ?_
  rw [has_rearranged]
  obtain ⟨file, rank⟩ := square
  fin_cases file <;> fin_cases rank <;>
    simp [mirrorRanks, has, Square.mirrored, Square.index]

end Stones

namespace Position

/-- The position on the board with left and right exchanged. -/
def flipped (position : Position) : Position :=
  { position with
    white := position.white.rearranged Square.flipped
    black := position.black.rearranged Square.flipped }

/-- One position is the other with the sides exchanged: each has the other's stones, on the board turned
upside down, and it is the other side's turn. -/
structure IsTurned (position turned : Position) : Prop where
  white : turned.white = position.black.rearranged Square.mirrored
  black : turned.black = position.white.rearranged Square.mirrored
  parity : turned.ply % 2 ≠ position.ply % 2

theorem IsTurned.sideToMove {position turned : Position} (h : position.IsTurned turned) :
    turned.sideToMove = position.sideToMove.opponent := by
  have hparity := h.parity
  unfold Position.sideToMove
  rw [← Color.ofPly_succ]
  unfold Color.ofPly
  have hodd : turned.ply % 2 = 1 ↔ (position.ply + 1) % 2 = 1 := by omega
  simp only [hodd]

end Position

namespace StonePair

/-- Both sets of a pair rearranged alike. -/
def rearranged (place : Square → Square) (pair : StonePair) : StonePair :=
  ⟨pair.ours.rearranged place, pair.theirs.rearranged place⟩

theorem rearranged_rearranged {place back : Square → Square} (h : ∀ square, place (back square) = square)
    (pair : StonePair) : (pair.rearranged place).rearranged back = pair := by
  simp only [rearranged, Stones.rearranged_rearranged h]

theorem flipFiles_eq (pair : StonePair) : pair.flipFiles = pair.rearranged Square.flipped := by
  simp only [flipFiles, rearranged, Stones.flipFiles_eq]

theorem flipFiles_flipFiles (pair : StonePair) : pair.flipFiles.flipFiles = pair := by
  rw [flipFiles_eq, flipFiles_eq, rearranged_rearranged Square.flipped_flipped]

/-- A flipped position is seen flipped. -/
theorem seenBy_flipped (side : Color) (position : Position) :
    seenBy side position.flipped = (seenBy side position).flipFiles := by
  cases side <;>
    simp only [seenBy, flipFiles, Position.flipped, Stones.flipFiles_eq, Stones.mirrorRanks_eq,
      Stones.rearranged_comm]

/-- Each side sees of a position what the other side sees of the position turned. -/
theorem seenBy_opponent {position turned : Position} (h : position.IsTurned turned) (side : Color) :
    seenBy side.opponent turned = seenBy side position := by
  cases side <;>
    simp only [seenBy, Color.opponent, h.white, h.black, Stones.mirrorRanks_eq,
      Stones.rearranged_rearranged Square.mirrored_mirrored]

/-- What a side sees of a position has left and right alike just if the position has. -/
theorem flipFiles_seenBy_eq_iff {side : Color} {position : Position} :
    (seenBy side position).flipFiles = seenBy side position ↔ position.flipped = position := by
  rw [← seenBy_flipped]
  refine ⟨fun hsame => ?_, fun hsame => by rw [hsame]⟩
  obtain ⟨hwhite, hblack⟩ : position.flipped.white = position.white ∧
      position.flipped.black = position.black := by
    cases side with
    | white => simpa only [seenBy, StonePair.mk.injEq] using hsame
    | black =>
      simpa only [seenBy, StonePair.mk.injEq, Stones.mirrorRanks_eq,
        Stones.rearranged_inj Square.mirrored_mirrored, and_comm] using hsame
  calc position.flipped = ⟨position.flipped.white, position.flipped.black, position.ply⟩ := rfl
    _ = position := by rw [hwhite, hblack]

/-- Where nothing stands, nothing is seen. -/
theorem seenBy_of_occupied_eq_zero {position : Position} (h : position.occupied = 0) (side : Color) :
    seenBy side position = .none := by
  obtain ⟨hwhite, hblack⟩ : position.white = 0 ∧ position.black = 0 := BitVec.or_eq_zero_iff.mp h
  cases side <;>
    simp only [seenBy, none, hwhite, hblack, Stones.mirrorRanks_eq, Stones.rearranged_zero]

end StonePair

end SelfPlay.TicTacToe
