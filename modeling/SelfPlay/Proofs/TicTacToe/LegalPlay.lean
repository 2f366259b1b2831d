import Mathlib.Data.List.Nodup
import SelfPlay.TicTacToe.Game

/-!
# What legal play does to the stones

Sets of stones are looked at square by square (`Stones.ext_has`). A legal move puts a stone on a
vacant square of an undecided position, so it takes exactly one vacant square away: that is why
every game ends. Legal play also keeps the stones of the two sides apart, and as many of them as
there were moves (`Position.IsRegular`).
-/

namespace SelfPlay.TicTacToe

theorem Square.index_injective : Function.Injective Square.index :=
  Function.LeftInverse.injective Square.ofIndex_index

theorem Square.nodup_all : Square.all.Nodup :=
  (List.nodup_finRange 9).map (Function.LeftInverse.injective Square.index_ofIndex)

namespace Stones

theorem ext_has {stones other : Stones} (h : ∀ square, stones.has square = other.has square) :
    stones = other := by
  apply BitVec.eq_of_getLsbD_eq
  intro i hi
  have hsquare := h (.ofIndex ⟨i, hi⟩)
  unfold has at hsquare
  rwa [Square.index_ofIndex] at hsquare

theorem has_zero (square : Square) : has 0 square = false := BitVec.getLsbD_zero

@[simp] theorem has_or (stones other : Stones) (square : Square) :
    has (stones ||| other) square = (has stones square || has other square) :=
  BitVec.getLsbD_or

@[simp] theorem has_and (stones other : Stones) (square : Square) :
    has (stones &&& other) square = (has stones square && has other square) :=
  BitVec.getLsbD_and

@[simp] theorem has_full (square : Square) : has full square = true := by
  obtain ⟨i, rfl⟩ : ∃ i, square = .ofIndex i := ⟨_, (Square.ofIndex_index square).symm⟩
  revert i
  decide

@[simp] theorem has_single (square other : Square) :
    has (single square) other = decide (other = square) := by
  have hindex : other.index.val = square.index.val ↔ other = square := by
    rw [← Fin.ext_iff, Square.index_injective.eq_iff]
  simp [has, single, hindex]

@[simp] theorem has_insert (stones : Stones) (square other : Square) :
    has (stones.insert square) other = (has stones other || decide (other = square)) := by
  simp [insert, has_single]

theorem eq_zero_iff {stones : Stones} : stones = 0 ↔ ∀ square, stones.has square = false :=
  ⟨fun h square => by rw [h, has_zero], fun h => ext_has fun square => by rw [h, has_zero]⟩

theorem eq_full_iff {stones : Stones} : stones = full ↔ ∀ square, stones.has square = true :=
  ⟨fun h square => by rw [h, has_full], fun h => ext_has fun square => by rw [h, has_full]⟩

/-- A stone more on a square that had none. -/
theorem count_insert {stones : Stones} {square : Square} (h : stones.has square = false) :
    (stones.insert square).count = stones.count + 1 := by
  obtain ⟨before, behind, hall⟩ := List.append_of_mem (Square.mem_all square)
  have hnodup := Square.nodup_all
  rw [hall, List.nodup_append, List.nodup_cons] at hnodup
  obtain ⟨-, ⟨hbehind, -⟩, hbefore⟩ := hnodup
  have hothers : ∀ squares : List Square, square ∉ squares →
      squares.countP (stones.insert square).has = squares.countP stones.has := by
    intro squares hnot
    refine List.countP_congr fun other hother => ?_
    have hne : other ≠ square := fun hsame => hnot (hsame ▸ hother)
    simp [hne]
  unfold count
  rw [hall, List.countP_append, List.countP_append, List.countP_cons, List.countP_cons,
    hothers before (fun hmem => hbefore _ hmem _ List.mem_cons_self rfl), hothers behind hbehind]
  simp [h]
  omega

/-- Stones on different squares add up. -/
theorem count_or {stones other : Stones} (h : stones &&& other = 0) :
    count (stones ||| other) = stones.count + other.count := by
  have hapart := eq_zero_iff.mp h
  unfold count
  generalize Square.all = squares
  induction squares with
  | nil => rfl
  | cons square rest ih =>
    have hone := hapart square
    rw [has_and] at hone
    rw [List.countP_cons, List.countP_cons, List.countP_cons, ih, has_or]
    cases hstones : stones.has square <;> cases hother : other.has square <;>
      simp_all <;> omega

end Stones

namespace Position

variable {position : Position} {square move : Square}

theorem mem_vacant : square ∈ position.vacant ↔ position.occupied.has square = false := by
  simp [vacant, Square.mem_all]

/-- Every square is vacant or taken. -/
theorem length_vacant_add_count (position : Position) :
    position.vacant.length + position.occupied.count = 9 := by
  have hvacant : position.vacant.length =
      Square.all.countP fun square => decide ¬position.occupied.has square = true := by
    rw [vacant, ← List.countP_eq_length_filter]
    refine List.countP_congr fun square _ => ?_
    simp
  have hall : 9 = _ :=
    List.length_eq_countP_add_countP (p := position.occupied.has) (l := Square.all)
  rw [hvacant, Stones.count, hall, Nat.add_comm]

/-- A legal move puts a stone on a vacant square of an undecided position. -/
theorem mem_legalMoves :
    move ∈ position.legalMoves ↔ position.result = .undecided ∧
      position.occupied.has (BoardMove.relativeTo move position.sideToMove) = false := by
  unfold legalMoves
  split
  · rename_i hover
    have hdecided : position.result ≠ .undecided := by
      intro hopen
      rw [hopen] at hover
      cases hover
    simp [hdecided]
  · rename_i hopen
    rw [List.mem_map]
    simp only [GameResult.eq_undecided_of_not_isTerminal hopen, true_and]
    constructor
    · rintro ⟨square, hvacant, rfl⟩
      rw [BoardMove.relativeTo_relativeTo]
      exact mem_vacant.mp hvacant
    · intro hvacant
      exact ⟨_, mem_vacant.mpr hvacant, BoardMove.relativeTo_relativeTo _ _⟩

/-- Where nobody can move, the rules have decided the game. -/
theorem isTerminal_of_legalMoves_eq_nil (h : position.legalMoves = []) :
    position.result.isTerminal = true := by
  by_contra hopen
  unfold legalMoves at h
  rw [if_neg hopen, List.map_eq_nil_iff] at h
  apply hopen
  have hfull : position.occupied = Stones.full := by
    rw [Stones.eq_full_iff]
    intro square
    have hnone : square ∉ position.vacant := by rw [h]; exact List.not_mem_nil
    rwa [mem_vacant, Bool.not_eq_false] at hnone
  unfold result
  rw [if_pos hfull]
  split
  · rfl
  · split <;> rfl

theorem legalMoves_ne_nil (h : position.result = .undecided) : position.legalMoves ≠ [] := by
  intro hnil
  have hover := isTerminal_of_legalMoves_eq_nil hnil
  rw [h] at hover
  cases hover

theorem occupied_put (position : Position) (square : Square) :
    (position.put square).occupied = position.occupied.insert square := by
  apply Stones.ext_has
  intro other
  unfold put
  split
  · simp [occupied, Bool.or_right_comm]
  · simp [occupied, Bool.or_assoc]

/-- **A legal move takes one vacant square.** -/
theorem length_vacant_play (h : move ∈ position.legalMoves) :
    (position.play move).vacant.length + 1 = position.vacant.length := by
  obtain ⟨-, hvacant⟩ := mem_legalMoves.mp h
  have hcount : (position.play move).occupied.count = position.occupied.count + 1 := by
    rw [play, occupied_put, Stones.count_insert hvacant]
  have hbefore := length_vacant_add_count position
  have hafter := length_vacant_add_count (position.play move)
  omega

/-- What holds of a position as soon as it holds after every legal move holds of every position:
each legal move takes a vacant square. -/
theorem induction_of_play {motive : Position → Prop}
    (play : ∀ position, (∀ move ∈ position.legalMoves, motive (position.play move)) →
      motive position) (position : Position) : motive position := by
  induction hvacant : position.vacant.length using Nat.strongRecOn
    generalizing position with
  | ind vacant ih =>
    refine play position fun move hmove => ih _ ?_ _ rfl
    have hless := length_vacant_play hmove
    omega

/-- What the stones of a game have in common: no square is taken twice, there are as many stones as
moves were made, and the sides have taken turns. -/
structure IsRegular (position : Position) : Prop where
  disjoint : position.white &&& position.black = 0
  ply_eq : position.ply = position.white.count + position.black.count
  turns : position.white.count = position.black.count ∨
    position.white.count = position.black.count + 1

namespace IsRegular

/-- The number of moves is that of the taken squares. -/
theorem ply_eq_count (h : position.IsRegular) : position.ply = position.occupied.count := by
  rw [h.ply_eq, occupied, Stones.count_or h.disjoint]

theorem sideToMove_eq (h : position.IsRegular) :
    position.sideToMove =
      if position.white.count = position.black.count then Color.white else .black := by
  unfold sideToMove
  rw [h.ply_eq]
  rcases h.turns with hsame | hmore
  · rw [if_pos hsame, hsame, ← Nat.two_mul]
    simp [Color.ofPly]
  · rw [if_neg (by omega), hmore]
    have hodd : (position.black.count + 1 + position.black.count) % 2 = 1 := by omega
    simp [Color.ofPly, hodd]

/-- A stone on a vacant square keeps a position regular. -/
theorem put (h : position.IsRegular) (hvacant : position.occupied.has square = false) :
    (position.put square).IsRegular := by
  have hside := h.sideToMove_eq
  have hapart := Stones.eq_zero_iff.mp h.disjoint
  have hply := h.ply_eq
  have hturns := h.turns
  obtain ⟨hwhite, hblack⟩ : position.white.has square = false ∧
      position.black.has square = false := by
    simpa [occupied] using hvacant
  unfold Position.put
  split
  · rename_i hturn
    have hsame : position.white.count = position.black.count := by
      by_contra hmore
      rw [hturn, if_neg hmore] at hside
      cases hside
    constructor
    · rw [Stones.eq_zero_iff]
      intro other
      have hother := hapart other
      by_cases hhere : other = square
      · subst hhere
        simp [hblack]
      · simpa [hhere] using hother
    · simp only [Stones.count_insert hwhite]
      omega
    · simp only [Stones.count_insert hwhite]
      omega
  · rename_i hturn
    have hmore : position.white.count ≠ position.black.count := by
      intro hsame
      rw [hturn, if_pos hsame] at hside
      cases hside
    constructor
    · rw [Stones.eq_zero_iff]
      intro other
      have hother := hapart other
      by_cases hhere : other = square
      · subst hhere
        simp [hwhite]
      · simpa [hhere] using hother
    · simp only [Stones.count_insert hblack]
      omega
    · simp only [Stones.count_insert hblack]
      omega

/-- Legal play keeps a position regular. -/
theorem play (h : position.IsRegular) (hmove : move ∈ position.legalMoves) :
    (position.play move).IsRegular :=
  h.put (mem_legalMoves.mp hmove).2

end IsRegular

end Position

end SelfPlay.TicTacToe
