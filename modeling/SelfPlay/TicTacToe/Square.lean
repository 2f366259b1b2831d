import SelfPlay.Board

/-!
# Squares of the three-by-three board

A square is written as its file and rank, from `a1` in white's left corner to `c3`. Squares are
numbered along the ranks, white's first.
-/

namespace SelfPlay.TicTacToe

structure Square where
  /-- The column, from white's left. -/
  file : Fin 3
  /-- The row, from white's side. -/
  rank : Fin 3
deriving DecidableEq, Repr, Inhabited

namespace Square

def index (square : Square) : Fin 9 :=
  ⟨3 * square.rank.val + square.file.val, by omega⟩

def ofIndex (index : Fin 9) : Square :=
  ⟨⟨index.val % 3, by omega⟩, ⟨index.val / 3, by omega⟩⟩

/-- The square with the given number, if there is one. -/
def ofIndex? (index : Nat) : Option Square :=
  if h : index < 9 then some (ofIndex ⟨index, h⟩) else none

/-- The square with the given file and rank, if there is one. -/
def ofCoordinates? (file rank : Nat) : Option Square :=
  if h : file < 3 ∧ rank < 3 then some ⟨⟨file, h.1⟩, ⟨rank, h.2⟩⟩ else none

/-- All squares in the order of their numbers. -/
def all : List Square := (List.finRange 9).map ofIndex

def name (square : Square) : String :=
  String.ofList [Char.ofNat ('a'.toNat + square.file.val), Char.ofNat ('1'.toNat + square.rank.val)]

/-- The square with the given name, if it is one. -/
def ofName? (name : String) : Option Square :=
  match name.toList with
  | [file, rank] =>
    if 'a' ≤ file ∧ '1' ≤ rank then
      ofCoordinates? (file.toNat - 'a'.toNat) (rank.toNat - '1'.toNat)
    else none
  | _ => none

/-- The square with the given name, or the complaint that it is no move. -/
def ofName (name : String) : Except Error Square :=
  match ofName? name with
  | some square => .ok square
  | none => .error (.invalidMove name)

/-- The square on the board turned upside down: ranks change sides, files stay. -/
def mirrored (square : Square) : Square := ⟨square.file, square.rank.rev⟩

@[simp] theorem ofIndex_index (square : Square) : ofIndex square.index = square := by
  obtain ⟨⟨file, hf⟩, ⟨rank, hr⟩⟩ := square
  simp only [ofIndex, index, Square.mk.injEq, Fin.mk.injEq]
  omega

@[simp] theorem index_ofIndex (i : Fin 9) : (ofIndex i).index = i := by
  apply Fin.ext
  simp only [ofIndex, index]
  omega

theorem mem_all (square : Square) : square ∈ all := by
  rw [← ofIndex_index square]
  exact List.mem_map_of_mem (List.mem_finRange _)

@[simp] theorem mirrored_mirrored (square : Square) : square.mirrored.mirrored = square := by
  simp [mirrored]

end Square

instance : BoardMove Square := ⟨Square.mirrored, Square.name⟩

instance : LawfulMove Square := ⟨Square.mirrored_mirrored⟩

end SelfPlay.TicTacToe
