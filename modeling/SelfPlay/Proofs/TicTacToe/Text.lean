import Mathlib.Data.List.Zip
import SelfPlay.Proofs.Text.Pieces
import SelfPlay.Proofs.TicTacToe.LegalPlay

/-!
# Squares and positions read and written

Reading a position puts each stone on a square of its own and counts them, so what it gives is
regular. A regular position is read back from its text, and so is a square from its name.
-/

namespace SelfPlay.TicTacToe

theorem Square.ofName_name (square : Square) : ofName square.name = .ok square := by
  have hall : ∀ square ∈ all, ofName? square.name = some square := by decide
  unfold ofName
  rw [hall square (mem_all square)]

theorem Position.nodup_writtenSquares : writtenSquares.Nodup := by decide

theorem Position.mem_writtenSquares (square : Square) : square ∈ writtenSquares := by
  obtain ⟨file, rank⟩ := square
  revert file rank
  decide

namespace Position

open SelfPlay.Text

variable {position final : Position}

/-- Some character of the list puts a stone of the side on the square. -/
def Puts (pairs : List (Square × Char)) (side : Color) (square : Square) : Prop :=
  ∃ c, (square, c) ∈ pairs ∧ stoneOfChar? c = some (some side)

theorem puts_cons {pair : Square × Char} {rest : List (Square × Char)} {side : Color}
    {square : Square} :
    Puts (pair :: rest) side square ↔
      square = pair.1 ∧ stoneOfChar? pair.2 = some (some side) ∨ Puts rest side square := by
  obtain ⟨other, c⟩ := pair
  unfold Puts
  constructor
  · rintro ⟨d, hmem, hstone⟩
    rcases List.mem_cons.mp hmem with hsame | hrest
    · cases hsame
      exact .inl ⟨rfl, hstone⟩
    · exact .inr ⟨d, hrest, hstone⟩
  · rintro (⟨rfl, hstone⟩ | ⟨d, hrest, hstone⟩)
    · exact ⟨c, List.mem_cons_self, hstone⟩
    · exact ⟨d, List.mem_cons_of_mem _ hrest, hstone⟩

/-- Reading adds the stones that the characters put, and nothing else. -/
theorem has_of_putAll? {pairs : List (Square × Char)} (h : position.putAll? pairs = some final) :
    final.ply = position.ply ∧
      (∀ square, final.white.has square = true ↔
        position.white.has square = true ∨ Puts pairs .white square) ∧
      (∀ square, final.black.has square = true ↔
        position.black.has square = true ∨ Puts pairs .black square) := by
  induction pairs generalizing position with
  | nil =>
    cases h
    simp [Puts]
  | cons pair rest ih =>
    obtain ⟨square, c⟩ := pair
    rw [putAll?] at h
    cases hstone : stoneOfChar? c with
    | none => simp [hstone] at h
    | some stone =>
      rw [hstone] at h
      cases stone with
      | none =>
        obtain ⟨hply, hwhite, hblack⟩ := ih h
        refine ⟨hply, fun other => ?_, fun other => ?_⟩
        · simp [hwhite, puts_cons, hstone]
        · simp [hblack, puts_cons, hstone]
      | some side =>
        cases side with
        | white =>
          obtain ⟨hply, hwhite, hblack⟩ := ih h
          refine ⟨hply, fun other => ?_, fun other => ?_⟩
          · simp [hwhite, puts_cons, hstone, or_assoc]
          · simp [hblack, puts_cons, hstone]
        | black =>
          obtain ⟨hply, hwhite, hblack⟩ := ih h
          refine ⟨hply, fun other => ?_, fun other => ?_⟩
          · simp [hwhite, puts_cons, hstone]
          · simp [hblack, puts_cons, hstone, or_assoc]

theorem has_of_putAll?_empty {pairs : List (Square × Char)}
    (h : empty.putAll? pairs = some final) :
    (∀ square, final.white.has square = true ↔ Puts pairs .white square) ∧
      ∀ square, final.black.has square = true ↔ Puts pairs .black square := by
  obtain ⟨-, hwhite, hblack⟩ := has_of_putAll? h
  have hnone (square : Square) : ¬Stones.has 0 square = true := by
    rw [Stones.has_zero]
    exact Bool.false_ne_true
  exact ⟨fun square => (hwhite square).trans (or_iff_right (hnone square)),
    fun square => (hblack square).trans (or_iff_right (hnone square))⟩

/-- Characters in use can be read. -/
theorem exists_putAll? {pairs : List (Square × Char)}
    (h : ∀ pair ∈ pairs, stoneOfChar? pair.2 ≠ none) (position : Position) :
    ∃ final, position.putAll? pairs = some final := by
  induction pairs generalizing position with
  | nil => exact ⟨position, rfl⟩
  | cons pair rest ih =>
    obtain ⟨square, c⟩ := pair
    have hrest := ih fun pair hpair => h pair (List.mem_cons_of_mem _ hpair)
    rw [putAll?]
    cases hstone : stoneOfChar? c with
    | none => exact absurd hstone (h (square, c) List.mem_cons_self)
    | some stone =>
      cases stone with
      | none => exact hrest position
      | some side => cases side <;> exact hrest _

/-- Each square has one character. -/
theorem eq_of_mem_zip {chars : List Char} {square : Square} {c d : Char}
    (hc : (square, c) ∈ writtenSquares.zip chars) (hd : (square, d) ∈ writtenSquares.zip chars) :
    c = d := by
  obtain ⟨i, hi⟩ := List.mem_iff_getElem?.mp hc
  obtain ⟨j, hj⟩ := List.mem_iff_getElem?.mp hd
  rw [List.getElem?_zip_eq_some] at hi hj
  obtain rfl : i = j := by
    have hlt := (List.getElem?_eq_some_iff.mp hi.1).1
    exact (List.getElem?_inj hlt nodup_writtenSquares).mp (hi.1.trans hj.1.symm)
  exact Option.some.inj (hi.2.symm.trans hj.2)

/-- Stones on squares of their own do not get in each other's way. -/
theorem disjoint_of_putAll? {chars : List Char}
    (h : empty.putAll? (writtenSquares.zip chars) = some final) :
    final.white &&& final.black = 0 := by
  obtain ⟨hwhite, hblack⟩ := has_of_putAll?_empty h
  rw [Stones.eq_zero_iff]
  intro square
  rw [Stones.has_and, ← Bool.not_eq_true, Bool.and_eq_true, hwhite, hblack]
  rintro ⟨⟨c, hc, hwhiteChar⟩, d, hd, hblackChar⟩
  rw [eq_of_mem_zip hc hd, hblackChar] at hwhiteChar
  cases hwhiteChar

theorem counted?_eq_some_iff :
    position.counted? = some final ↔
      (position.white.count = position.black.count ∨
          position.white.count = position.black.count + 1) ∧
        final = { position with ply := position.white.count + position.black.count } := by
  unfold counted?
  simp only
  split
  · rename_i hturns
    simp [hturns, eq_comm]
  · rename_i hturns
    simp [hturns]

theorem ofFen_eq_ok_iff {text : String} :
    ofFen text = .ok position ↔ ofFen? text.toList = some position := by
  unfold ofFen
  split
  · rename_i hread
    rw [hread, Except.ok.injEq, Option.some_inj]
  · rename_i hrefused
    simp [hrefused]

/-- What reading a position takes: three ranks, characters in use, and stones that allow for turns. -/
theorem ofFen?_eq_some_iff {text : List Char} :
    ofFen? text = some position ↔ ∃ top middle bottom placed,
      pieces (· = '/') (trim text) = [top, middle, bottom] ∧
      (top.length = 3 ∧ middle.length = 3 ∧ bottom.length = 3) ∧
      empty.putAll? (writtenSquares.zip (top ++ middle ++ bottom)) = some placed ∧
      placed.counted? = some position := by
  unfold ofFen?
  constructor
  · intro h
    split at h
    · rename_i top middle bottom hpieces
      split at h
      · rename_i hlengths
        obtain ⟨placed, hplaced, hcounted⟩ := Option.bind_eq_some_iff.mp h
        exact ⟨top, middle, bottom, placed, hpieces, hlengths, hplaced, hcounted⟩
      · cases h
    · cases h
  · rintro ⟨top, middle, bottom, placed, hpieces, hlengths, hplaced, hcounted⟩
    rw [hpieces]
    simp only
    rw [if_pos hlengths, hplaced]
    exact hcounted

/-- **What is read is regular.** -/
theorem isRegular_of_ofFen {text : String} (h : ofFen text = .ok position) :
    position.IsRegular := by
  obtain ⟨top, middle, bottom, placed, -, -, hplaced, hcounted⟩ :=
    ofFen?_eq_some_iff.mp (ofFen_eq_ok_iff.mp h)
  obtain ⟨hturns, rfl⟩ := counted?_eq_some_iff.mp hcounted
  have hdisjoint := disjoint_of_putAll? hplaced
  exact ⟨hdisjoint, rfl, hturns⟩

theorem stoneOfChar?_stoneChar (stone : Option Color) :
    stoneOfChar? (stoneChar stone) = some stone := by
  cases stone with
  | none => rfl
  | some side => cases side <;> rfl

/-- No character for a stone separates ranks or is blank. -/
theorem stoneChar_plain (stone : Option Color) :
    stoneChar stone ≠ '/' ∧ isBlank (stoneChar stone) = false := by
  cases stone with
  | none => decide
  | some side => cases side <;> decide

/-- What stands on the squares of a position, in the order in which they are written. -/
def stoneChars (position : Position) : List Char :=
  writtenSquares.map fun square => stoneChar (position.stoneAt square)

theorem stoneChars_plain {c : Char} (h : c ∈ position.stoneChars) :
    c ≠ '/' ∧ isBlank c = false := by
  obtain ⟨square, -, rfl⟩ := List.mem_map.mp h
  exact stoneChar_plain _

theorem toList_toFen (position : Position) :
    position.toFen.toList = position.stoneChars.take 3 ++ '/' ::
      ((position.stoneChars.drop 3).take 3 ++ '/' :: position.stoneChars.drop 6) := by
  unfold toFen
  rw [String.toList_ofList, List.append_assoc]
  rfl

theorem trim_toFen (position : Position) : trim position.toFen.toList = position.toFen.toList := by
  refine trim_of_forall fun c hc => ?_
  rw [toList_toFen] at hc
  simp only [List.mem_append, List.mem_cons] at hc
  rcases hc with hc | rfl | hc | rfl | hc
  · exact (stoneChars_plain (List.mem_of_mem_take hc)).2
  · decide
  · exact (stoneChars_plain (List.mem_of_mem_drop (List.mem_of_mem_take hc))).2
  · decide
  · exact (stoneChars_plain (List.mem_of_mem_drop hc)).2

/-- The text of a position has its three ranks between the slashes. -/
theorem pieces_toFen (position : Position) :
    pieces (· = '/') position.toFen.toList =
      [position.stoneChars.take 3, (position.stoneChars.drop 3).take 3,
        position.stoneChars.drop 6] := by
  have hplain (part : List Char) (hpart : part ⊆ position.stoneChars) :
      ∀ c ∈ part, decide (c = '/') = false := by
    intro c hc
    simpa using (stoneChars_plain (hpart hc)).1
  have hmiddle : (position.stoneChars.drop 3).take 3 ⊆ position.stoneChars :=
    fun _ hc => List.mem_of_mem_drop (List.mem_of_mem_take hc)
  rw [toList_toFen, pieces_append_cons (hplain _ (List.take_subset 3 _)) rfl,
    pieces_append_cons (hplain _ hmiddle) rfl, pieces_of_forall (hplain _ (List.drop_subset 6 _))]

theorem zip_stoneChars (position : Position) :
    writtenSquares.zip position.stoneChars =
      writtenSquares.map fun square => (square, stoneChar (position.stoneAt square)) :=
  List.map_prod_left_eq_zip.symm

theorem puts_stoneChars_iff {side : Color} {square : Square} :
    Puts (writtenSquares.zip position.stoneChars) side square ↔
      position.stoneAt square = some side := by
  rw [zip_stoneChars]
  unfold Puts
  constructor
  · rintro ⟨c, hc, hstone⟩
    obtain ⟨other, -, hother⟩ := List.mem_map.mp hc
    cases hother
    rw [stoneOfChar?_stoneChar] at hstone
    exact Option.some.inj hstone
  · intro hstone
    refine ⟨_, List.mem_map.mpr ⟨square, mem_writtenSquares square, rfl⟩, ?_⟩
    rw [stoneOfChar?_stoneChar, hstone]

theorem stoneAt_eq_white_iff {square : Square} :
    position.stoneAt square = some .white ↔ position.white.has square = true := by
  unfold stoneAt
  split
  · rename_i hwhite
    simp [hwhite]
  · rename_i hwhite
    split <;> simp [hwhite]

theorem stoneAt_eq_black_iff (h : position.white &&& position.black = 0) {square : Square} :
    position.stoneAt square = some .black ↔ position.black.has square = true := by
  have hapart := Stones.eq_zero_iff.mp h square
  rw [Stones.has_and] at hapart
  unfold stoneAt
  split
  · rename_i hwhite
    rw [hwhite, Bool.true_and] at hapart
    simp [hapart]
  · simp

/-- The stones of a position are read back. -/
theorem putAll?_stoneChars (h : position.white &&& position.black = 0) :
    ∃ placed, empty.putAll? (writtenSquares.zip position.stoneChars) = some placed ∧
      placed.white = position.white ∧ placed.black = position.black := by
  have hknown : ∀ pair ∈ writtenSquares.zip position.stoneChars, stoneOfChar? pair.2 ≠ none := by
    intro pair hpair
    rw [zip_stoneChars] at hpair
    obtain ⟨square, -, rfl⟩ := List.mem_map.mp hpair
    rw [stoneOfChar?_stoneChar]
    exact Option.some_ne_none _
  obtain ⟨placed, hplaced⟩ := exists_putAll? hknown empty
  obtain ⟨hwhite, hblack⟩ := has_of_putAll?_empty hplaced
  refine ⟨placed, hplaced, Stones.ext_has fun square => ?_, Stones.ext_has fun square => ?_⟩
  · rw [Bool.eq_iff_iff, hwhite, puts_stoneChars_iff, stoneAt_eq_white_iff]
  · rw [Bool.eq_iff_iff, hblack, puts_stoneChars_iff, stoneAt_eq_black_iff h]

/-- **A regular position is read back from its text.** -/
theorem ofFen_toFen (h : position.IsRegular) : ofFen position.toFen = .ok position := by
  obtain ⟨placed, hplaced, hwhite, hblack⟩ := putAll?_stoneChars h.disjoint
  have hcounted : placed.counted? = some position := by
    refine counted?_eq_some_iff.mpr ⟨by rw [hwhite, hblack]; exact h.turns, ?_⟩
    rw [hwhite, hblack, ← h.ply_eq]
  have hpieces : pieces (· = '/') (trim position.toFen.toList) = _ :=
    (congrArg _ position.trim_toFen).trans position.pieces_toFen
  exact ofFen_eq_ok_iff.mpr
    (ofFen?_eq_some_iff.mpr ⟨_, _, _, placed, hpieces, ⟨rfl, rfl, rfl⟩, hplaced, hcounted⟩)

end Position

end SelfPlay.TicTacToe
