import SelfPlay.Proofs.TicTacToe.Text

/-!
# Which texts are positions

A diagram is what a position looks like when it is written down: three ranks of three squares, in
which the numbers of stones allow for turns. The texts that are read are the diagrams with blanks
around them, and what was read is written as the diagram in small letters. That a position of a game
is read back as it was needs more than its stones, since the number of moves is kept beside them.
-/

namespace SelfPlay.TicTacToe

open SelfPlay.Text

namespace Position

/-- The stones of white in a text, in either case. -/
def whiteStones (text : List Char) : Nat := text.countP fun c => c = 'x' ∨ c = 'X'

/-- The stones of black in a text, in either case. -/
def blackStones (text : List Char) : Nat := text.countP fun c => c = 'o' ∨ c = 'O'

/-- Three ranks of three squares each with a slash between any two, with as many stones of white as
of black or one more. -/
structure IsDiagram (text : List Char) : Prop where
  ranks : ∃ top middle bottom : List Char, text = top ++ '/' :: (middle ++ '/' :: bottom) ∧
    (top.length = 3 ∧ middle.length = 3 ∧ bottom.length = 3) ∧
    ∀ c ∈ top ++ middle ++ bottom, c ∈ ['x', 'X', 'o', 'O', '.']
  turns : whiteStones text = blackStones text ∨ whiteStones text = blackStones text + 1

/-- The text is the diagram with nothing but blanks around it. -/
def IsAround (diagram text : List Char) : Prop :=
  ∃ before after, text = before ++ diagram ++ after ∧ (∀ c ∈ before, isBlank c = true) ∧
    ∀ c ∈ after, isBlank c = true

variable {position final : Position} {chars : List Char}

/-! ## Characters and stones -/

theorem stoneOfChar?_eq_white_iff {c : Char} :
    stoneOfChar? c = some (some .white) ↔ c = 'x' ∨ c = 'X' := by
  unfold stoneOfChar?
  split
  · simp_all
  · split
    · simp_all
    · split <;> simp_all

theorem stoneOfChar?_eq_black_iff {c : Char} :
    stoneOfChar? c = some (some .black) ↔ c = 'o' ∨ c = 'O' := by
  unfold stoneOfChar?
  split
  · rename_i hwhite
    rcases hwhite with rfl | rfl <;> decide
  · split
    · simp_all
    · split <;> simp_all

theorem stoneOfChar?_ne_none_iff {c : Char} :
    stoneOfChar? c ≠ none ↔ c ∈ ['x', 'X', 'o', 'O', '.'] := by
  unfold stoneOfChar?
  split
  · rename_i hwhite
    rcases hwhite with rfl | rfl <;> decide
  · split
    · rename_i hblack
      rcases hblack with rfl | rfl <;> decide
    · split <;> simp_all

/-- What is read is written in small letters. -/
theorem stoneChar_of_stoneOfChar? {c : Char} {stone : Option Color}
    (h : stoneOfChar? c = some stone) : stoneChar stone = c.toLower := by
  have hused : c ∈ ['x', 'X', 'o', 'O', '.'] := by
    rw [← stoneOfChar?_ne_none_iff, h]
    exact Option.some_ne_none _
  simp only [List.mem_cons, List.not_mem_nil, or_false] at hused
  rcases hused with rfl | rfl | rfl | rfl | rfl <;> cases h <;> rfl

/-! ## What was put on the board -/

/-- Only characters in use are read. -/
theorem known_of_putAll? {pairs : List (Square × Char)} (h : position.putAll? pairs = some final) :
    ∀ pair ∈ pairs, stoneOfChar? pair.2 ≠ none := by
  induction pairs generalizing position with
  | nil => exact List.forall_mem_nil _
  | cons pair rest ih =>
    obtain ⟨square, c⟩ := pair
    rw [putAll?] at h
    cases hstone : stoneOfChar? c with
    | none => simp [hstone] at h
    | some stone =>
      have hfirst : stoneOfChar? c ≠ none := by rw [hstone]; exact Option.some_ne_none _
      rw [hstone] at h
      refine List.forall_mem_cons.mpr ⟨hfirst, ?_⟩
      cases stone with
      | none => exact ih h
      | some side => cases side <;> exact ih h

/-- Each square has the stone of its character. -/
theorem stoneOfChar?_of_putAll? (h : empty.putAll? (writtenSquares.zip chars) = some final)
    {square : Square} {c : Char} (hc : (square, c) ∈ writtenSquares.zip chars) :
    stoneOfChar? c = some (final.stoneAt square) := by
  obtain ⟨hwhite, hblack⟩ := has_of_putAll?_empty h
  have hputs (side : Color) : Puts (writtenSquares.zip chars) side square ↔
      stoneOfChar? c = some (some side) := by
    refine ⟨?_, fun hstone => ⟨c, hc, hstone⟩⟩
    rintro ⟨d, hd, hstone⟩
    rwa [eq_of_mem_zip hc hd]
  have hstones := disjoint_of_putAll? h
  cases hstone : stoneOfChar? c with
  | none => exact absurd hstone (known_of_putAll? h _ hc)
  | some stone =>
    rw [Option.some_inj]
    cases stone with
    | none =>
      have hnone (side : Color) : ¬Puts (writtenSquares.zip chars) side square := by
        rw [hputs, hstone]
        exact fun hsame => Option.some_ne_none side (Option.some.inj hsame).symm
      rw [stoneAt, if_neg ((hwhite square).not.mpr (hnone .white)),
        if_neg ((hblack square).not.mpr (hnone .black))]
    | some side =>
      have hput := (hputs side).mpr hstone
      cases side with
      | white => exact (stoneAt_eq_white_iff.mpr ((hwhite square).mpr hput)).symm
      | black => exact ((stoneAt_eq_black_iff hstones).mpr ((hblack square).mpr hput)).symm

section Squares

variable (hlength : chars.length = 9)
include hlength

/-- Nine characters are one for each square. -/
theorem map_zip_writtenSquares :
    (writtenSquares.zip chars).map Prod.fst = writtenSquares ∧
      (writtenSquares.zip chars).map Prod.snd = chars :=
  ⟨List.map_fst_zip (by rw [hlength]; decide), List.map_snd_zip (by rw [hlength]; decide)⟩

/-- The squares of what was read show its characters in small letters. -/
theorem stoneChars_of_putAll? (h : empty.putAll? (writtenSquares.zip chars) = some final) :
    final.stoneChars = chars.map Char.toLower := by
  obtain ⟨hsquares, hchars⟩ := map_zip_writtenSquares hlength
  calc final.stoneChars
      = (writtenSquares.zip chars).map fun pair => stoneChar (final.stoneAt pair.1) := by
        rw [stoneChars, ← hsquares, List.map_map, hsquares]
        rfl
    _ = (writtenSquares.zip chars).map fun pair => pair.2.toLower :=
        List.map_congr_left fun pair hpair =>
          stoneChar_of_stoneOfChar? (stoneOfChar?_of_putAll? h hpair)
    _ = chars.map Char.toLower := by
        rw [← hchars, List.map_map, hchars]
        rfl

/-- As many squares are taken as there are characters that take one. -/
theorem count_eq_countP {stones : Stones} {takes : Char → Bool}
    (h : ∀ pair ∈ writtenSquares.zip chars, stones.has pair.1 = takes pair.2) :
    stones.count = chars.countP takes := by
  obtain ⟨hsquares, hchars⟩ := map_zip_writtenSquares hlength
  have hperm : Square.all.Perm writtenSquares :=
    (List.perm_ext_iff_of_nodup Square.nodup_all nodup_writtenSquares).mpr fun square =>
      ⟨fun _ => mem_writtenSquares square, fun _ => Square.mem_all square⟩
  calc stones.count
      = writtenSquares.countP stones.has := hperm.countP_eq _
    _ = (writtenSquares.zip chars).countP fun pair => stones.has pair.1 := by
        rw [← hsquares, List.countP_map, hsquares]
        rfl
    _ = (writtenSquares.zip chars).countP fun pair => takes pair.2 :=
        List.countP_congr fun pair hpair => by rw [h pair hpair]
    _ = chars.countP takes := by
        rw [← hchars, List.countP_map, hchars]
        rfl

theorem count_of_putAll? (h : empty.putAll? (writtenSquares.zip chars) = some final) :
    final.white.count = whiteStones chars ∧ final.black.count = blackStones chars := by
  have hdisjoint := disjoint_of_putAll? h
  constructor
  · refine count_eq_countP hlength fun pair hpair => ?_
    rw [Bool.eq_iff_iff, ← stoneAt_eq_white_iff, ← Option.some_inj,
      ← stoneOfChar?_of_putAll? h hpair, stoneOfChar?_eq_white_iff, decide_eq_true_eq]
  · refine count_eq_countP hlength fun pair hpair => ?_
    rw [Bool.eq_iff_iff, ← stoneAt_eq_black_iff hdisjoint, ← Option.some_inj,
      ← stoneOfChar?_of_putAll? h hpair, stoneOfChar?_eq_black_iff, decide_eq_true_eq]

end Squares

/-! ## Diagrams -/

section Ranks

variable {top middle bottom : List Char}
  (hlengths : top.length = 3 ∧ middle.length = 3 ∧ bottom.length = 3)

/-- The slashes between the ranks are no stones. -/
theorem stones_ranks (top middle bottom : List Char) :
    whiteStones (top ++ '/' :: (middle ++ '/' :: bottom)) = whiteStones (top ++ middle ++ bottom) ∧
      blackStones (top ++ '/' :: (middle ++ '/' :: bottom)) =
        blackStones (top ++ middle ++ bottom) := by
  unfold whiteStones blackStones
  simp

/-- No square looks like a slash or a blank. -/
theorem square_plain {c : Char} (h : c ∈ ['x', 'X', 'o', 'O', '.']) :
    decide (c = '/') = false ∧ isBlank c = false := by
  simp only [List.mem_cons, List.not_mem_nil, or_false] at h
  rcases h with rfl | rfl | rfl | rfl | rfl <;> decide

/-- The ranks are the pieces between the slashes, and there is nothing to trim. -/
theorem pieces_ranks (hused : ∀ c ∈ top ++ middle ++ bottom, c ∈ ['x', 'X', 'o', 'O', '.']) :
    pieces (· = '/') (top ++ '/' :: (middle ++ '/' :: bottom)) = [top, middle, bottom] ∧
      ∀ c ∈ top ++ '/' :: (middle ++ '/' :: bottom), isBlank c = false := by
  simp only [List.forall_mem_append] at hused
  obtain ⟨⟨htop, hmiddle⟩, hbottom⟩ := hused
  have hslash : isBlank '/' = false := by decide
  constructor
  · rw [pieces_append_cons (fun c hc => (square_plain (htop c hc)).1) rfl,
      pieces_append_cons (fun c hc => (square_plain (hmiddle c hc)).1) rfl,
      pieces_of_forall fun c hc => (square_plain (hbottom c hc)).1]
  · simp only [List.forall_mem_append, List.forall_mem_cons]
    exact ⟨fun c hc => (square_plain (htop c hc)).2, hslash,
      fun c hc => (square_plain (hmiddle c hc)).2, hslash,
      fun c hc => (square_plain (hbottom c hc)).2⟩

include hlengths

theorem length_ranks : (top ++ middle ++ bottom).length = 9 := by
  rw [List.length_append, List.length_append, hlengths.1, hlengths.2.1, hlengths.2.2]

/-- A position is written rank by rank. -/
theorem toList_toFen_of_stoneChars
    (h : position.stoneChars = (top ++ middle ++ bottom).map Char.toLower) :
    position.toFen.toList = (top ++ '/' :: (middle ++ '/' :: bottom)).map Char.toLower := by
  obtain ⟨htop, hmiddle, -⟩ := hlengths
  rw [toList_toFen, h]
  simp [List.drop_append, htop, hmiddle]

end Ranks

/-- What is read is a diagram with nothing but blanks around it, and written in small letters. -/
theorem exists_isDiagram_of_ofFen {text : String} (h : ofFen text = .ok position) :
    ∃ diagram, IsDiagram diagram ∧ IsAround diagram text.toList ∧
      position.toFen.toList = diagram.map Char.toLower := by
  obtain ⟨top, middle, bottom, placed, hpieces, hlengths, hplaced, hcounted⟩ :=
    ofFen?_eq_some_iff.mp (ofFen_eq_ok_iff.mp h)
  have hlength := length_ranks hlengths
  have htrim : trim text.toList = top ++ '/' :: (middle ++ '/' :: bottom) := by
    rw [← intercalate_pieces '/' (trim text.toList), hpieces, List.intercalate_cons_cons,
      List.intercalate_cons_cons, List.intercalate_singleton, List.append_assoc, List.append_assoc,
      List.singleton_append, List.singleton_append]
  have hused : ∀ c ∈ top ++ middle ++ bottom, c ∈ ['x', 'X', 'o', 'O', '.'] := by
    intro c hc
    rw [← (map_zip_writtenSquares hlength).2] at hc
    obtain ⟨pair, hpair, rfl⟩ := List.mem_map.mp hc
    exact stoneOfChar?_ne_none_iff.mp (known_of_putAll? hplaced pair hpair)
  obtain ⟨hwhite, hblack⟩ := count_of_putAll? hlength hplaced
  obtain ⟨hwhiteRanks, hblackRanks⟩ := stones_ranks top middle bottom
  have hchars := stoneChars_of_putAll? hlength hplaced
  obtain ⟨hturns, rfl⟩ := counted?_eq_some_iff.mp hcounted
  refine ⟨trim text.toList, ⟨⟨top, middle, bottom, htrim, hlengths, hused⟩, ?_⟩,
    exists_eq_append_trim text.toList, ?_⟩
  · rwa [htrim, hwhiteRanks, hblackRanks, ← hwhite, ← hblack]
  · rw [htrim]
    exact toList_toFen_of_stoneChars hlengths hchars

/-- A diagram is read, whatever blanks stand around it. -/
theorem exists_ofFen_of_isDiagram {text : String} {diagram : List Char} (h : IsDiagram diagram)
    (haround : IsAround diagram text.toList) :
    ∃ position, ofFen text = .ok position ∧
      position.toFen.toList = diagram.map Char.toLower := by
  obtain ⟨⟨top, middle, bottom, rfl, hlengths, hused⟩, hturns⟩ := h
  obtain ⟨before, after, htext, hbefore, hafter⟩ := haround
  obtain ⟨hpieces, hplain⟩ := pieces_ranks hused
  have hlength := length_ranks hlengths
  obtain ⟨placed, hplaced⟩ : ∃ placed,
      empty.putAll? (writtenSquares.zip (top ++ middle ++ bottom)) = some placed :=
    exists_putAll? (fun pair hpair =>
      stoneOfChar?_ne_none_iff.mpr (hused _ (List.of_mem_zip hpair).2)) empty
  have hchars := stoneChars_of_putAll? hlength hplaced
  obtain ⟨hwhite, hblack⟩ := count_of_putAll? hlength hplaced
  obtain ⟨hwhiteRanks, hblackRanks⟩ := stones_ranks top middle bottom
  rw [hwhiteRanks, hblackRanks, ← hwhite, ← hblack] at hturns
  have hcounted : placed.counted? =
      some { placed with ply := placed.white.count + placed.black.count } :=
    counted?_eq_some_iff.mpr ⟨hturns, rfl⟩
  refine ⟨_, ofFen_eq_ok_iff.mpr (ofFen?_eq_some_iff.mpr
    ⟨top, middle, bottom, placed, ?_, hlengths, hplaced, hcounted⟩),
    toList_toFen_of_stoneChars hlengths hchars⟩
  rw [htext, trim_append hbefore hafter hplain, hpieces]

/-- The positions of games that begin with a text and go on by legal moves. -/
inductive IsReachable : Position → Prop
  | read {text : String} {position : Position} : ofFen text = .ok position → IsReachable position
  | play {position : Position} {move : Square} : IsReachable position →
      move ∈ position.legalMoves → IsReachable (position.play move)

theorem IsReachable.isRegular (h : position.IsReachable) : position.IsRegular := by
  induction h with
  | read hread => exact isRegular_of_ofFen hread
  | play _ hmove ih => exact ih.play hmove

/-- **Diagrams are read, and nothing else, and positions are read as they are written.** A text is
read just if it is a diagram, but for the blanks around it. Then the diagram in small letters is what
the position is written as. Every position of a game is read back with its stones and the number of
its moves, and so with the same side to move. -/
theorem diagrams_read_and_written :
    (∀ text : String, (∃ position, ofFen text = .ok position) ↔
      ∃ diagram, IsDiagram diagram ∧ IsAround diagram text.toList) ∧
    (∀ (text : String) (diagram : List Char) (position : Position),
      IsDiagram diagram → IsAround diagram text.toList → ofFen text = .ok position →
      position.toFen.toList = diagram.map Char.toLower) ∧
    ∀ position : Position, position.IsReachable → ofFen position.toFen = .ok position := by
  refine ⟨fun text => ⟨?_, ?_⟩, ?_, ?_⟩
  · rintro ⟨position, hread⟩
    obtain ⟨diagram, hdiagram, haround, -⟩ := exists_isDiagram_of_ofFen hread
    exact ⟨diagram, hdiagram, haround⟩
  · rintro ⟨diagram, hdiagram, haround⟩
    obtain ⟨position, hread, -⟩ := exists_ofFen_of_isDiagram hdiagram haround
    exact ⟨position, hread⟩
  · intro text diagram position hdiagram haround hread
    obtain ⟨other, hother, hwritten⟩ := exists_ofFen_of_isDiagram hdiagram haround
    rw [hread, Except.ok.injEq] at hother
    rw [hother, hwritten]
  · intro position hreachable
    exact ofFen_toFen hreachable.isRegular

/-- A capital and blanks at both ends are taken, and the position after black's next stone is read back. -/
theorem padded_diagram_read_and_written :
    ∃ position, ofFen " X../.o./..x\t" = .ok position ∧ position.toFen = "x../.o./..x" ∧
      position.sideToMove = .black ∧ (position.play ⟨0, 2⟩).toFen = "x../.o./o.x" ∧
      ofFen "x../.o./o.x" = .ok (position.play ⟨0, 2⟩) := by
  have hdiagram : IsDiagram ['X', '.', '.', '/', '.', 'o', '.', '/', '.', '.', 'x'] :=
    ⟨⟨['X', '.', '.'], ['.', 'o', '.'], ['.', '.', 'x'], rfl, ⟨rfl, rfl, rfl⟩, by simp⟩,
      by decide⟩
  have hspace : ∀ c ∈ [' '], isBlank c = true := List.forall_mem_singleton.mpr rfl
  have htab : ∀ c ∈ ['\t'], isBlank c = true := List.forall_mem_singleton.mpr rfl
  have haround : IsAround ['X', '.', '.', '/', '.', 'o', '.', '/', '.', '.', 'x']
      " X../.o./..x\t".toList := ⟨[' '], ['\t'], rfl, hspace, htab⟩
  obtain ⟨hreads, hwritten, hback⟩ := diagrams_read_and_written
  obtain ⟨position, hread⟩ := (hreads _).mpr ⟨_, hdiagram, haround⟩
  obtain rfl : position = ⟨0b001000100, 0b000010000, 3⟩ := by
    have hsame : ofFen " X../.o./..x\t" = .ok ⟨0b001000100, 0b000010000, 3⟩ := rfl
    rw [hsame, Except.ok.injEq] at hread
    exact hread.symm
  have hmove : (⟨0, 2⟩ : Square) ∈ legalMoves ⟨0b001000100, 0b000010000, 3⟩ := by decide
  have hafter : (play ⟨0b001000100, 0b000010000, 3⟩ ⟨0, 2⟩).toFen = "x../.o./o.x" := rfl
  have hfen := hwritten _ _ _ hdiagram haround hread
  refine ⟨_, hread, String.toList_inj.mp hfen, rfl, hafter, ?_⟩
  rw [← hafter]
  exact hback _ (.play (.read hread) hmove)

end Position

end SelfPlay.TicTacToe
