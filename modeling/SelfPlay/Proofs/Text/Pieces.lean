import SelfPlay.Text.Blank

/-!
# Texts in pieces

Joining texts by a separator that none of them holds, and splitting them again.
-/

namespace SelfPlay.Text

variable {separates : Char → Bool}

/-- A text without separators is one piece. -/
theorem pieces_of_forall {text : List Char} (h : ∀ c ∈ text, separates c = false) :
    pieces separates text = [text] := by
  induction text with
  | nil => rfl
  | cons c rest ih =>
    rw [pieces, ih fun d hd => h d (List.mem_cons_of_mem _ hd)]
    simp [h c List.mem_cons_self]

/-- The pieces on both sides of a separator are pieces of the whole. -/
theorem pieces_append (text : List Char) {c : Char} (hc : separates c = true) (rest : List Char) :
    pieces separates (text ++ c :: rest) = pieces separates text ++ pieces separates rest := by
  induction text with
  | nil =>
    rw [List.nil_append, pieces]
    cases hrest : pieces separates rest with
    | nil => exact absurd hrest (pieces_ne_nil separates rest)
    | cons piece others => simp [hc, pieces, hrest]
  | cons d text ih =>
    rw [List.cons_append, pieces, ih, pieces]
    cases htext : pieces separates text with
    | nil => exact absurd htext (pieces_ne_nil separates text)
    | cons piece others =>
      simp only [List.cons_append]
      split <;> rfl

/-- What stands before the first separator is the first piece. -/
theorem pieces_append_cons {text : List Char} (h : ∀ c ∈ text, separates c = false) {c : Char}
    (hc : separates c = true) (rest : List Char) :
    pieces separates (text ++ c :: rest) = text :: pieces separates rest := by
  rw [pieces_append text hc, pieces_of_forall h, List.singleton_append]

/-- Texts that each end with a separator are the pieces, with an empty one after the last. -/
theorem pieces_flatMap {c : Char} (hc : separates c = true) {texts : List (List Char)}
    (h : ∀ text ∈ texts, ∀ d ∈ text, separates d = false) :
    pieces separates (texts.flatMap (· ++ [c])) = texts ++ [[]] := by
  induction texts with
  | nil => rfl
  | cons text rest ih =>
    obtain ⟨htext, hrest⟩ := List.forall_mem_cons.mp h
    rw [List.flatMap_cons, List.append_assoc, List.singleton_append, pieces_append_cons htext hc,
      ih hrest, List.cons_append]

/-- The pieces between occurrences of one character are those of the library. -/
theorem pieces_eq_splitOn (c : Char) (text : List Char) :
    pieces (· = c) text = text.splitOn c := by
  induction text with
  | nil => rfl
  | cons d rest ih =>
    rw [List.splitOn_cons_eq_if_modifyHead, ← ih, pieces]
    cases hrest : pieces (· = c) rest with
    | nil => exact absurd hrest (pieces_ne_nil _ rest)
    | cons piece others => simp only [beq_iff_eq, decide_eq_true_eq, List.modifyHead_cons]

/-- Pieces with the separator between them are the text again. -/
theorem intercalate_pieces (c : Char) (text : List Char) :
    [c].intercalate (pieces (· = c) text) = text := by
  rw [pieces_eq_splitOn, List.intercalate_splitOn]

/-! ## Blanks at both ends -/

/-- A text without blanks has none to drop. -/
theorem dropWhile_of_forall {text : List Char} (h : ∀ c ∈ text, isBlank c = false) :
    text.dropWhile isBlank = text := by
  cases text with
  | nil => rfl
  | cons c rest => exact List.dropWhile_cons_of_neg (by simp [h c List.mem_cons_self])

/-- Blanks behind a text are trimmed off. -/
theorem trim_append_of_blank (text : List Char) {after : List Char}
    (h : ∀ c ∈ after, isBlank c = true) : trim (text ++ after) = trim text := by
  unfold trim trimEnd trimStart
  rw [List.dropWhile_append]
  split
  · rename_i hempty
    rw [List.isEmpty_iff.mp hempty, ← List.append_nil after, List.dropWhile_append_of_pos h]
    rfl
  · rw [List.reverse_append,
      List.dropWhile_append_of_pos fun c hc => h c (List.mem_reverse.mp hc)]

/-- Blanks on both sides of a text without blanks are trimmed off. -/
theorem trim_append {before text after : List Char} (hbefore : ∀ c ∈ before, isBlank c = true)
    (hafter : ∀ c ∈ after, isBlank c = true) (htext : ∀ c ∈ text, isBlank c = false) :
    trim (before ++ text ++ after) = text := by
  rw [trim_append_of_blank _ hafter]
  unfold trim trimEnd trimStart
  rw [List.dropWhile_append_of_pos hbefore, dropWhile_of_forall htext,
    dropWhile_of_forall fun c hc => htext c (List.mem_reverse.mp hc), List.reverse_reverse]

/-- Nothing is trimmed off a text without blanks. -/
theorem trim_of_forall {text : List Char} (h : ∀ c ∈ text, isBlank c = false) :
    trim text = text := by
  have hnone : ∀ c ∈ ([] : List Char), isBlank c = true := List.forall_mem_nil _
  have htrim := trim_append hnone hnone h
  rwa [List.nil_append, List.append_nil] at htrim

/-- Trimming takes blanks off at both ends, and nothing else. -/
theorem exists_eq_append_trim (text : List Char) :
    ∃ before after, text = before ++ trim text ++ after ∧ (∀ c ∈ before, isBlank c = true) ∧
      ∀ c ∈ after, isBlank c = true := by
  refine ⟨text.takeWhile isBlank, ((trimStart text).reverse.takeWhile isBlank).reverse, ?_, ?_, ?_⟩
  · have hend : trim text ++ ((trimStart text).reverse.takeWhile isBlank).reverse =
        trimStart text := by
      unfold trim trimEnd
      rw [← List.reverse_append, List.takeWhile_append_dropWhile, List.reverse_reverse]
    rw [List.append_assoc, hend]
    exact List.takeWhile_append_dropWhile.symm
  · exact List.all_eq_true.mp List.all_takeWhile
  · intro c hc
    exact List.all_eq_true.mp List.all_takeWhile c (List.mem_reverse.mp hc)

/-! ## Words -/

/-- Something is written, and no blank in it. -/
def IsWord (text : List Char) : Prop := text ≠ [] ∧ ∀ c ∈ text, isBlank c = false

theorem isWord_of_mem_words {text word : List Char} (h : word ∈ words text) : IsWord word := by
  obtain ⟨hpiece, hfilled⟩ := List.mem_filter.mp h
  refine ⟨?_, not_separates_of_mem_pieces hpiece⟩
  rintro rfl
  cases hfilled

/-- A blank ends a word and begins none. -/
theorem words_append (text : List Char) {c : Char} (hc : isBlank c = true) (rest : List Char) :
    words (text ++ c :: rest) = words text ++ words rest := by
  unfold words
  rw [pieces_append text hc, List.filter_append]

/-- Blanks before a text hold no words. -/
theorem words_blank_append {before : List Char} (h : ∀ c ∈ before, isBlank c = true)
    (text : List Char) : words (before ++ text) = words text := by
  induction before with
  | nil => rfl
  | cons c rest ih =>
    obtain ⟨hc, hrest⟩ := List.forall_mem_cons.mp h
    rw [List.cons_append, ← List.nil_append (c :: (rest ++ text)), words_append [] hc, ih hrest]
    rfl

/-- Trimming takes no words off. -/
theorem words_trim (text : List Char) : words (trim text) = words text := by
  obtain ⟨before, after, htext, hbefore, hafter⟩ := exists_eq_append_trim text
  have hback : words (trim text ++ after) = words (trim text) := by
    cases after with
    | nil => rw [List.append_nil]
    | cons c rest =>
      obtain ⟨hc, hrest⟩ := List.forall_mem_cons.mp hafter
      have hnone : words rest = [] := by
        rw [← List.append_nil rest, words_blank_append hrest]
        rfl
      rw [words_append _ hc, hnone, List.append_nil]
  calc words (trim text) = words (before ++ (trim text ++ after)) := by
        rw [words_blank_append hbefore, hback]
    _ = words text := by rw [← List.append_assoc, ← htext]

theorem words_of_isWord {text : List Char} (h : IsWord text) : words text = [text] := by
  unfold words
  rw [pieces_of_forall h.2]
  exact List.filter_cons_of_pos (by simp [h.1])

/-- Words with a space between any two are these words again. -/
theorem words_intercalate {texts : List (List Char)} (h : ∀ text ∈ texts, IsWord text) :
    words ([' '].intercalate texts) = texts := by
  induction texts with
  | nil => rfl
  | cons text rest ih =>
    obtain ⟨htext, hrest⟩ := List.forall_mem_cons.mp h
    cases rest with
    | nil =>
      rw [List.intercalate_singleton]
      exact words_of_isWord htext
    | cons next rest =>
      rw [List.intercalate_cons_cons, List.append_assoc, List.singleton_append,
        words_append text (by decide), words_of_isWord htext, ih hrest, List.singleton_append]

end SelfPlay.Text
