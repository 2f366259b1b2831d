import Mathlib.Data.List.Forall2
import Mathlib.Logic.Relation
import SelfPlay.Openings.File
import SelfPlay.Proofs.Text.Lines

/-!
# What a file of openings says

Comments and blank lines say nothing. A file is read if all its other lines are openings, and these
are then what is read, in their order. So a file may be edited at will around its openings
(`Openings.Edit`), and its lines may end in carriage returns. If a line is no opening, the first
such line is reported, by its number among all lines.
-/

namespace SelfPlay.Openings

open SelfPlay.Text (trim pieces words_trim ended withoutReturn withoutReturn_concat withReturns
  trim_append_return pieces_returned ofUtf8?_byteLines)

/-- The lines of a text: what stands between its line feeds. A line feed at the end is followed by a
line too, an empty one. A carriage return before a line feed is a blank at the end of a line. -/
def linesOf (text : String) : List String := (pieces (· = '\n') text.toList).map String.ofList

/-- A line without the blanks at both ends. -/
def trimmed (line : String) : String := String.ofList (trim line.toList)

/-- Nothing is on the line but blanks, or blanks and a comment. -/
def IsCommentOrBlank (line : String) : Prop :=
  trimmed line = "" ∨ (trimmed line).toList.head? = some '#'

instance (line : String) : Decidable (IsCommentOrBlank line) :=
  inferInstanceAs (Decidable (_ ∨ _))

/-- If the line is to be an opening, it is one. -/
def IsAcceptable (line : String) : Prop :=
  ¬IsCommentOrBlank line → ∃ opening, OpeningLine.parse line = .ok opening

/-- The line is to be an opening and is none, and the fault tells its number and what is on it. -/
def Refuses (number : Nat) (line : String) (fault : Fault) : Prop :=
  ¬IsCommentOrBlank line ∧ ∃ cause, OpeningLine.parse line = .error cause ∧
    fault = cause.within
      ("invalid opening on line " ++ Text.ofNat number ++ ": " ++ trimmed line)

theorem toList_trimmed (line : String) : (trimmed line).toList = trim line.toList :=
  String.toList_ofList

/-- Blanks around a line make no difference to the opening on it. -/
theorem parse_trimmed (line : String) :
    OpeningLine.parse (trimmed line) = OpeningLine.parse line := by
  unfold OpeningLine.parse
  rw [toList_trimmed, words_trim]

theorem isCommentOrBlank_congr {line other : String} (h : trimmed line = trimmed other) :
    IsCommentOrBlank line ↔ IsCommentOrBlank other := by
  unfold IsCommentOrBlank
  rw [h]

/-! ## One line -/

theorem isSkipped_trim_iff (line : String) :
    isSkipped (trim line.toList) = true ↔ IsCommentOrBlank line := by
  unfold isSkipped IsCommentOrBlank
  rw [Bool.or_eq_true, List.isEmpty_iff, decide_eq_true_iff, toList_trimmed, trimmed,
    ← String.toList_inj, String.toList_ofList]
  rfl

theorem ofLine_of_commentOrBlank {line : String} (h : IsCommentOrBlank line) (number : Nat) :
    ofLine number line = .ok none := by
  unfold ofLine
  exact if_pos ((isSkipped_trim_iff line).mpr h)

theorem ofLine_of_not_commentOrBlank {line : String} (h : ¬IsCommentOrBlank line) (number : Nat) :
    ofLine number line =
      match OpeningLine.parse line with
      | .ok opening => .ok (some opening)
      | .error cause =>
        .error (cause.within
          ("invalid opening on line " ++ Text.ofNat number ++ ": " ++ trimmed line)) := by
  have hwritten : OpeningLine.parse (String.ofList (trim line.toList)) = OpeningLine.parse line :=
    parse_trimmed line
  unfold ofLine
  simp only [hwritten]
  exact if_neg fun hskipped => h ((isSkipped_trim_iff line).mp hskipped)

/-- A line is passed over, is an opening, or is refused. -/
theorem line_cases (number : Nat) (line : String) :
    IsCommentOrBlank line ∨
      ¬IsCommentOrBlank line ∧ (∃ opening, OpeningLine.parse line = .ok opening) ∨
      ∃ fault, Refuses number line fault := by
  by_cases hline : IsCommentOrBlank line
  · exact Or.inl hline
  · cases hparse : OpeningLine.parse line with
    | ok opening => exact Or.inr (Or.inl ⟨hline, opening, rfl⟩)
    | error cause => exact Or.inr (Or.inr ⟨_, hline, cause, hparse, rfl⟩)

theorem Refuses.not_isAcceptable {number : Nat} {line : String} {fault : Fault}
    (h : Refuses number line fault) : ¬IsAcceptable line := by
  obtain ⟨hline, cause, hparse, -⟩ := h
  intro hacceptable
  obtain ⟨opening, hopening⟩ := hacceptable hline
  cases hparse.symm.trans hopening

/-! ## All lines -/

section

variable {number : Nat} {line : String} {rest lines : List String}

theorem ofLines_cons_of_commentOrBlank (h : IsCommentOrBlank line) :
    ofLines number ((line :: rest).map some) = ofLines (number + 1) (rest.map some) := by
  rw [List.map_cons, ofLines, ofLine_of_commentOrBlank h]

theorem ofLines_cons_of_parse_eq_ok {opening : OpeningLine} (h : ¬IsCommentOrBlank line)
    (hparse : OpeningLine.parse line = .ok opening) :
    ofLines number ((line :: rest).map some) =
      (ofLines (number + 1) (rest.map some)).map (opening :: ·) := by
  rw [List.map_cons, ofLines, ofLine_of_not_commentOrBlank h, hparse]

theorem ofLines_cons_of_refuses {fault : Fault} (h : Refuses number line fault) :
    ofLines number ((line :: rest).map some) = .error fault := by
  obtain ⟨hline, cause, hparse, rfl⟩ := h
  rw [List.map_cons, ofLines, ofLine_of_not_commentOrBlank hline, hparse]

/-- **The openings are those on the lines that are no comments and not blank**, one for each. -/
theorem ofLines_eq_ok_iff {openings : List OpeningLine} :
    ofLines number (lines.map some) = .ok openings ↔
      List.Forall₂ (fun line opening => OpeningLine.parse line = .ok opening)
        (lines.filter (¬IsCommentOrBlank ·)) openings := by
  induction lines generalizing number openings with
  | nil =>
    rw [List.filter_nil, List.forall₂_nil_left_iff]
    constructor
    · rintro ⟨⟩
      rfl
    · rintro rfl
      rfl
  | cons line rest ih =>
    rcases line_cases number line with hline | ⟨hline, opening, hopening⟩ | ⟨fault, hfault⟩
    · rw [ofLines_cons_of_commentOrBlank hline, List.filter_cons_of_neg (by simpa using hline)]
      exact ih
    · rw [ofLines_cons_of_parse_eq_ok hline hopening,
        List.filter_cons_of_pos (by simpa using hline), List.forall₂_cons_left_iff]
      simp only [← @ih (number + 1), hopening]
      cases hrest : ofLines (number + 1) (rest.map some) with
      | error fault => simp [Except.map]
      | ok others => simp [Except.map, eq_comm]
    · rw [ofLines_cons_of_refuses hfault, List.filter_cons_of_pos (by simpa using hfault.1),
        List.forall₂_cons_left_iff]
      obtain ⟨-, cause, hparse, -⟩ := hfault
      simp [hparse]

/-- Lines that are acceptable do not keep a line behind them from being refused. -/
theorem ofLines_append_of_refuses {before after : List String} {fault : Fault}
    (hbefore : ∀ other ∈ before, IsAcceptable other)
    (h : Refuses (number + before.length) line fault) :
    ofLines number ((before ++ line :: after).map some) = .error fault := by
  induction before generalizing number with
  | nil => exact ofLines_cons_of_refuses h
  | cons first before ih =>
    obtain ⟨hfirst, hothers⟩ := List.forall_mem_cons.mp hbefore
    have hrest := @ih (number + 1) hothers (by
      rwa [List.length_cons, Nat.add_comm before.length, ← Nat.add_assoc] at h)
    rw [List.cons_append]
    rcases line_cases number first with hline | ⟨hline, opening, hopening⟩ | ⟨_, hrefused⟩
    · rw [ofLines_cons_of_commentOrBlank hline, hrest]
    · rw [ofLines_cons_of_parse_eq_ok hline hopening, hrest]
      rfl
    · exact absurd hfirst hrefused.not_isAcceptable

/-- **A fault is about the first line that is not acceptable.** -/
theorem ofLines_eq_error_iff {fault : Fault} :
    ofLines number (lines.map some) = .error fault ↔
      ∃ before line after, lines = before ++ line :: after ∧
        (∀ other ∈ before, IsAcceptable other) ∧ Refuses (number + before.length) line fault := by
  constructor
  · intro h
    induction lines generalizing number with
    | nil => cases h
    | cons first rest ih =>
      -- a first line that is no reason to stop leaves the fault to a later one
      have hlater (hfirst : IsAcceptable first)
          (hrest : ofLines (number + 1) (rest.map some) = .error fault) :
          ∃ before line after, first :: rest = before ++ line :: after ∧
            (∀ other ∈ before, IsAcceptable other) ∧
            Refuses (number + before.length) line fault := by
        obtain ⟨before, line, after, rfl, hbefore, hrefused⟩ := ih hrest
        refine ⟨first :: before, line, after, rfl, List.forall_mem_cons.mpr ⟨hfirst, hbefore⟩, ?_⟩
        rwa [List.length_cons, Nat.add_comm before.length, ← Nat.add_assoc]
      rcases line_cases number first with hline | ⟨hline, opening, hopening⟩ | ⟨_, hrefused⟩
      · rw [ofLines_cons_of_commentOrBlank hline] at h
        exact hlater (absurd hline) h
      · rw [ofLines_cons_of_parse_eq_ok hline hopening] at h
        refine hlater (fun _ => ⟨opening, hopening⟩) ?_
        cases hrest : ofLines (number + 1) (rest.map some) with
        | error cause =>
          rw [hrest] at h
          cases h
          rfl
        | ok openings =>
          rw [hrest] at h
          cases h
      · rw [ofLines_cons_of_refuses hrefused] at h
        cases h
        exact ⟨[], first, rest, rfl, List.forall_mem_nil _, hrefused⟩
  · rintro ⟨before, line, after, rfl, hbefore, hrefused⟩
    exact ofLines_append_of_refuses hbefore hrefused

/-- **Lines are read if each of them is acceptable.** -/
theorem exists_ofLines_eq_ok_iff :
    (∃ openings, ofLines number (lines.map some) = .ok openings) ↔
      ∀ line ∈ lines, IsAcceptable line := by
  constructor
  · rintro ⟨openings, h⟩ line hmem hline
    have hread := List.forall₂_iff_get.mp (ofLines_eq_ok_iff.mp h)
    have hheld : line ∈ lines.filter (¬IsCommentOrBlank ·) :=
      List.mem_filter.mpr ⟨hmem, decide_eq_true hline⟩
    obtain ⟨i, rfl⟩ := List.mem_iff_get.mp hheld
    exact ⟨_, hread.2 i i.isLt (hread.1 ▸ i.isLt)⟩
  · intro h
    cases hread : ofLines number (lines.map some) with
    | ok openings => exact ⟨openings, rfl⟩
    | error fault =>
      obtain ⟨before, line, after, rfl, -, hrefused⟩ := ofLines_eq_error_iff.mp hread
      exact absurd (h line (by simp)) hrefused.not_isAcceptable

end

/-! ## Lines of a text -/

theorem ofLine_congr {line other : String} (h : trimmed line = trimmed other) (number : Nat) :
    ofLine number line = ofLine number other := by
  have hchars : trim line.toList = trim other.toList := String.ofList_injective h
  unfold ofLine
  rw [hchars]

/-- Of lines that differ in blanks at both ends the same is read. -/
theorem ofLines_congr {lines others : List String}
    (h : List.Forall₂ (fun line other => trimmed line = trimmed other) lines others)
    (number : Nat) : ofLines number (lines.map some) = ofLines number (others.map some) := by
  induction h generalizing number with
  | nil => rfl
  | cons hline _ ih =>
    rw [List.map_cons, List.map_cons, ofLines, ofLines, ofLine_congr hline, ih]

theorem trim_withoutReturn (line : List Char) : trim (withoutReturn line) = trim line := by
  rcases List.eq_nil_or_concat line with rfl | ⟨before, c, rfl⟩
  · rfl
  · rw [List.concat_eq_append, withoutReturn_concat]
    split
    · rename_i hreturn
      rw [hreturn, trim_append_return]
    · rfl

/-- It does not matter how lines are told from the pieces between line feeds. -/
theorem ofLines_ended (number : Nat) (lines : List (List Char)) :
    ofLines number ((ended lines).map fun line => some (String.ofList line)) =
      ofLines number ((lines.map String.ofList).map some) := by
  induction lines generalizing number with
  | nil => rfl
  | cons line rest ih =>
    cases rest with
    | nil =>
      -- an empty piece behind the last line feed is no line, but a blank line says nothing either
      rw [ended]
      cases line with
      | nil => rfl
      | cons c line => rfl
    | cons next rest =>
      have hline : trimmed (String.ofList (withoutReturn line)) = trimmed (String.ofList line) := by
        unfold trimmed
        rw [String.toList_ofList, String.toList_ofList, trim_withoutReturn]
      rw [ended, List.map_cons, ofLines, ofLine_congr hline, ih]
      rfl

/-- **A text is read line by line.** -/
theorem ofText_eq (text : String) : ofText text = ofLines 1 ((linesOf text).map some) := by
  have hlines : ofLines 1 ((completeLines (.ofBytes (Text.toUtf8 text))).map Text.ofUtf8?) =
      ofLines 1 ((linesOf text).map some) := by
    change ofLines 1 ((Text.byteLines (Text.toUtf8 text)).map Text.ofUtf8?) = _
    rw [ofUtf8?_byteLines, ofLines_ended]
    rfl
  unfold ofText ofStream
  rw [hlines]
  cases ofLines 1 ((linesOf text).map some) <;> rfl

/-! ## Edits that are not about openings -/

/-- An edit of lines: one that says nothing is put in or taken out, or the blanks around one are
changed, a carriage return at its end among them. -/
inductive Edit : List String → List String → Prop where
  | insert (before after : List String) {line : String} (h : IsCommentOrBlank line) :
      Edit (before ++ after) (before ++ line :: after)
  | remove (before after : List String) {line : String} (h : IsCommentOrBlank line) :
      Edit (before ++ line :: after) (before ++ after)
  | indent (before after : List String) {line other : String} (h : trimmed line = trimmed other) :
      Edit (before ++ line :: after) (before ++ other :: after)

/-- What is on the lines that are no comments and not blank. -/
def openingTexts (lines : List String) : List String :=
  (lines.filter (¬IsCommentOrBlank ·)).map trimmed

theorem ofLines_eq_ok_iff_openingTexts {number : Nat} {lines : List String}
    {openings : List OpeningLine} :
    ofLines number (lines.map some) = .ok openings ↔
      List.Forall₂ (fun text opening => OpeningLine.parse text = .ok opening)
        (openingTexts lines) openings := by
  unfold openingTexts
  rw [ofLines_eq_ok_iff, List.forall₂_map_left_iff]
  simp only [parse_trimmed]

/-- One edit leaves the texts of openings as they are. -/
theorem Edit.openingTexts_eq {lines edited : List String} (h : Edit lines edited) :
    openingTexts edited = openingTexts lines := by
  unfold openingTexts
  cases h with
  | insert before after h =>
    rw [List.filter_append, List.filter_append, List.filter_cons_of_neg (by simpa using h)]
  | remove before after h =>
    rw [List.filter_append, List.filter_append, List.filter_cons_of_neg (by simpa using h)]
  | indent before after h =>
    have hsame := isCommentOrBlank_congr h
    rw [List.filter_append, List.filter_append, List.map_append, List.map_append,
      List.append_cancel_left_eq, List.filter_cons, List.filter_cons]
    simp only [hsame]
    split
    · rw [List.map_cons, List.map_cons, h]
    · rfl

theorem openingTexts_of_edits {lines edited : List String}
    (h : Relation.ReflTransGen Edit lines edited) : openingTexts edited = openingTexts lines := by
  induction h with
  | refl => rfl
  | tail _ hedit ih => rw [hedit.openingTexts_eq, ih]

/-- Carriage returns before line feeds change nothing, nor does a fault. -/
theorem ofText_withReturns (text : String) : ofText (withReturns text) = ofText text := by
  rw [ofText_eq, ofText_eq]
  refine ofLines_congr ?_ 1
  unfold linesOf withReturns
  rw [String.toList_ofList, List.forall₂_map_left_iff, List.forall₂_map_right_iff]
  refine (pieces_returned text.toList).imp ?_
  rintro line other (rfl | rfl)
  · rfl
  · unfold trimmed
    rw [String.toList_ofList, String.toList_ofList, trim_append_return]

/-- **A text is read as the openings on its lines, whatever comments and blanks are around them.**
It is read just if every line that is not blank and no comment is an opening, and then as these
openings in their order. Lines that are blank or comments may be put in, taken out and indented
anywhere, and lines may end in carriage returns: the same openings are read. If the text is not
read, the fault tells the number and the text of the first line that should be an opening and is
none. -/
theorem comments_and_blanks_ignored (text : String) :
    ((∃ openings, ofText text = .ok openings) ↔ ∀ line ∈ linesOf text, IsAcceptable line) ∧
    (∀ openings, ofText text = .ok openings ↔
      List.Forall₂ (fun line opening => OpeningLine.parse line = .ok opening)
        ((linesOf text).filter (¬IsCommentOrBlank ·)) openings) ∧
    (∀ edited, Relation.ReflTransGen Edit (linesOf text) (linesOf edited) →
      ∀ openings, ofText edited = .ok openings ↔ ofText text = .ok openings) ∧
    ofText (withReturns text) = ofText text ∧
    ∀ fault, ofText text = .error fault ↔
      ∃ before line after, linesOf text = before ++ line :: after ∧
        (∀ other ∈ before, IsAcceptable other) ∧ Refuses (before.length + 1) line fault := by
  refine ⟨?_, fun openings => ?_, fun edited hedits openings => ?_, ofText_withReturns text,
    fun fault => ?_⟩
  · rw [ofText_eq]
    exact exists_ofLines_eq_ok_iff
  · rw [ofText_eq]
    exact ofLines_eq_ok_iff
  · rw [ofText_eq, ofText_eq, ofLines_eq_ok_iff_openingTexts, ofLines_eq_ok_iff_openingTexts,
      openingTexts_of_edits hedits]
  · rw [ofText_eq, ofLines_eq_error_iff]
    simp only [Nat.add_comm 1]

/-- Two openings with a comment between them. -/
def commentedText : String := "startpos\n#\nfen x../.o./... moves c3\n"

/-- The same openings behind a blank line, the first with a wide blank before it and a carriage
return behind it, and the second without a line feed. -/
def respacedText : String := "\n\u3000startpos\r\nfen x../.o./... moves c3"

/-- Four edits lead from one text to the other, and the openings are the same. -/
theorem respaced_text_reads_alike :
    Relation.ReflTransGen Edit (linesOf commentedText) (linesOf respacedText) ∧
    ofText commentedText = .ok [⟨none, []⟩, ⟨some "x../.o./...", ["c3"]⟩] ∧
    ofText respacedText = .ok [⟨none, []⟩, ⟨some "x../.o./...", ["c3"]⟩] := by
  have hlines : linesOf commentedText = ["startpos", "#", "fen x../.o./... moves c3", ""] := rfl
  have hrespaced : linesOf respacedText =
      ["", "\u3000startpos\r", "fen x../.o./... moves c3"] := rfl
  have hblank : IsCommentOrBlank "" := Or.inl rfl
  have hcomment : IsCommentOrBlank "#" := Or.inr rfl
  have hindent : trimmed "startpos" = trimmed "\u3000startpos\r" := by decide
  have hedits : Relation.ReflTransGen Edit (linesOf commentedText) (linesOf respacedText) := by
    rw [hlines, hrespaced]
    calc Relation.ReflTransGen Edit ["startpos", "#", "fen x../.o./... moves c3", ""]
          ["", "startpos", "#", "fen x../.o./... moves c3", ""] := .single (.insert [] _ hblank)
      Relation.ReflTransGen Edit _
          ["", "\u3000startpos\r", "#", "fen x../.o./... moves c3", ""] :=
        .single (.indent [""] _ hindent)
      Relation.ReflTransGen Edit _ ["", "\u3000startpos\r", "fen x../.o./... moves c3", ""] :=
        .single (.remove ["", "\u3000startpos\r"] _ hcomment)
      Relation.ReflTransGen Edit _ ["", "\u3000startpos\r", "fen x../.o./... moves c3"] :=
        .single (.remove ["", "\u3000startpos\r", "fen x../.o./... moves c3"] [] hblank)
  obtain ⟨-, hread, hsame, -⟩ := comments_and_blanks_ignored commentedText
  have hopenings : ofText commentedText =
      .ok [⟨none, []⟩, ⟨some "x../.o./...", ["c3"]⟩] := by
    rw [hread, hlines]
    exact .cons rfl (.cons rfl .nil)
  exact ⟨hedits, hopenings, (hsame respacedText hedits _).mpr hopenings⟩

end SelfPlay.Openings
