import Mathlib.Data.List.Forall2
import SelfPlay.Proofs.Text.Pieces
import SelfPlay.Text.Utf8

/-!
# Lines of a text and of its bytes

Content is cut into lines as bytes, before anything is known about its characters. For a text this
makes no difference: all bytes of a character that is not ASCII are high, so a line feed or a
carriage return among the bytes is one of the text. The lines of the bytes are therefore the pieces
of the text between line feeds, without the carriage returns before these and without an empty piece
at the end. Put before all line feeds of a text, carriage returns stand at the ends of its pieces.
-/

namespace SelfPlay.Text

/-- The bytes of characters. -/
def encode (text : List Char) : List UInt8 := text.flatMap String.utf8EncodeChar

theorem encode_append (text rest : List Char) :
    encode (text ++ rest) = encode text ++ encode rest := List.flatMap_append

theorem toUtf8_eq_encode (text : String) : toUtf8 text = encode text.toList := by
  have hbytes : text.toByteArray = (encode text.toList).toByteArray := by
    calc text.toByteArray = (String.ofList text.toList).toByteArray := by rw [String.ofList_toList]
      _ = (encode text.toList).toByteArray := String.toByteArray_ofList
  unfold toUtf8
  rw [String.toUTF8_eq_toByteArray, hbytes, List.data_toByteArray]

theorem ofUtf8?_encode (text : List Char) : ofUtf8? (encode text) = some (String.ofList text) := by
  have hbytes : (⟨(encode text).toArray⟩ : ByteArray) = (String.ofList text).toByteArray := by
    rw [String.toByteArray_ofList]
    exact ByteArray.ext List.data_toByteArray.symm
  unfold ofUtf8? String.fromUTF8?
  rw [hbytes, dif_pos (String.ofList text).isValidUTF8]
  rfl

/-! ## ASCII among the bytes -/

/-- A character is a byte by itself or is written in high bytes. -/
theorem encodeChar_cases (c : Char) :
    String.utf8EncodeChar c = [UInt8.ofNat c.toNat] ∧ c.toNat < 0x80 ∨
      ∀ byte ∈ String.utf8EncodeChar c, 0x80 ≤ byte.toNat := by
  have hhigh (n : Nat) (hlow : 0x80 ≤ n) (hn : n < 0x100) : 0x80 ≤ (UInt8.ofNat n).toNat := by
    rw [UInt8.toNat_ofNat_of_lt' hn]
    exact hlow
  have htoNat : c.toNat = c.val.toNat := rfl
  unfold String.utf8EncodeChar
  simp only
  split
  · exact Or.inl ⟨rfl, by omega⟩
  · right
    split
    · simp only [List.forall_mem_cons]
      exact ⟨hhigh _ (by omega) (by omega), hhigh _ (by omega) (by omega), List.forall_mem_nil _⟩
    · split
      · simp only [List.forall_mem_cons]
        exact ⟨hhigh _ (by omega) (by omega), hhigh _ (by omega) (by omega),
          hhigh _ (by omega) (by omega), List.forall_mem_nil _⟩
      · simp only [List.forall_mem_cons]
        exact ⟨hhigh _ (by omega) (by omega), hhigh _ (by omega) (by omega),
          hhigh _ (by omega) (by omega), hhigh _ (by omega) (by omega), List.forall_mem_nil _⟩

/-- The byte of an ASCII character stands for nothing else. -/
theorem eq_of_mem_encodeChar {c : Char} (ascii : Char) (hascii : ascii.toNat < 0x80)
    (h : UInt8.ofNat ascii.toNat ∈ String.utf8EncodeChar c) : c = ascii := by
  have hbyte : (UInt8.ofNat ascii.toNat).toNat = ascii.toNat :=
    UInt8.toNat_ofNat_of_lt' (show ascii.toNat < 0x100 by omega)
  rcases encodeChar_cases c with ⟨hone, hc⟩ | hhigh
  · rw [hone, List.mem_singleton] at h
    have hsame := congrArg UInt8.toNat h
    rw [hbyte, UInt8.toNat_ofNat_of_lt' (show c.toNat < 0x100 by omega)] at hsame
    exact Char.toNat_inj.mp hsame.symm
  · have hlow := hhigh _ h
    omega

theorem feed_notMem_encode {line : List Char} (h : '\n' ∉ line) : 0x0A ∉ encode line := by
  intro hmem
  obtain ⟨c, hc, hbyte⟩ := List.mem_flatMap.mp hmem
  exact h (eq_of_mem_encodeChar '\n' (by decide) hbyte ▸ hc)

/-! ## Cutting bytes at line feeds -/

/-- A line without the carriage return that it may end in. -/
def withoutReturn (line : List Char) : List Char :=
  if line.getLast? = some '\r' then line.dropLast else line

theorem withoutReturn_concat (line : List Char) (c : Char) :
    withoutReturn (line ++ [c]) = if c = '\r' then line else line ++ [c] := by
  simp [withoutReturn]

/-- The lines that pieces between line feeds make: nothing stands behind a line feed at the end, and
a carriage return before a line feed belongs to the line's end. -/
def ended : List (List Char) → List (List Char)
  | [] => []
  | [last] => if last.isEmpty then [] else [last]
  | line :: next :: rest => withoutReturn line :: ended (next :: rest)

/-- Bytes that hold no line feed are collected. -/
theorem byteLines_go_append {bytes : List UInt8} (h : 0x0A ∉ bytes) (line rest : List UInt8) :
    byteLines.go line (bytes ++ rest) = byteLines.go (bytes.reverse ++ line) rest := by
  induction bytes generalizing line with
  | nil => rfl
  | cons byte bytes ih =>
    have hbyte : ¬byte = 0x0A := Ne.symm (List.ne_of_not_mem_cons h)
    have hgo : byteLines.go line (byte :: (bytes ++ rest)) =
        byteLines.go (byte :: line) (bytes ++ rest) := by
      cases line <;> rw [byteLines.go, if_neg hbyte]
    rw [List.cons_append, hgo, ih (List.not_mem_of_not_mem_cons h), List.reverse_cons,
      List.append_assoc, List.singleton_append]

/-- A line feed ends the line that was collected. -/
theorem byteLines_go_feed (line : List Char) (rest : List UInt8) :
    byteLines.go (encode line).reverse (0x0A :: rest) =
      encode (withoutReturn line) :: byteLines.go [] rest := by
  rcases List.eq_nil_or_concat line with rfl | ⟨before, c, rfl⟩
  · rfl
  · have hone : encode [c] = String.utf8EncodeChar c := List.append_nil _
    rw [List.concat_eq_append, withoutReturn_concat, encode_append, List.reverse_append, hone]
    by_cases hreturn : c = '\r'
    · subst hreturn
      change byteLines.go (0x0D :: (encode before).reverse) (0x0A :: rest) = _
      rw [byteLines.go, if_pos rfl, if_pos rfl, if_pos rfl]
      exact congrArg (· :: byteLines.go [] rest) (List.reverse_reverse _)
    · rw [if_neg hreturn]
      cases hreversed : (String.utf8EncodeChar c).reverse with
      | nil => exact absurd (List.reverse_eq_nil_iff.mp hreversed) String.utf8EncodeChar_ne_nil
      | cons last others =>
        have hmem : last ∈ String.utf8EncodeChar c :=
          List.mem_reverse.mp (hreversed ▸ List.mem_cons_self)
        have hlast : ¬last = 0x0D := by
          rintro rfl
          exact hreturn (eq_of_mem_encodeChar '\r' (by decide) hmem)
        rw [List.cons_append, byteLines.go, if_pos rfl, if_neg hlast, ← List.cons_append,
          ← hreversed, ← List.reverse_append, encode_append, hone]
        exact congrArg (· :: byteLines.go [] rest) (List.reverse_reverse _)

/-- Lines with line feeds between them are cut there again. -/
theorem byteLines_intercalate {lines : List (List Char)} (h : ∀ line ∈ lines, '\n' ∉ line) :
    byteLines (encode (['\n'].intercalate lines)) = (ended lines).map encode := by
  unfold byteLines
  induction lines with
  | nil => rfl
  | cons line rest ih =>
    obtain ⟨hline, hrest⟩ := List.forall_mem_cons.mp h
    cases rest with
    | nil =>
      rw [List.intercalate_singleton, ← List.append_nil (encode line),
        byteLines_go_append (feed_notMem_encode hline), List.append_nil, byteLines.go, ended]
      cases line with
      | nil => rfl
      | cons c line =>
        have hne : encode (c :: line) ≠ [] := fun hnil =>
          String.utf8EncodeChar_ne_nil (List.append_eq_nil_iff.mp hnil).1
        rw [if_neg (by simpa using hne), if_neg (by simp), List.reverse_reverse]
        rfl
    | cons next rest =>
      have hfeed : encode ['\n'] = [0x0A] := rfl
      rw [List.intercalate_cons_cons, encode_append, encode_append, List.append_assoc, hfeed,
        byteLines_go_append (feed_notMem_encode hline), List.append_nil, List.singleton_append,
        byteLines_go_feed, ih hrest]
      rfl

/-- **Lines of a text's bytes are lines of the text**, and every one of them is text. -/
theorem ofUtf8?_byteLines (text : String) :
    (byteLines (toUtf8 text)).map ofUtf8? =
      (ended (pieces (· = '\n') text.toList)).map fun line => some (String.ofList line) := by
  have hpieces : ∀ line ∈ pieces (· = '\n') text.toList, '\n' ∉ line := fun line hmem hfeed => by
    simpa using not_separates_of_mem_pieces hmem '\n' hfeed
  rw [toUtf8_eq_encode, ← intercalate_pieces '\n' text.toList, byteLines_intercalate hpieces,
    intercalate_pieces, List.map_map]
  exact List.map_congr_left fun line _ => ofUtf8?_encode line

/-! ## Carriage returns before line feeds -/

/-- A carriage return before each line feed. -/
def returned (text : List Char) : List Char :=
  text.flatMap fun c => if c = '\n' then ['\r', '\n'] else [c]

/-- The text with a carriage return before each line feed. -/
def withReturns (text : String) : String := String.ofList (returned text.toList)

/-- A carriage return at the end of a line is trimmed off. -/
theorem trim_append_return (line : List Char) : trim (line ++ ['\r']) = trim line :=
  trim_append_of_blank line (List.forall_mem_singleton.mpr rfl)

theorem pieces_cons_of_not_separates {separates : Char → Bool} {c : Char} {rest piece : List Char}
    {others : List (List Char)} (hc : separates c = false)
    (h : pieces separates rest = piece :: others) :
    pieces separates (c :: rest) = (c :: piece) :: others := by
  rw [pieces, h]
  simp [hc]

/-- Carriage returns before line feeds end up at the ends of lines. -/
theorem pieces_returned (text : List Char) :
    List.Forall₂ (fun line other => line = other ∨ line = other ++ ['\r'])
      (pieces (· = '\n') (returned text)) (pieces (· = '\n') text) := by
  induction text with
  | nil => exact .cons (Or.inl rfl) .nil
  | cons c rest ih =>
    by_cases hc : c = '\n'
    · subst hc
      have hreturned : returned ('\n' :: rest) = ['\r'] ++ '\n' :: returned rest := rfl
      have hreturn : ∀ d ∈ ['\r'], decide (d = '\n') = false := List.forall_mem_singleton.mpr rfl
      rw [hreturned, ← List.nil_append ('\n' :: rest),
        pieces_append_cons hreturn rfl (returned rest),
        pieces_append_cons (List.forall_mem_nil _) rfl rest]
      exact .cons (Or.inr rfl) ih
    · have hreturned : returned (c :: rest) = c :: returned rest := by
        unfold returned
        rw [List.flatMap_cons, if_neg hc, List.singleton_append]
      rw [hreturned]
      obtain ⟨line, lines, hline⟩ := List.exists_cons_of_ne_nil
        (pieces_ne_nil (· = '\n') (returned rest))
      obtain ⟨other, others, hother⟩ := List.exists_cons_of_ne_nil (pieces_ne_nil (· = '\n') rest)
      rw [hline, hother, List.forall₂_cons] at ih
      rw [pieces_cons_of_not_separates (decide_eq_false hc) hline,
        pieces_cons_of_not_separates (decide_eq_false hc) hother, List.forall₂_cons]
      refine ⟨?_, ih.2⟩
      rcases ih.1 with rfl | rfl
      · exact Or.inl rfl
      · exact Or.inr rfl

end SelfPlay.Text
