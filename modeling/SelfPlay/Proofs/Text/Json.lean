import Mathlib.Data.List.Basic
import SelfPlay.Proofs.Text.Numeral
import SelfPlay.Text.Json

/-!
# What JSON values are written with

A number, a truth value or `null` is a word of letters, digits, points and signs of numbers. No value
holds a control character: those of a text are escaped. So a value never runs over the end of its
line.
-/

namespace SelfPlay.Text

open SelfPlay.Numeric

/-- Each character is one of those that are allowed. -/
def ConsistsOf (allowed : Char → Bool) (text : List Char) : Prop := ∀ c ∈ text, allowed c = true

instance (allowed : Char → Bool) (text : List Char) : Decidable (ConsistsOf allowed text) :=
  List.decidableBAll _ _

namespace ConsistsOf

variable {allowed : Char → Bool} {text other : List Char} {c : Char}

theorem nil : ConsistsOf allowed [] := fun _ hmem => absurd hmem List.not_mem_nil

theorem cons (hc : allowed c = true) (h : ConsistsOf allowed text) :
    ConsistsOf allowed (c :: text) :=
  List.forall_mem_cons.mpr ⟨hc, h⟩

theorem append (h : ConsistsOf allowed text) (hother : ConsistsOf allowed other) :
    ConsistsOf allowed (text ++ other) :=
  List.forall_mem_append.mpr ⟨h, hother⟩

theorem ite {p : Prop} [Decidable p] (h : ConsistsOf allowed text)
    (hother : ConsistsOf allowed other) : ConsistsOf allowed (if p then text else other) := by
  split
  · exact h
  · exact hother

theorem of_subset (h : ConsistsOf allowed text) (hsubset : other ⊆ text) :
    ConsistsOf allowed other :=
  fun c hmem => h c (hsubset hmem)

theorem imp (h : ConsistsOf allowed text) {more : Char → Bool}
    (himp : ∀ c, allowed c = true → more c = true) : ConsistsOf more text :=
  fun c hmem => himp c (h c hmem)

theorem intercalate {separator : List Char} (hseparator : ConsistsOf allowed separator)
    {texts : List (List Char)} (htexts : ∀ text ∈ texts, ConsistsOf allowed text) :
    ConsistsOf allowed (separator.intercalate texts) := by
  induction texts with
  | nil => exact nil
  | cons text rest ih =>
    obtain ⟨htext, hrest⟩ := List.forall_mem_cons.mp htexts
    cases rest with
    | nil => simpa [List.intercalate] using htext
    | cons next rest =>
      rw [List.intercalate_cons_cons]
      exact (htext.append hseparator).append (ih hrest)

end ConsistsOf

/-! ## Words -/

/-- Whether a character can stand in a number, a truth value or `null`. -/
def isWordChar (c : Char) : Bool := c.isAlphanum || c = '.' || c = '-' || c = '+'

/-- Something is written, and nothing but what can stand in a number, a truth value or `null`. -/
structure IsScalar (text : List Char) : Prop where
  ne_nil : text ≠ []
  chars : ConsistsOf isWordChar text

namespace IsScalar

variable {text other : List Char} {c : Char}

theorem cons (hc : isWordChar c = true) (h : ConsistsOf isWordChar text) : IsScalar (c :: text) :=
  ⟨List.cons_ne_nil _ _, h.cons hc⟩

theorem append (h : IsScalar text) (hother : ConsistsOf isWordChar other) :
    IsScalar (text ++ other) :=
  ⟨List.append_ne_nil_of_left_ne_nil h.ne_nil _, h.chars.append hother⟩

theorem prepend (h : IsScalar text) (hother : ConsistsOf isWordChar other) :
    IsScalar (other ++ text) :=
  ⟨List.append_ne_nil_of_right_ne_nil _ h.ne_nil, hother.append h.chars⟩

theorem ite {p : Prop} [Decidable p] (h : IsScalar text) (hother : IsScalar other) :
    IsScalar (if p then text else other) := by
  split
  · exact h
  · exact hother

end IsScalar

theorem isWordChar_of_isDigit {c : Char} (h : c.isDigit = true) : isWordChar c = true := by
  simp [isWordChar, Char.isAlphanum, h]

theorem isScalar_toDigits (n : Nat) : IsScalar (Nat.toDigits 10 n) :=
  ⟨Nat.toDigits_ne_nil, fun _ hmem => isWordChar_of_isDigit (isDigit_of_mem_toDigits hmem)⟩

theorem isScalar_ofNat (n : Nat) : IsScalar (ofNat n).toList := by
  rw [ofNat, String.toList_ofList]
  exact isScalar_toDigits n

theorem isScalar_ofInt (n : Int) : IsScalar (ofInt n).toList := by
  unfold ofInt
  split
  · rw [String.toList_append]
    exact (isScalar_ofNat _).prepend (.cons (by decide) .nil)
  · exact isScalar_ofNat _

theorem isScalar_unsigned {layout : DecimalLayout} (hplus : ConsistsOf isWordChar layout.plus)
    (decimal : Decimal) : IsScalar (layout.unsigned decimal) := by
  have hdigits := isScalar_toDigits decimal.digits
  have hzeros (n : Nat) : ConsistsOf isWordChar (List.replicate n '0') := by
    intro c hmem
    obtain ⟨-, rfl⟩ := List.mem_replicate.mp hmem
    decide
  unfold DecimalLayout.unsigned
  generalize Nat.toDigits 10 decimal.digits = digits at hdigits ⊢
  refine .ite (.ite ?_ (.ite ?_ ?_)) ?_
  · exact (hdigits.append (hzeros _)).append (.ite (by decide) (by decide))
  · exact .prepend (.cons (by decide) (hdigits.chars.of_subset (List.drop_subset _ _)))
      (hdigits.chars.of_subset (List.take_subset _ _))
  · exact hdigits.prepend (.cons (by decide) (.cons (by decide) (hzeros _)))
  · refine .prepend (isScalar_toDigits _) (.append ?_ (.cons (by decide) (.ite (by decide) hplus)))
    split
    · rename_i first second rest
      obtain ⟨hfirst, hrest⟩ := List.forall_mem_cons.mp hdigits.chars
      exact .cons hfirst (.cons (by decide) hrest)
    · exact hdigits.chars

theorem isScalar_finite {layout : DecimalLayout} (hplus : ConsistsOf isWordChar layout.plus)
    (format : BinaryFormat) (negative : Bool) (code : Nat) :
    IsScalar (layout.finite format negative code).toList := by
  unfold DecimalLayout.finite
  rw [String.toList_ofList]
  exact .ite (.cons (by decide) (isScalar_unsigned hplus _).chars) (isScalar_unsigned hplus _)

theorem isScalar_ofBool (value : Bool) : IsScalar (ofBool value).toList := by
  cases value <;> exact ⟨by decide, by decide⟩

namespace Json

theorem isScalar_ofSingle (x : Binary32) : IsScalar (ofSingle x).toList := by
  unfold ofSingle
  split
  · exact ⟨by decide, by decide⟩
  · exact isScalar_finite (by decide) _ _ _

theorem isScalar_ofDouble (negative : Bool) (code : Nat) :
    IsScalar (ofDouble negative code).toList := by
  unfold ofDouble
  split
  · exact ⟨by decide, by decide⟩
  · exact isScalar_finite (by decide) _ _ _

end Json

/-! ## Lines -/

/-- Whether a character is not a control character. -/
def isPrintable (c : Char) : Bool := 0x20 ≤ c.toNat

theorem isPrintable_of_isWordChar {c : Char} (h : isWordChar c = true) : isPrintable c = true := by
  have hcontrol : ∀ n < 0x20, isWordChar (Char.ofNat n) = false := by decide
  refine decide_eq_true (Nat.le_of_not_lt fun hlow => ?_)
  have hnone := hcontrol c.toNat hlow
  rw [Char.ofNat_toNat, h] at hnone
  cases hnone

theorem IsScalar.isPrintable {text : List Char} (h : IsScalar text) : ConsistsOf isPrintable text :=
  h.chars.imp fun _ => isPrintable_of_isWordChar

namespace Json

theorem isPrintable_escapeChar (c : Char) : ConsistsOf isPrintable (escapeChar c) := by
  have hdigit : ∀ n < 16, isPrintable (Nat.digitChar n) = true := by decide
  unfold escapeChar
  refine .ite (by decide) (.ite (by decide) (.ite (by decide) (.ite (by decide) (.ite (by decide)
    (.ite (by decide) (.ite (by decide) ?_))))))
  split
  · have hhigh := hdigit (c.toNat / 16) (by omega)
    have hlow := hdigit (c.toNat % 16) (Nat.mod_lt _ (by decide))
    exact .append (by decide) (.cons hhigh (.cons hlow .nil))
  · rename_i hplain
    exact .cons (decide_eq_true (Nat.le_of_not_lt hplain)) .nil

theorem isPrintable_quote (value : String) : ConsistsOf isPrintable (quote value).toList := by
  unfold quote
  rw [String.toList_ofList]
  refine .cons (by decide) (.append ?_ (.cons (by decide) .nil))
  intro c hmem
  obtain ⟨original, -, hc⟩ := List.mem_flatMap.mp hmem
  exact isPrintable_escapeChar original c hc

mutual

/-- **A rendered value holds no control character**, so it stands on one line. -/
theorem isPrintable_render : ∀ json : Json, ConsistsOf isPrintable json.render.toList
  | .null => by
    unfold render
    decide
  | .bool value => by
    unfold render
    exact (isScalar_ofBool value).isPrintable
  | .int value => by
    unfold render
    exact (isScalar_ofInt value).isPrintable
  | .single value => by
    unfold render
    exact (isScalar_ofSingle value).isPrintable
  | .double negative code => by
    unfold render
    exact (isScalar_ofDouble negative code).isPrintable
  | .text value => by
    unfold render
    exact isPrintable_quote value
  | .list values => by
    unfold render
    rw [String.toList_append, String.toList_append, String.toList_intercalate]
    refine .append (.append (by decide) (.intercalate (by decide) ?_)) (by decide)
    exact List.forall_mem_map.mpr (isPrintable_renderAll values)
  | .object fields => by
    unfold render
    rw [String.toList_append, String.toList_append, String.toList_intercalate]
    refine .append (.append (by decide) (.intercalate (by decide) ?_)) (by decide)
    exact List.forall_mem_map.mpr (isPrintable_renderFields fields)

theorem isPrintable_renderAll : ∀ values : List Json,
    ∀ text ∈ renderAll values, ConsistsOf isPrintable text.toList
  | [] => fun _ hmem => absurd hmem (by simp [renderAll])
  | value :: rest => by
    rw [renderAll]
    exact List.forall_mem_cons.mpr ⟨isPrintable_render value, isPrintable_renderAll rest⟩

theorem isPrintable_renderFields : ∀ fields : List (String × Json),
    ∀ text ∈ renderFields fields, ConsistsOf isPrintable text.toList
  | [] => fun _ hmem => absurd hmem (by simp [renderFields])
  | (name, value) :: rest => by
    rw [renderFields]
    refine List.forall_mem_cons.mpr ⟨?_, isPrintable_renderFields rest⟩
    rw [String.toList_append, String.toList_append]
    exact ((isPrintable_quote name).append (by decide)).append (isPrintable_render value)

end

end Json

end SelfPlay.Text
