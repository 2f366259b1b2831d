import SelfPlay.Text.Numeral
import SelfPlay.Proofs.Text.Pieces

/-!
# Numerals and truth values read back

Decimal digits read as the number that they are the digits of, and what is written as an option
value reads as the value again, with nothing to trim.
-/

namespace SelfPlay.Text

theorem isDigit_iff (c : Char) : c.isDigit = true ↔ 48 ≤ c.toNat ∧ c.toNat ≤ 57 := by
  rw [Char.isDigit, Bool.and_eq_true, decide_eq_true_eq, decide_eq_true_eq]
  rfl

theorem digit?_of_isDigit {c : Char} (h : c.isDigit = true) :
    digit? c = some (c.toNat - '0'.toNat) :=
  if_pos ((isDigit_iff c).mp h)

theorem isBlank_of_isDigit {c : Char} (h : c.isDigit = true) : isBlank c = false := by
  have hrange := (isDigit_iff c).mp h
  rw [isBlank, List.any_eq_false]
  intro range hmem
  rw [blankRanges] at hmem
  simp only [List.mem_cons, List.not_mem_nil, or_false] at hmem
  rw [Bool.and_eq_true, decide_eq_true_eq, decide_eq_true_eq]
  rcases hmem with rfl | rfl | rfl | rfl | rfl | rfl | rfl | rfl | rfl | rfl <;> simp only <;> omega

/-! ## Digits -/

theorem digitsOnto?_of_isDigit {text : List Char} (h : ∀ c ∈ text, c.isDigit = true) (value : Nat) :
    digitsOnto? value text = some (Nat.ofDigitChars 10 text value) := by
  induction text generalizing value with
  | nil => rfl
  | cons c rest ih =>
    obtain ⟨hc, hrest⟩ := List.forall_mem_cons.mp h
    rw [digitsOnto?, digit?_of_isDigit hc, Option.bind_some, ih hrest, Nat.ofDigitChars_cons]

theorem digits?_of_isDigit {text : List Char} (hne : text ≠ []) (h : ∀ c ∈ text, c.isDigit = true) :
    digits? text = some (Nat.ofDigitChars 10 text 0) := by
  cases text with
  | nil => exact absurd rfl hne
  | cons c rest => exact digitsOnto?_of_isDigit h 0

theorem isDigit_of_mem_toDigits {n : Nat} {c : Char} (h : c ∈ Nat.toDigits 10 n) :
    c.isDigit = true :=
  Nat.isDigit_of_mem_toDigits (by decide) (by decide) h

/-! ## Option values -/

theorem trim_ofNat (n : Nat) : trim (ofNat n).toList = Nat.toDigits 10 n := by
  rw [ofNat, String.toList_ofList]
  exact trim_of_forall fun c hc => isBlank_of_isDigit (isDigit_of_mem_toDigits hc)

/-- The digits of a number that is in range read as the number. -/
theorem natural?_toDigits {bound n : Nat} (h : n < bound) :
    natural? bound (Nat.toDigits 10 n) = some n := by
  have hplain : ∀ rest : List Char, Nat.toDigits 10 n ≠ '+' :: rest := by
    intro rest hrest
    have hplus : '+' ∈ Nat.toDigits 10 n := by rw [hrest]; exact List.mem_cons_self
    exact absurd (isDigit_of_mem_toDigits hplus) (by decide)
  have hdigits : digits? (Nat.toDigits 10 n) = some n := by
    rw [digits?_of_isDigit Nat.toDigits_ne_nil fun c => isDigit_of_mem_toDigits,
      Nat.ofDigitChars_ten_toDigits]
  unfold natural?
  split
  · rename_i rest hrest
    exact absurd hrest (hplain rest)
  · simp only [hdigits, Option.bind_some, if_pos h]

theorem trim_ofBool (b : Bool) : trim (ofBool b).toList = (ofBool b).toList := by
  cases b <;> decide

theorem truth?_ofBool (b : Bool) : truth? (ofBool b).toList = some b := by
  cases b <;> decide

end SelfPlay.Text
