import SelfPlay.Options.Dict
import SelfPlay.Proofs.Numeric.Order
import SelfPlay.Proofs.Numeric.Shortest
import SelfPlay.Proofs.Text.Numeral

/-!
# Numbers written as option values read back

Without exponent a decimal is its digits, with zeros after them or a point before some of them; read
again it is the same decimal, or for a whole number the one with its zeros among the digits. As the
shortest decimal of a number rounds to this number, so does its text.
-/

namespace SelfPlay.Numeric

open SelfPlay.Text (digit? digits? isBlank trim trim_of_forall digits?_of_isDigit
  digit?_of_isDigit isDigit_iff isDigit_of_mem_toDigits isBlank_of_isDigit)

/-- Digits with or without a point among them, the number that all digits are of, and the power of
ten of the last one. -/
inductive IsPositional : List Char → Nat → Int → Prop where
  | whole (digits : List Char) (filled : digits ≠ []) (plain : ∀ c ∈ digits, c.isDigit = true) :
    IsPositional digits (Nat.ofDigitChars 10 digits 0) 0
  | point (whole fraction : List Char) (filled : whole ≠ [])
    (plain : ∀ c ∈ whole ++ fraction, c.isDigit = true) :
    IsPositional (whole ++ '.' :: fraction) (Nat.ofDigitChars 10 (whole ++ fraction) 0)
      (-(fraction.length : Int))

namespace IsPositional

variable {text : List Char} {digits : Nat} {exponent : Int}

/-- Nothing that is written is a blank. -/
theorem isBlank_eq_false (h : IsPositional text digits exponent) {c : Char} (hc : c ∈ text) :
    isBlank c = false := by
  cases h with
  | whole _ _ plain => exact isBlank_of_isDigit (plain c hc)
  | point _ _ _ plain =>
    rcases List.mem_append.mp hc with hwhole | hrest
    · exact isBlank_of_isDigit (plain c (List.mem_append_left _ hwhole))
    · rcases List.mem_cons.mp hrest with rfl | hfraction
      · decide
      · exact isBlank_of_isDigit (plain c (List.mem_append_right _ hfraction))

/-- A digit comes first, so the text has no sign and is no word. -/
theorem exists_eq_cons (h : IsPositional text digits exponent) :
    ∃ c rest, text = c :: rest ∧ c.isDigit = true := by
  cases h with
  | whole _ filled plain =>
    obtain ⟨c, rest, rfl⟩ := List.exists_cons_of_ne_nil filled
    exact ⟨c, rest, rfl, plain c List.mem_cons_self⟩
  | point _ _ filled plain =>
    obtain ⟨c, rest, rfl⟩ := List.exists_cons_of_ne_nil filled
    exact ⟨c, _, rfl, plain c List.mem_cons_self⟩

/-- The digits in front of a point, or all of them. -/
theorem takeWhile_dropWhile {whole : List Char} (plain : ∀ c ∈ whole, c.isDigit = true)
    (rest : List Char) (hrest : ∀ c ∈ rest.head?, c = '.') :
    (whole ++ rest).takeWhile (fun c => (digit? c).isSome) = whole ∧
      (whole ++ rest).dropWhile (fun c => (digit? c).isSome) = rest := by
  have hdigits : ∀ c ∈ whole, (digit? c).isSome = true := fun c hc => by
    rw [digit?_of_isDigit (plain c hc), Option.isSome_some]
  rw [List.takeWhile_append_of_pos hdigits, List.dropWhile_append_of_pos hdigits]
  cases rest with
  | nil => exact ⟨List.append_nil whole, rfl⟩
  | cons c rest =>
    obtain rfl := hrest c rfl
    exact ⟨List.append_nil whole, rfl⟩

theorem unsigned?_eq (h : IsPositional text digits exponent) :
    WrittenNumber.unsigned? text = some (digits, exponent) := by
  cases h with
  | whole _ filled plain =>
    obtain ⟨htake, hdrop⟩ := takeWhile_dropWhile plain [] fun c hc => by cases hc
    rw [List.append_nil] at htake hdrop
    unfold WrittenNumber.unsigned?
    simp only [htake, hdrop, List.append_nil, digits?_of_isDigit filled plain, Option.bind_some]
    rfl
  | point whole fraction filled plain =>
    obtain ⟨hwhole, hfraction⟩ := List.forall_mem_append.mp plain
    obtain ⟨htake, hdrop⟩ := takeWhile_dropWhile hwhole ('.' :: fraction) fun c hc => by
      cases hc
      rfl
    obtain ⟨htakeRest, hdropRest⟩ := takeWhile_dropWhile hfraction [] fun c hc => by cases hc
    rw [List.append_nil] at htakeRest hdropRest
    unfold WrittenNumber.unsigned?
    simp only [htake, hdrop, htakeRest, hdropRest,
      digits?_of_isDigit (List.append_ne_nil_of_left_ne_nil filled fraction) plain,
      Option.bind_some]

end IsPositional

/-- An option value's text has all digits of its decimal, and those of a whole number its zeros
too. -/
theorem isPositional_unsigned (decimal : Decimal) :
    IsPositional (OptionsDict.numberLayout.unsigned decimal) decimal.expanded.digits
      decimal.expanded.exponent := by
  have hzeros (n : Nat) : ∀ c ∈ List.replicate n '0', c.isDigit = true := by
    intro c hc
    rw [List.eq_of_mem_replicate hc]
    decide
  have hdigits : ∀ c ∈ Nat.toDigits 10 decimal.digits, c.isDigit = true := fun c =>
    isDigit_of_mem_toDigits
  have hvalue : Nat.ofDigitChars 10 (Nat.toDigits 10 decimal.digits) 0 = decimal.digits :=
    Nat.ofDigitChars_ten_toDigits
  have hlength : 0 < (Nat.toDigits 10 decimal.digits).length := Nat.length_toDigits_pos
  simp only [Decimal.expanded, DecimalLayout.unsigned, OptionsDict.numberLayout, if_true,
    Bool.false_eq_true, if_false, List.append_nil]
  generalize Nat.toDigits 10 decimal.digits = digits at *
  rcases Int.lt_or_le decimal.exponent 0 with hneg | hnonneg
  · rw [if_neg (by omega), Int.min_eq_left hneg.le, Int.toNat_of_nonpos hneg.le, Nat.pow_zero,
      Nat.mul_one]
    split
    · -- The point stands among the digits.
      generalize hsplit : (decimal.exponent + digits.length - 1 + 1).toNat = places
      have hexponent : -((digits.drop places).length : Int) = decimal.exponent := by
        rw [List.length_drop]
        omega
      have hfilled : digits.take places ≠ [] := by
        rw [← List.length_pos_iff, List.length_take]
        omega
      have htext := IsPositional.point (digits.take places) (digits.drop places) hfilled
        (by rwa [List.take_append_drop])
      rwa [List.take_append_drop, hvalue, hexponent] at htext
    · -- A zero and the point stand in front of the digits.
      generalize hpad : (-(decimal.exponent + digits.length - 1) - 1).toNat = zeros
      have hexponent : -((List.replicate zeros '0' ++ digits).length : Int) = decimal.exponent := by
        rw [List.length_append, List.length_replicate]
        omega
      have hpadded : Nat.ofDigitChars 10 (['0'] ++ (List.replicate zeros '0' ++ digits)) 0 =
          decimal.digits := by
        rw [← List.append_assoc, ← List.replicate_one, List.replicate_append_replicate,
          Nat.ofDigitChars_append, Nat.ofDigitChars_replicate_zero, Nat.mul_zero, hvalue]
      have htext := IsPositional.point ['0'] (List.replicate zeros '0' ++ digits) (by decide)
        (List.forall_mem_append.mpr
          ⟨hzeros 1, List.forall_mem_append.mpr ⟨hzeros zeros, hdigits⟩⟩)
      rw [hpadded, hexponent] at htext
      exact htext
  · rw [if_pos hnonneg, Int.min_eq_right hnonneg]
    have htext := IsPositional.whole (digits ++ List.replicate decimal.exponent.toNat '0')
      (List.append_ne_nil_of_left_ne_nil (List.length_pos_iff.mp hlength) _)
      (List.forall_mem_append.mpr ⟨hdigits, hzeros _⟩)
    rwa [Nat.ofDigitChars_append, hvalue, Nat.ofDigitChars_replicate_zero, Nat.mul_comm] at htext

theorem toLower_of_isDigit {c : Char} (h : c.isDigit = true) : c.toLower = c := by
  refine dif_neg fun hupper => ?_
  have hrange := (isDigit_iff c).mp h
  have hlow : 65 ≤ c.toNat := hupper.1
  omega

/-- Signed digits are no word, whatever the sign. -/
theorem IsPositional.ofText?_eq {text : List Char} {digits : Nat} {exponent : Int}
    (h : IsPositional text digits exponent) (negative : Bool) :
    WrittenNumber.ofText? (if negative then '-' :: text else text) =
      some (.finite negative digits exponent) := by
  obtain ⟨c, rest, hcons, hdigit⟩ := h.exists_eq_cons
  have hsigns : c ≠ '-' ∧ c ≠ '+' := by
    constructor <;> rintro rfl <;> exact absurd hdigit (by decide)
  have hword (word : String) (hletter : word.toList.head?.any Char.isDigit = false) :
      text.map Char.toLower ≠ word.toList := by
    rw [hcons, List.map_cons, toLower_of_isDigit hdigit]
    intro heq
    rw [← heq, List.head?_cons, Option.any_some, hdigit] at hletter
    cases hletter
  have hbody : (if text.map Char.toLower = "nan".toList then some WrittenNumber.nan
      else if text.map Char.toLower = "inf".toList ∨ text.map Char.toLower = "infinity".toList then
        some (.infinite negative)
      else (WrittenNumber.unsigned? text).map fun (digits, exponent) =>
        .finite negative digits exponent) = some (.finite negative digits exponent) := by
    rw [if_neg (hword "nan" (by decide)), if_neg, h.unsigned?_eq, Option.map_some]
    rintro (hinf | hinfinity)
    · exact hword "inf" (by decide) hinf
    · exact hword "infinity" (by decide) hinfinity
  cases negative with
  | true => exact hbody
  | false =>
    rw [if_neg (by decide)]
    unfold WrittenNumber.ofText?
    split
    rename_i negative body hsplit
    split at hsplit
    · exact absurd (List.cons.inj hcons).1.symm hsigns.1
    · exact absurd (List.cons.inj hcons).1.symm hsigns.2
    · obtain ⟨rfl, rfl⟩ := Prod.mk.inj hsplit
      exact hbody

namespace Binary32

theorem ofCode_negative_code (x : Binary32) : ofCode x.negative x.code = x := by
  have hbits : (ofCode x.negative x.code).bits.toNat = x.bits.toNat := by
    rw [bits_ofCode _ x.code_lt]
    have hword := x.bits.toNat_lt
    unfold code negative signBit
    split
    · rename_i hnegative
      rw [decide_eq_true_eq] at hnegative
      omega
    · rename_i hpositive
      rw [decide_eq_true_eq] at hpositive
      omega
  obtain ⟨bits⟩ := x
  exact congrArg Binary32.mk (UInt32.toNat_inj.mp hbits)

/-- The decimal that is written for a finite code is read as this code. -/
theorem nearestDecimal_written {code : Nat} (hfinite : code < BinaryFormat.single.infinityCode) :
    let decimal : Decimal :=
      if code = 0 then ⟨0, 0⟩ else BinaryFormat.single.shortest OptionsDict.numberLayout.tie code
    BinaryFormat.single.nearestDecimal decimal.expanded.digits decimal.expanded.exponent = code := by
  intro decimal
  by_cases hzero : code = 0
  · subst hzero
    rfl
  · have hdecimal : decimal =
        BinaryFormat.single.shortest OptionsDict.numberLayout.tie code := if_neg hzero
    rw [hdecimal]
    exact BinaryFormat.nearestDecimal_shortest BinaryFormat.single_isBounded _
      (Nat.pos_of_ne_zero hzero) hfinite

/-- A number written as an option value reads back as the same number. -/
theorem ofText?_ofSingle {x : Binary32} (h : x.isNaN = false) :
    ofText? (trim (OptionsDict.ofSingle x).toList) = some x := by
  unfold OptionsDict.ofSingle
  rw [if_neg (by rw [h]; decide)]
  by_cases hinfinite : x.isInfinite = true
  · have hcode : x.code = BinaryFormat.single.infinityCode := of_decide_eq_true hinfinite
    have hword : ofText? (trim (if x.negative then "-inf" else "inf").toList) =
        some (infinity x.negative) := by
      cases x.negative <;> rfl
    rw [if_pos hinfinite, hword, infinity, ← hcode, ofCode_negative_code]
  · have hfinite : x.code < BinaryFormat.single.infinityCode := by
      have hle := of_decide_eq_false h
      have hne : x.code ≠ BinaryFormat.single.infinityCode := fun heq =>
        hinfinite (decide_eq_true heq)
      omega
    rw [if_neg hinfinite]
    have hcode := nearestDecimal_written hfinite
    unfold DecimalLayout.finite
    generalize (if x.code = 0 then (⟨0, 0⟩ : Decimal)
      else BinaryFormat.single.shortest OptionsDict.numberLayout.tie x.code) = decimal at hcode ⊢
    have hbody := isPositional_unsigned decimal
    simp only [String.toList_ofList]
    rw [trim_of_forall]
    · rw [ofText?, hbody.ofText?_eq, Option.map_some, ofWritten, ofDecimal, hcode,
        ofCode_negative_code]
    · intro c hc
      split at hc
      · rcases List.mem_cons.mp hc with rfl | hrest
        · decide
        · exact hbody.isBlank_eq_false hrest
      · exact hbody.isBlank_eq_false hc

end Binary32

end SelfPlay.Numeric
