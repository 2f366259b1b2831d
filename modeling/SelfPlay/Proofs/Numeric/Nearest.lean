import Mathlib.Tactic.Ring
import SelfPlay.Numeric.BinaryFormat

/-!
# What rounds to a code

A magnitude rounds to a code if it lies between the middles of the gaps on both sides of the code's
own magnitude, a middle itself going to the even code. The gap above is the unit of the code's
significand; the gap below a power of two is half of it.
-/

namespace SelfPlay.Numeric

/-- A quotient within half of an integer is rounded to it, one at half exactly if it is even. -/
theorem roundQuotient_toEven_eq {num den n : Nat} (hden : 0 < den)
    (low : 2 * n * den ≤ 2 * num + den) (high : 2 * num ≤ 2 * n * den + den)
    (lowOdd : n % 2 = 1 → 2 * n * den < 2 * num + den)
    (highOdd : n % 2 = 1 → 2 * num < 2 * n * den + den) :
    roundQuotient .toEven num den = n := by
  have hsplit := Nat.div_add_mod num den
  have hmod := Nat.mod_lt num hden
  simp only [roundQuotient]
  generalize num / den = q at *
  generalize num % den = r at *
  have hbelow : q ≤ n := by
    by_contra hlt
    have hprod : (n + 1) * den ≤ q * den := Nat.mul_le_mul_right den (by omega)
    rw [Nat.add_mul] at hprod
    rw [Nat.mul_comm den q] at hsplit
    rw [Nat.mul_assoc] at high
    omega
  have habove : n ≤ q + 1 := by
    by_contra hlt
    have hprod : (q + 2) * den ≤ n * den := Nat.mul_le_mul_right den (by omega)
    rw [Nat.add_mul] at hprod
    rw [Nat.mul_comm den q] at hsplit
    rw [Nat.mul_assoc] at low
    omega
  rcases Nat.eq_or_lt_of_le hbelow with rfl | hlt
  · rw [Nat.mul_assoc, Nat.mul_comm q den] at *
    split
    · rfl
    · rw [if_neg (by omega)]
      omega
  · obtain rfl : n = q + 1 := by omega
    rw [Nat.mul_assoc, Nat.add_mul, Nat.mul_comm q den] at *
    rw [if_neg (by omega)]
    split
    · rfl
    · omega

theorem log2_div_sub {num den places shift : Nat} (hden : 0 < den)
    (low : 0 < shift → 2 ^ (places + shift) * den ≤ num)
    (high : num < 2 ^ (places + shift + 1) * den) :
    Nat.log2 (num / den) - places = shift := by
  have hlt : num / den < 2 ^ (places + shift + 1) := (Nat.div_lt_iff_lt_mul hden).mpr high
  by_cases hzero : num / den = 0
  · rw [hzero, Nat.log2_zero, Nat.zero_sub]
    by_contra hne
    have hle := (Nat.le_div_iff_mul_le hden).mpr (low (by omega))
    have hpos := Nat.two_pow_pos (places + shift)
    omega
  · have hupper := (Nat.log2_lt hzero).mpr hlt
    by_cases hshift : 0 < shift
    · have hlower := (Nat.le_log2 hzero).mpr ((Nat.le_div_iff_mul_le hden).mpr (low hshift))
      omega
    · omega

namespace BinaryFormat

variable (format : BinaryFormat)

/-- `num / den` units lie in the interval of what rounds to `code`. -/
structure RoundsTo (code num den : Nat) : Prop where
  low : (format.units (code - 1) + format.units code) * den ≤ 2 * num
  high : 2 * num ≤ (format.units code + format.units (code + 1)) * den
  lowOdd : code % 2 = 1 → (format.units (code - 1) + format.units code) * den < 2 * num
  highOdd : code % 2 = 1 → 2 * num < (format.units code + format.units (code + 1)) * den

/-- A code is a shift and a significand, which has all its bits unless the shift is zero. -/
theorem exists_parts (code : Nat) :
    ∃ shift significand, code = shift * 2 ^ format.fractionBits + significand ∧
      significand < 2 * 2 ^ format.fractionBits ∧
      (0 < shift → 2 ^ format.fractionBits ≤ significand) := by
  have hsplit := Nat.div_add_mod code (2 ^ format.fractionBits)
  have hmod := Nat.mod_lt code (Nat.two_pow_pos format.fractionBits)
  generalize 2 ^ format.fractionBits = top at *
  rw [Nat.mul_comm] at hsplit
  cases hexponent : code / top with
  | zero =>
    rw [hexponent] at hsplit
    exact ⟨0, code % top, hsplit.symm, by omega, fun h => absurd h (by decide)⟩
  | succ shift =>
    rw [hexponent, Nat.succ_mul] at hsplit
    exact ⟨shift, top + code % top, by omega, by omega, fun _ => by omega⟩

/-- A carry out of the significand lands in the shift. -/
theorem units_of_parts {shift significand : Nat}
    (htop : significand ≤ 2 * 2 ^ format.fractionBits)
    (hfull : 0 < shift → 2 ^ format.fractionBits ≤ significand) :
    format.units (shift * 2 ^ format.fractionBits + significand) = significand * 2 ^ shift := by
  have hpos := Nat.two_pow_pos format.fractionBits
  unfold units
  simp only [Nat.pow_eq]
  generalize 2 ^ format.fractionBits = top at *
  rw [Nat.add_comm, Nat.add_mul_div_right _ _ hpos, Nat.add_mul_mod_self_right]
  rcases Nat.lt_or_ge significand top with hsmall | hlarge
  · obtain rfl : shift = 0 := by omega
    rw [Nat.div_eq_of_lt hsmall, if_pos rfl, Nat.mod_eq_of_lt hsmall, Nat.pow_zero, Nat.mul_one]
  · rcases Nat.lt_or_ge significand (2 * top) with hinside | hover
    · have hone : significand / top = 1 := Nat.div_eq_of_lt_le (by omega) (by omega)
      have hrest : significand % top = significand - top := by
        rw [Nat.mod_eq_sub_mod hlarge, Nat.mod_eq_of_lt (by omega)]
      rw [hone, hrest, if_neg (by omega), Nat.sub_add_cancel hlarge, Nat.add_sub_cancel_left]
    · obtain rfl : significand = 2 * top := by omega
      rw [Nat.mul_div_cancel _ hpos, Nat.mul_mod_left, if_neg (by omega), Nat.zero_add,
        show 2 + shift - 1 = shift + 1 by omega, Nat.pow_succ]
      ring

/-- The gap below a significand that is not the least of its shift. -/
theorem units_pred_of_parts {shift significand : Nat} (hsignificand : 0 < significand)
    (htop : significand ≤ 2 * 2 ^ format.fractionBits)
    (hfull : 0 < shift → 2 ^ format.fractionBits < significand) :
    format.units (shift * 2 ^ format.fractionBits + significand - 1) =
      (significand - 1) * 2 ^ shift := by
  rw [Nat.add_sub_assoc hsignificand]
  exact format.units_of_parts (by omega) fun hshift => Nat.le_sub_one_of_lt (hfull hshift)

theorem units_pos {code : Nat} (hcode : 0 < code) : 0 < format.units code := by
  obtain ⟨shift, significand, rfl, htop, hfull⟩ := format.exists_parts code
  rw [format.units_of_parts htop.le hfull]
  have hpos := Nat.two_pow_pos format.fractionBits
  refine Nat.mul_pos ?_ (Nat.two_pow_pos shift)
  rcases Nat.eq_zero_or_pos shift with rfl | hshift
  · omega
  · have hle := hfull hshift
    omega

/-- Greater codes stand for greater magnitudes. -/
theorem units_lt_units_succ (code : Nat) : format.units code < format.units (code + 1) := by
  obtain ⟨shift, significand, rfl, htop, hfull⟩ := format.exists_parts code
  rw [Nat.add_assoc, format.units_of_parts htop.le hfull,
    format.units_of_parts htop fun hshift => (hfull hshift).trans (Nat.le_succ _)]
  exact Nat.mul_lt_mul_of_pos_right (Nat.lt_succ_self significand) (Nat.two_pow_pos shift)

theorem units_mono : Monotone format.units :=
  (strictMono_nat_of_lt_succ format.units_lt_units_succ).monotone

variable {format}

theorem nearest_of_parts {num den shift significand : Nat} (hden : 0 < den)
    (hshift : Nat.log2 (num / den) - format.fractionBits = shift)
    (low : 2 * significand * (den * 2 ^ shift) ≤ 2 * num + den * 2 ^ shift)
    (high : 2 * num ≤ 2 * significand * (den * 2 ^ shift) + den * 2 ^ shift)
    (lowOdd : significand % 2 = 1 →
      2 * significand * (den * 2 ^ shift) < 2 * num + den * 2 ^ shift)
    (highOdd : significand % 2 = 1 →
      2 * num < 2 * significand * (den * 2 ^ shift) + den * 2 ^ shift) :
    format.nearest num den =
      min format.infinityCode (shift * 2 ^ format.fractionBits + significand) := by
  unfold nearest
  simp only [hshift, Nat.pow_eq]
  rw [roundQuotient_toEven_eq (Nat.mul_pos hden (Nat.two_pow_pos shift)) low high lowOdd highOdd]

/-- The first magnitude of a shift, in gaps of that shift. -/
theorem binade_mul (den shift : Nat) :
    2 ^ (format.fractionBits + shift) * den = 2 ^ format.fractionBits * (den * 2 ^ shift) := by
  rw [Nat.pow_add]
  ring

/-- Next below a power of two the significand is rounded in the lower shift, and carries. -/
theorem nearest_of_carry {num den shift : Nat} (hden : 0 < den)
    (low : 4 * (2 ^ format.fractionBits * (den * 2 ^ shift)) ≤ 2 * num + den * 2 ^ shift)
    (high : num < 2 * (2 ^ format.fractionBits * (den * 2 ^ shift))) :
    format.nearest num den =
      min format.infinityCode (shift * 2 ^ format.fractionBits + 2 * 2 ^ format.fractionBits) := by
  have hunit : den * 2 ^ shift ≤ 2 ^ format.fractionBits * (den * 2 ^ shift) :=
    Nat.le_mul_of_pos_left _ (Nat.two_pow_pos _)
  have hcarry : 2 * (2 * 2 ^ format.fractionBits) * (den * 2 ^ shift) =
      4 * (2 ^ format.fractionBits * (den * 2 ^ shift)) := by
    ring
  have hshift : Nat.log2 (num / den) - format.fractionBits = shift := by
    refine log2_div_sub hden (fun _ => ?_) ?_
    · rw [binade_mul]
      omega
    · rw [Nat.pow_succ, Nat.mul_right_comm, binade_mul]
      omega
  refine nearest_of_parts hden hshift ?_ ?_ ?_ ?_ <;> rw [hcarry] <;> omega

/-! ## The interval in terms of the significand -/

section Parts

variable {shift significand num den : Nat}

theorem parity_of_parts (hbits : 0 < format.fractionBits) :
    (shift * 2 ^ format.fractionBits + significand) % 2 = significand % 2 := by
  obtain ⟨rest, hrest⟩ := Nat.exists_eq_succ_of_ne_zero hbits.ne'
  rw [hrest, Nat.pow_succ, ← Nat.mul_assoc, Nat.add_comm, Nat.add_mul_mod_self_right]

/-- The middle of the gap below a significand. -/
theorem middle_below (shift den : Nat) (hsignificand : 0 < significand) :
    ((significand - 1) * 2 ^ shift + significand * 2 ^ shift) * den + den * 2 ^ shift =
      2 * significand * (den * 2 ^ shift) := by
  obtain ⟨pred, rfl⟩ := Nat.exists_eq_succ_of_ne_zero hsignificand.ne'
  rw [Nat.succ_eq_add_one, Nat.add_sub_cancel]
  ring

theorem RoundsTo.high_of_parts
    (h : format.RoundsTo (shift * 2 ^ format.fractionBits + significand) num den)
    (hbits : 0 < format.fractionBits) (htop : significand < 2 * 2 ^ format.fractionBits)
    (hfull : 0 < shift → 2 ^ format.fractionBits ≤ significand) :
    2 * num ≤ 2 * significand * (den * 2 ^ shift) + den * 2 ^ shift ∧
      (significand % 2 = 1 →
        2 * num < 2 * significand * (den * 2 ^ shift) + den * 2 ^ shift) := by
  have hself := format.units_of_parts htop.le hfull
  have hsucc := format.units_of_parts htop fun hshift => (hfull hshift).trans (Nat.le_succ _)
  have hmiddle : (significand * 2 ^ shift + (significand + 1) * 2 ^ shift) * den =
      2 * significand * (den * 2 ^ shift) + den * 2 ^ shift := by
    ring
  have high := h.high
  have highOdd := h.highOdd
  rw [parity_of_parts hbits] at highOdd
  rw [Nat.add_assoc, hself, hsucc, hmiddle] at high highOdd
  exact ⟨high, highOdd⟩

theorem RoundsTo.low_of_parts
    (h : format.RoundsTo (shift * 2 ^ format.fractionBits + significand) num den)
    (hbits : 0 < format.fractionBits) (htop : significand < 2 * 2 ^ format.fractionBits)
    (hsignificand : 0 < significand) (hfull : 0 < shift → 2 ^ format.fractionBits < significand) :
    2 * significand * (den * 2 ^ shift) ≤ 2 * num + den * 2 ^ shift ∧
      (significand % 2 = 1 →
        2 * significand * (den * 2 ^ shift) < 2 * num + den * 2 ^ shift) := by
  have hself := format.units_of_parts htop.le fun hshift => (hfull hshift).le
  have hpred := format.units_pred_of_parts hsignificand htop.le hfull
  have low := h.low
  have lowOdd := h.lowOdd
  rw [parity_of_parts hbits] at lowOdd
  rw [hself, hpred] at low lowOdd
  rw [← middle_below shift den hsignificand]
  exact ⟨Nat.add_le_add_right low _, fun hodd => Nat.add_lt_add_right (lowOdd hodd) _⟩

/-- The gap below a power of two is half of the gap above it. -/
theorem RoundsTo.low_of_carry
    (h : format.RoundsTo (shift * 2 ^ format.fractionBits + 2 * 2 ^ format.fractionBits) num den) :
    4 * (2 ^ format.fractionBits * (den * 2 ^ shift)) ≤ 2 * num + den * 2 ^ shift := by
  have hpos : 0 < 2 * 2 ^ format.fractionBits := Nat.mul_pos two_pos (Nat.two_pow_pos _)
  have low := h.low
  rw [format.units_of_parts le_rfl fun _ => by omega,
    format.units_pred_of_parts hpos le_rfl fun _ => by omega] at low
  have hmiddle := middle_below shift den hpos
  rw [show 2 * (2 * 2 ^ format.fractionBits) * (den * 2 ^ shift) =
    4 * (2 ^ format.fractionBits * (den * 2 ^ shift)) by ring] at hmiddle
  omega

/-- A magnitude in the interval of a finite code is rounded to this code. -/
theorem RoundsTo.nearest_eq {code : Nat} (h : format.RoundsTo code num den)
    (hbits : 0 < format.fractionBits) (hfinite : code ≤ format.infinityCode) (hden : 0 < den) :
    format.nearest num den = code := by
  obtain ⟨shift, significand, rfl, htop, hfull⟩ := format.exists_parts code
  obtain ⟨high, highOdd⟩ := h.high_of_parts hbits htop hfull
  have hunit : 0 < den * 2 ^ shift := Nat.mul_pos hden (Nat.two_pow_pos shift)
  by_cases hcut : 0 < shift ∧ num < 2 ^ (format.fractionBits + shift) * den
  · -- Only from a power of two does the interval reach into the lower shift.
    obtain ⟨hshift, hbelow⟩ := hcut
    rw [binade_mul] at hbelow
    have hleast : significand = 2 ^ format.fractionBits := by
      by_contra hne
      have hlt : 2 ^ format.fractionBits + 1 ≤ significand :=
        Nat.lt_of_le_of_ne (hfull hshift) (Ne.symm hne)
      have hprod := Nat.mul_le_mul_right (den * 2 ^ shift) hlt
      obtain ⟨low, -⟩ := h.low_of_parts hbits htop (by omega) fun _ => hlt
      rw [Nat.add_mul] at hprod
      rw [Nat.mul_assoc] at low
      omega
    obtain ⟨lower, rfl⟩ := Nat.exists_eq_succ_of_ne_zero hshift.ne'
    have hcarry : (lower + 1) * 2 ^ format.fractionBits + 2 ^ format.fractionBits =
        lower * 2 ^ format.fractionBits + 2 * 2 ^ format.fractionBits := by
      ring
    rw [hleast, Nat.succ_eq_add_one, hcarry] at h hfinite ⊢
    rw [nearest_of_carry hden h.low_of_carry ?_, min_eq_right hfinite]
    rw [Nat.pow_succ, ← Nat.mul_assoc den, ← Nat.mul_assoc, Nat.mul_comm _ 2] at hbelow
    exact hbelow
  · have hbinade (hshift : 0 < shift) :
        2 ^ format.fractionBits * (den * 2 ^ shift) ≤ num := by
      rw [← binade_mul]
      exact Nat.le_of_not_lt fun hlt => hcut ⟨hshift, hlt⟩
    have hlog : Nat.log2 (num / den) - format.fractionBits = shift := by
      refine log2_div_sub hden (fun hshift => (binade_mul den shift).trans_le (hbinade hshift)) ?_
      have hprod := Nat.mul_le_mul_right (den * 2 ^ shift) htop
      rw [Nat.succ_mul, Nat.mul_assoc] at hprod
      rw [Nat.mul_assoc] at high
      rw [Nat.pow_succ, Nat.mul_right_comm, binade_mul]
      omega
    have hlow : 2 * significand * (den * 2 ^ shift) ≤ 2 * num + den * 2 ^ shift ∧
        (significand % 2 = 1 →
          2 * significand * (den * 2 ^ shift) < 2 * num + den * 2 ^ shift) := by
      by_cases hinner : 0 < significand ∧ (0 < shift → 2 ^ format.fractionBits < significand)
      · exact h.low_of_parts hbits htop hinner.1 hinner.2
      · have hle : significand * (den * 2 ^ shift) ≤ num := by
          rcases Nat.eq_zero_or_pos significand with rfl | hsignificand
          · rw [Nat.zero_mul]
            exact Nat.zero_le num
          · have hedge : 0 < shift ∧ significand ≤ 2 ^ format.fractionBits := by
              by_contra hne
              exact hinner ⟨hsignificand, fun hshift => by omega⟩
            exact (Nat.mul_le_mul_right _ hedge.2).trans (hbinade hedge.1)
        rw [Nat.mul_assoc]
        exact ⟨by omega, fun _ => by omega⟩
    rw [nearest_of_parts hden hlog hlow.1 high hlow.2 highOdd, min_eq_right hfinite]

end Parts

end BinaryFormat

end SelfPlay.Numeric
