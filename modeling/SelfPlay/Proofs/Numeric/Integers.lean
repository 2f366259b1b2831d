import SelfPlay.Proofs.Numeric.Nearest
import SelfPlay.Proofs.Numeric.Order

/-!
# Integers in single precision

A magnitude that has a code is rounded to this code. Integers with no more bits than a significand
are such magnitudes, so sums and differences that stay among them are not rounded at all.
-/

namespace SelfPlay.Numeric

namespace BinaryFormat

/-- The magnitude of a code lies between the middles of the gaps beside it. -/
theorem roundsTo_units (format : BinaryFormat) (code : Nat) :
    format.RoundsTo code (format.units code) 1 := by
  have hpred := format.units_mono (Nat.sub_le code 1)
  have hsucc := format.units_lt_units_succ code
  refine ⟨by omega, by omega, fun hodd => ?_, fun _ => by omega⟩
  have hbelow := format.units_lt_units_succ (code - 1)
  rw [Nat.sub_add_cancel (by omega)] at hbelow
  omega

/-- What has a code is rounded to it. -/
theorem nearest_units {format : BinaryFormat} (hbits : 0 < format.fractionBits) {code : Nat}
    (hfinite : code ≤ format.infinityCode) : format.nearest (format.units code) 1 = code :=
  (format.roundsTo_units code).nearest_eq hbits hfinite Nat.one_pos

theorem units_zero (format : BinaryFormat) : format.units 0 = 0 := by
  unfold units
  simp only [Nat.zero_div, Nat.zero_mod, if_true]

theorem units_eq_zero_iff (format : BinaryFormat) {code : Nat} :
    format.units code = 0 ↔ code = 0 := by
  constructor
  · intro hnone
    by_contra hne
    exact (format.units_pos (Nat.pos_of_ne_zero hne)).ne' hnone
  · rintro rfl
    exact format.units_zero

theorem units_injective (format : BinaryFormat) : Function.Injective format.units :=
  (strictMono_nat_of_lt_succ format.units_lt_units_succ).injective

/-- The place of the first bit; at the upper bound it may also be taken one place lower. -/
theorem exists_leading {n bits : Nat} (hpos : 0 < n) (hn : n ≤ 2 * 2 ^ bits) :
    ∃ leading ≤ bits, 2 ^ leading ≤ n ∧ n ≤ 2 * 2 ^ leading := by
  rcases Nat.le_total (Nat.log2 n) bits with hle | hge
  · have hlt := Nat.lt_log2_self (n := n)
    rw [Nat.pow_succ] at hlt
    exact ⟨Nat.log2 n, hle, Nat.log2_self_le hpos.ne', by omega⟩
  · have hleast := (Nat.pow_le_pow_right two_pos hge).trans (Nat.log2_self_le hpos.ne')
    exact ⟨bits, le_refl bits, hleast, hn⟩

/-- An integer with no more bits than a significand has a code. -/
theorem exists_code_of_integer (format : BinaryFormat)
    (hplaces : format.fractionBits ≤ format.unitPlaces) {n : Nat}
    (hn : n ≤ 2 * 2 ^ format.fractionBits) :
    ∃ code ≤ (format.unitPlaces + 2) * 2 ^ format.fractionBits,
      format.units code = n * 2 ^ format.unitPlaces := by
  rcases Nat.eq_zero_or_pos n with rfl | hpos
  · exact ⟨0, Nat.zero_le _, by rw [units_zero, Nat.zero_mul]⟩
  · obtain ⟨leading, hbits, hlow, hhigh⟩ := exists_leading hpos hn
    obtain ⟨rest, hrest⟩ := Nat.exists_eq_add_of_le hbits
    obtain ⟨places, hunit⟩ := Nat.exists_eq_add_of_le hplaces
    have hwhole : 2 ^ format.fractionBits = 2 ^ leading * 2 ^ rest := by
      rw [hrest, Nat.pow_add]
    have hfull : 2 ^ format.fractionBits ≤ n * 2 ^ rest := by
      rw [hwhole]
      exact Nat.mul_le_mul_right _ hlow
    have htop : n * 2 ^ rest ≤ 2 * 2 ^ format.fractionBits := by
      rw [hwhole, ← Nat.mul_assoc]
      exact Nat.mul_le_mul_right _ hhigh
    refine ⟨(places + leading) * 2 ^ format.fractionBits + n * 2 ^ rest, ?_, ?_⟩
    · have hshift := Nat.mul_le_mul_right (2 ^ format.fractionBits)
        (show places + leading ≤ format.unitPlaces by omega)
      rw [Nat.add_mul format.unitPlaces]
      omega
    · rw [format.units_of_parts htop fun _ => hfull, Nat.mul_assoc, ← Nat.pow_add]
      congr 2
      omega

end BinaryFormat

namespace Binary32

open BinaryFormat

variable {x y : Binary32} {j k : Int}

theorem units_ofCode {code : Nat} (negative : Bool) (h : code < signBit) :
    (ofCode negative code).units =
      if negative then -(single.units code : Int) else single.units code := by
  unfold units
  rw [code_ofCode negative h, negative_ofCode negative h]

theorem units_neg (x : Binary32) : (-x).units = -x.units := by
  unfold units
  rw [negative_neg, code_neg]
  cases x.negative with
  | true => exact (Int.neg_neg _).symm
  | false => rfl

/-- The number is finite and its value is an integer. -/
structure Represents (x : Binary32) (value : Int) : Prop where
  finite : x.code < single.infinityCode
  units : x.units = value * 2 ^ single.unitPlaces

theorem Represents.isNaN_eq (h : x.Represents k) : x.isNaN = false :=
  decide_eq_false (Nat.not_lt.mpr h.finite.le)

theorem Represents.isInfinite_eq (h : x.Represents k) : x.isInfinite = false :=
  decide_eq_false h.finite.ne

theorem infinityCode_lt_signBit : single.infinityCode < signBit := by decide

/-- The code of an integer of at most 24 bits is finite. -/
theorem exists_code {n : Nat} (hn : n ≤ 2 ^ 24) :
    ∃ code < single.infinityCode, single.units code = n * 2 ^ single.unitPlaces := by
  obtain ⟨code, hcode, hunits⟩ := single.exists_code_of_integer (by decide) hn
  exact ⟨code, hcode.trans_lt (by decide), hunits⟩

/-- An integer of at most 24 bits is not rounded. -/
theorem represents_nearest {n : Nat} (hn : n ≤ 2 ^ 24) (negative : Bool) :
    (nearest negative (n * 2 ^ single.unitPlaces) 1).Represents (if negative then -n else n) := by
  obtain ⟨code, hfinite, hunits⟩ := exists_code hn
  have hword : code < signBit := hfinite.trans infinityCode_lt_signBit
  unfold nearest
  rw [← hunits, nearest_units (by decide) hfinite.le]
  refine ⟨?_, ?_⟩
  · rw [code_ofCode negative hword]
    exact hfinite
  · rw [units_ofCode negative hword, hunits]
    cases negative with
    | true =>
      rw [if_pos rfl, if_pos rfl, Int.neg_mul]
      norm_cast
    | false =>
      rw [if_neg Bool.false_ne_true, if_neg Bool.false_ne_true]
      norm_cast

theorem represents_ofNat {n : Nat} (hn : n ≤ 2 ^ 24) : (ofNat n).Represents n :=
  represents_nearest hn false

theorem represents_ofInt (hk : k.natAbs ≤ 2 ^ 24) : (ofInt k).Represents k := by
  have hvalue : (if decide (k < 0) = true then -(k.natAbs : Int) else k.natAbs) = k := by
    rcases Int.lt_or_le k 0 with hless | hge
    · rw [if_pos (decide_eq_true hless)]
      omega
    · rw [if_neg (by rw [decide_eq_true_eq]; omega)]
      omega
  have hrepresents := represents_nearest hk (decide (k < 0))
  rwa [hvalue] at hrepresents

/-- Rounding the units of an integer is reading the integer. -/
theorem nearest_units_of_integer (k : Int) :
    nearest (k * 2 ^ single.unitPlaces < 0) (k * 2 ^ single.unitPlaces).natAbs 1 = ofInt k := by
  have hscale : (0 : Int) < 2 ^ single.unitPlaces := Int.pow_pos (by decide)
  have hsize : (k * 2 ^ single.unitPlaces).natAbs = k.natAbs * 2 ^ single.unitPlaces := by
    rw [Int.natAbs_mul, Int.natAbs_pow]
    rfl
  have hsign : k * 2 ^ single.unitPlaces < 0 ↔ k < 0 := by
    constructor
    · intro hproduct
      by_contra hle
      exact Int.not_lt.mpr (Int.mul_nonneg (Int.not_lt.mp hle) hscale.le) hproduct
    · exact fun hless => Int.mul_neg_of_neg_of_pos hless hscale
  rw [hsize, decide_eq_decide.mpr hsign]
  rfl

theorem represents_zero (negative : Bool) : (zero negative).Represents 0 := by
  have hword : 0 < signBit := by decide
  unfold zero
  refine ⟨?_, ?_⟩
  · rw [code_ofCode negative hword]
    decide
  · rw [units_ofCode negative hword, units_zero, Int.zero_mul]
    cases negative <;> rfl

/-- Sums of at most 24 bits are exact. -/
theorem Represents.add (hx : x.Represents j) (hy : y.Represents k)
    (hsum : (j + k).natAbs ≤ 2 ^ 24) : (x + y).Represents (j + k) := by
  have hadd : x + y = x.add y := rfl
  rw [hadd]
  unfold Binary32.add
  rw [hx.isNaN_eq, hy.isNaN_eq, hx.isInfinite_eq, hy.isInfinite_eq, hx.units, hy.units,
    ← Int.add_mul]
  simp only [Bool.or_false, Bool.false_eq_true, if_false]
  split
  · -- The sign of an exact zero is that of the summands; its value is zero either way.
    rename_i hzero
    have hscale : (2 : Int) ^ single.unitPlaces ≠ 0 := (Int.pow_pos (by decide)).ne'
    rw [(Int.mul_eq_zero.mp hzero).resolve_right hscale]
    exact represents_zero _
  · rw [nearest_units_of_integer]
    exact represents_ofInt hsum

theorem Represents.neg (h : x.Represents k) : (-x).Represents (-k) := by
  refine ⟨?_, ?_⟩
  · rw [code_neg]
    exact h.finite
  · rw [units_neg, h.units, Int.neg_mul]

/-- Differences of at most 24 bits are exact. -/
theorem Represents.sub (hx : x.Represents j) (hy : y.Represents k)
    (hdifference : (j - k).natAbs ≤ 2 ^ 24) : (x - y).Represents (j - k) :=
  hx.add hy.neg hdifference

/-- The units tell a number, but for the sign of zero. -/
theorem key_eq_of_units_eq (h : x.units = y.units) : x.key = y.key := by
  -- Numbers of opposite sign have the same units only if both are zeros.
  have hzero {code code' : Nat} (hopposite : -(single.units code : Int) = single.units code') :
      code = 0 ∧ code' = 0 := by
    refine ⟨single.units_eq_zero_iff.mp ?_, single.units_eq_zero_iff.mp ?_⟩ <;> omega
  unfold Binary32.units at h
  unfold key
  revert h
  cases x.negative with
  | false =>
    cases y.negative with
    | false =>
      intro h
      exact congrArg Int.ofNat (single.units_injective (Int.ofNat_inj.mp h))
    | true =>
      intro h
      obtain ⟨hy, hx⟩ := hzero h.symm
      rw [hx, hy]
      rfl
  | true =>
    cases y.negative with
    | false =>
      intro h
      obtain ⟨hx, hy⟩ := hzero h
      rw [hx, hy]
      rfl
    | true =>
      intro h
      rw [single.units_injective (Int.ofNat_inj.mp (Int.neg_inj.mp h))]

/-- Two numbers with one value are the same. -/
theorem Represents.same (hx : x.Represents k) (hy : y.Represents k) : x.same y = true := by
  unfold Binary32.same
  rw [hx.isNaN_eq, hy.isNaN_eq, key_eq_of_units_eq (hx.units.trans hy.units.symm)]
  exact decide_eq_true rfl

end Binary32

end SelfPlay.Numeric
