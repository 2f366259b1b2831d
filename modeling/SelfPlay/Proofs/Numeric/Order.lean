import SelfPlay.Numeric.Scalar

/-!
# The order of single-precision numbers

A comparison holds if both sides are numbers and their keys compare. A minimum or maximum leaves out
what is no number, so a bound that either argument has passed is a bound that the result has passed.
-/

namespace SelfPlay.Numeric

namespace Binary32

theorem lt_iff (x y : Binary32) :
    x.lt y = true ↔ x.isNaN = false ∧ y.isNaN = false ∧ x.key < y.key := by
  simp [lt, and_assoc]

theorem le_iff (x y : Binary32) :
    x.le y = true ↔ x.isNaN = false ∧ y.isNaN = false ∧ x.key ≤ y.key := by
  simp [le, and_assoc]

theorem lt_iff_key_lt {x y : Binary32} (hx : x.isNaN = false) (hy : y.isNaN = false) :
    x.lt y = true ↔ x.key < y.key := by
  simp [lt, hx, hy]

theorem le_iff_key_le {x y : Binary32} (hx : x.isNaN = false) (hy : y.isNaN = false) :
    x.le y = true ↔ x.key ≤ y.key := by
  simp [le, hx, hy]

/-- Nothing is less or greater than a value that is no number. -/
theorem lt_eq_false_of_isNaN {x y : Binary32} (h : x.isNaN = true ∨ y.isNaN = true) :
    x.lt y = false := by
  rw [← Bool.not_eq_true, lt_iff]
  rintro ⟨hx, hy, -⟩
  rcases h with hnan | hnan
  · cases hx.symm.trans hnan
  · cases hy.symm.trans hnan

theorem lt_trans {x y z : Binary32} (hxy : x.lt y = true) (hyz : y.lt z = true) :
    x.lt z = true := by
  rw [lt_iff] at hxy hyz ⊢
  exact ⟨hxy.1, hyz.2.1, by omega⟩

/-- What is at most a bound is not above it. -/
theorem not_lt_of_le {x y : Binary32} (h : x.le y = true) : ¬y.lt x = true := by
  rw [le_iff] at h
  rw [lt_iff]
  omega

/-- A number that does not exceed another one is below what that one is below. -/
theorem lt_of_not_lt_of_lt {x y z : Binary32} (hx : x.isNaN = false) (hyx : ¬y.lt x = true)
    (hyz : y.lt z = true) : x.lt z = true := by
  rw [lt_iff] at hyx hyz ⊢
  refine ⟨hx, hyz.2.1, ?_⟩
  have hkey : ¬y.key < x.key := fun hlt => hyx ⟨hyz.1, hx, hlt⟩
  omega

/-- A number that another one does not exceed is above what that one is above. -/
theorem lt_of_lt_of_not_lt {x y z : Binary32} (hz : z.isNaN = false) (hxy : x.lt y = true)
    (hzy : ¬z.lt y = true) : x.lt z = true := by
  rw [lt_iff] at hxy hzy ⊢
  refine ⟨hxy.1, hz, ?_⟩
  have hkey : ¬z.key < y.key := fun hlt => hzy ⟨hz, hxy.2.1, hlt⟩
  omega

/-! ## Signs -/

theorem bits_ofCode {code : Nat} (negative : Bool) (h : code < signBit) :
    (ofCode negative code).bits.toNat = code + if negative then signBit else 0 := by
  unfold ofCode
  have hlt : code + (if negative then signBit else 0) < 2 ^ 32 := by
    unfold signBit at h ⊢
    split <;> omega
  exact UInt32.toNat_ofNat_of_lt' hlt

theorem code_lt (x : Binary32) : x.code < signBit := Nat.mod_lt _ (by decide)

theorem code_ofCode {code : Nat} (negative : Bool) (h : code < signBit) :
    (ofCode negative code).code = code := by
  rw [Binary32.code, bits_ofCode negative h]
  split
  · rw [Nat.add_mod_right, Nat.mod_eq_of_lt h]
  · rw [Nat.add_zero, Nat.mod_eq_of_lt h]

theorem negative_ofCode {code : Nat} (negative : Bool) (h : code < signBit) :
    (ofCode negative code).negative = negative := by
  rw [Binary32.negative, bits_ofCode negative h]
  cases negative with
  | true => exact decide_eq_true (Nat.le_add_left _ _)
  | false => exact decide_eq_false (Nat.not_le.mpr h)

/-- Turning the sign over keeps the magnitude. -/
theorem code_neg (x : Binary32) : (-x).code = x.code := code_ofCode _ x.code_lt

@[simp] theorem isNaN_neg (x : Binary32) : (-x).isNaN = x.isNaN := by
  unfold isNaN
  rw [code_neg]

theorem negative_neg (x : Binary32) : (-x).negative = !x.negative := negative_ofCode _ x.code_lt

/-- Turning the sign over turns the order around. -/
theorem key_neg (x : Binary32) : (-x).key = -x.key := by
  rw [key, key, negative_neg, code_neg]
  cases x.negative with
  | true => exact (Int.neg_neg _).symm
  | false => rfl

theorem isNaN_zero : (0 : Binary32).isNaN = false := by decide +kernel

theorem isNaN_one : (1 : Binary32).isNaN = false := by decide +kernel

/-- A number that is greater than minus one. -/
def IsAboveMinusOne (x : Binary32) : Prop := x.isNaN = false ∧ x.le (-1) = false

theorem IsAboveMinusOne.neg_lt_one {x : Binary32} (h : x.IsAboveMinusOne) : (-x).lt 1 = true := by
  obtain ⟨hnumber, hle⟩ := h
  have hone : (-1 : Binary32).isNaN = false := by rw [isNaN_neg, isNaN_one]
  have hkey : ¬x.key ≤ (-1 : Binary32).key := by
    rw [← le_iff_key_le hnumber hone, hle]
    exact Bool.false_ne_true
  rw [lt_iff_key_lt (by rw [isNaN_neg, hnumber]) isNaN_one, key_neg]
  rw [key_neg] at hkey
  omega

end Binary32

/-! ## Least and greatest -/

namespace Scalar

variable {bound x y : Binary32}

theorem lt_max_left (h : bound.lt x = true) : bound.lt (max x y) = true := by
  have hx : x.isNaN = false := ((Binary32.lt_iff bound x).mp h).2.1
  unfold max
  split
  · rename_i hless
    have hxy : (x.isNaN || x.lt y) = true := hless
    rw [hx, Bool.false_or] at hxy
    exact Binary32.lt_trans h hxy
  · exact h

theorem lt_max_right (h : bound.lt y = true) : bound.lt (max x y) = true := by
  unfold max
  split
  · exact h
  · rename_i hless
    rw [Bool.or_eq_true, not_or] at hless
    exact Binary32.lt_of_lt_of_not_lt (Bool.eq_false_iff.mpr hless.1) h hless.2

theorem min_lt_left (h : x.lt bound = true) : (min x y).lt bound = true := by
  have hx : x.isNaN = false := ((Binary32.lt_iff x bound).mp h).1
  unfold min
  split
  · rename_i hless
    have hyx : (x.isNaN || y.lt x) = true := hless
    rw [hx, Bool.false_or] at hyx
    exact Binary32.lt_trans hyx h
  · exact h

theorem min_lt_right (h : y.lt bound = true) : (min x y).lt bound = true := by
  unfold min
  split
  · exact h
  · rename_i hless
    rw [Bool.or_eq_true, not_or] at hless
    exact Binary32.lt_of_not_lt_of_lt (Bool.eq_false_iff.mpr hless.1) hless.2 h

end Scalar

end SelfPlay.Numeric
