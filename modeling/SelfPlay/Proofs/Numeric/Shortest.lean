import SelfPlay.Numeric.Shortest
import SelfPlay.Proofs.Numeric.Nearest

/-!
# The shortest decimal reads back

Every grid point that is taken lies in the interval of what rounds to the code, and the finest grid
has a point in every interval, so a shortest decimal is found and rounds to the code it was found
for. The cuts for exponents far outside the format lie beyond all finite magnitudes.
-/

namespace SelfPlay.Numeric

theorem roundQuotient_eq_or (tie : TieRule) (num den : Nat) :
    roundQuotient tie num den = num / den ∨ roundQuotient tie num den = num / den + 1 := by
  simp only [roundQuotient]
  split
  · exact .inl rfl
  · split
    · exact .inr rfl
    · cases tie with
      | up => exact .inr rfl
      | toEven =>
        rcases Nat.mod_two_eq_zero_or_one (num / den) with heven | hodd
        · exact .inl (by simp only [heven, Nat.add_zero])
        · exact .inr (by simp only [hodd])

/-- Four binary digits are more than a decimal one. -/
theorem ten_pow_log2_div_four_le {n : Nat} (hn : n ≠ 0) : 10 ^ (Nat.log2 n / 4) ≤ n := by
  calc 10 ^ (Nat.log2 n / 4)
      ≤ (2 ^ 4) ^ (Nat.log2 n / 4) := Nat.pow_le_pow_left (by decide) _
    _ = 2 ^ (4 * (Nat.log2 n / 4)) := (Nat.pow_mul ..).symm
    _ ≤ 2 ^ Nat.log2 n := Nat.pow_le_pow_right (by decide) (Nat.mul_div_le ..)
    _ ≤ n := Nat.log2_self_le hn

namespace Decimal

/-- The magnitude in units is this over `den`. -/
def num (format : BinaryFormat) (decimal : Decimal) : Nat :=
  decimal.digits * 10 ^ decimal.exponent.toNat * 2 ^ format.unitPlaces

def den (decimal : Decimal) : Nat := 10 ^ (-decimal.exponent).toNat

theorem den_pos (decimal : Decimal) : 0 < decimal.den := Nat.pow_pos (by decide)

/-- The same number without a positive power of ten. -/
def expanded (decimal : Decimal) : Decimal :=
  ⟨decimal.digits * 10 ^ decimal.exponent.toNat, min decimal.exponent 0⟩

@[simp] theorem num_expanded (format : BinaryFormat) (decimal : Decimal) :
    decimal.expanded.num format = decimal.num format := by
  have hzero : (min decimal.exponent 0).toNat = 0 := by omega
  simp only [num, expanded, hzero, Nat.pow_zero, Nat.mul_one]

@[simp] theorem den_expanded (decimal : Decimal) : decimal.expanded.den = decimal.den := by
  have hneg : (-min decimal.exponent 0).toNat = (-decimal.exponent).toNat := by omega
  simp only [den, expanded, hneg]

end Decimal

namespace BinaryFormat

/-- The decimal bounds of a format lie beyond its finite magnitudes. -/
structure IsBounded (format : BinaryFormat) : Prop where
  fractionBits_pos : 0 < format.fractionBits
  top : format.units format.infinityCode ≤ 10 ^ format.decimalTop * 2 ^ format.unitPlaces
  /-- The last grid is finer than half a unit. -/
  bottom : 2 ^ (format.unitPlaces + 1) < 10 ^ format.decimalBottom

theorem single_isBounded : IsBounded single := ⟨by decide, by decide +kernel, by decide +kernel⟩

variable {format : BinaryFormat}

/-! ## Reading -/

/-- A decimal of a finite code's interval is below the greatest power of ten that is read. -/
theorem RoundsTo.value_lt {code : Nat} {decimal : Decimal}
    (h : format.RoundsTo code (decimal.num format) decimal.den) (hbounded : format.IsBounded)
    (hfinite : code < format.infinityCode) :
    decimal.digits * 10 ^ decimal.exponent.toNat < 10 ^ format.decimalTop * decimal.den := by
  have hself : format.units code < format.units format.infinityCode :=
    (format.units_lt_units_succ code).trans_le (format.units_mono hfinite)
  have hsucc : format.units (code + 1) ≤ format.units format.infinityCode := format.units_mono hfinite
  have hunits : format.units code + format.units (code + 1) <
      2 * (10 ^ format.decimalTop * 2 ^ format.unitPlaces) := by
    have htop := hbounded.top
    omega
  refine Nat.lt_of_mul_lt_mul_right (a := 2 ^ format.unitPlaces) ?_
  refine Nat.lt_of_mul_lt_mul_left (a := 2) ?_
  calc 2 * (decimal.digits * 10 ^ decimal.exponent.toNat * 2 ^ format.unitPlaces)
      ≤ (format.units code + format.units (code + 1)) * decimal.den := h.high
    _ < 2 * (10 ^ format.decimalTop * 2 ^ format.unitPlaces) * decimal.den :=
      Nat.mul_lt_mul_of_pos_right hunits decimal.den_pos
    _ = 2 * (10 ^ format.decimalTop * decimal.den * 2 ^ format.unitPlaces) := by ring

theorem RoundsTo.exponent_add_lt {code : Nat} {decimal : Decimal}
    (h : format.RoundsTo code (decimal.num format) decimal.den) (hbounded : format.IsBounded)
    (hfinite : code < format.infinityCode) (hdigits : decimal.digits ≠ 0) :
    decimal.exponent + Nat.log2 decimal.digits / 4 < format.decimalTop := by
  have hpow : 10 ^ (Nat.log2 decimal.digits / 4 + decimal.exponent.toNat) <
      10 ^ (format.decimalTop + (-decimal.exponent).toNat) := by
    rw [Nat.pow_add, Nat.pow_add]
    exact (Nat.mul_le_mul_right _ (ten_pow_log2_div_four_le hdigits)).trans_lt
      (h.value_lt hbounded hfinite)
  have hlt := (Nat.pow_lt_pow_iff_right (by decide)).mp hpow
  omega

/-- A decimal of a code's interval that is not too fine reads as this code. -/
theorem RoundsTo.nearestDecimal_eq {code : Nat} {decimal : Decimal}
    (h : format.RoundsTo code (decimal.num format) decimal.den) (hbounded : format.IsBounded)
    (hcode : 0 < code) (hfinite : code < format.infinityCode)
    (hbottom : -(format.decimalBottom : Int) ≤ decimal.exponent) :
    format.nearestDecimal decimal.digits decimal.exponent = code := by
  have hden := decimal.den_pos
  have hdigits : decimal.digits ≠ 0 := by
    intro hzero
    have hlow := h.low
    have hpos := Nat.mul_pos (format.units_pos hcode) hden
    rw [Decimal.num, hzero, Nat.zero_mul, Nat.zero_mul, Nat.add_mul] at hlow
    omega
  have htop := h.exponent_add_lt hbounded hfinite hdigits
  have hnearest := h.nearest_eq hbounded.fractionBits_pos hfinite.le hden
  unfold nearestDecimal
  rw [if_neg hdigits]
  simp only
  rw [if_neg (by omega), if_neg (by omega)]
  unfold Decimal.num Decimal.den at hnearest
  split
  · have hzero : (-decimal.exponent).toNat = 0 := by omega
    rw [hzero, Nat.pow_zero] at hnearest
    exact hnearest
  · have hzero : decimal.exponent.toNat = 0 := by omega
    rw [hzero, Nat.pow_zero, Nat.mul_one] at hnearest
    exact hnearest

/-! ## Writing -/

/-- The test that a point of a grid is put to. -/
def readsBack (format : BinaryFormat) (code : Nat) (decimal : Decimal) : Bool :=
  let low := (format.units (code - 1) + format.units code) * Nat.pow 10 (-decimal.exponent).toNat
  let high := (format.units code + format.units (code + 1)) * Nat.pow 10 (-decimal.exponent).toNat
  let value :=
    decimal.digits * (Nat.pow 10 decimal.exponent.toNat * Nat.pow 2 (format.unitPlaces + 1))
  if code % 2 = 0 then low ≤ value ∧ value ≤ high else low < value ∧ value < high

theorem readsBack_iff {code : Nat} {decimal : Decimal} :
    format.readsBack code decimal = true ↔
      format.RoundsTo code (decimal.num format) decimal.den := by
  have htwice : decimal.digits *
      (Nat.pow 10 decimal.exponent.toNat * Nat.pow 2 (format.unitPlaces + 1)) =
        2 * decimal.num format := by
    unfold Decimal.num
    simp only [Nat.pow_eq]
    ring
  have hden : Nat.pow 10 (-decimal.exponent).toNat = decimal.den := rfl
  simp only [readsBack, htwice, hden]
  constructor
  · intro h
    split at h <;> rw [decide_eq_true_eq] at h
    · exact ⟨h.1, h.2, fun hodd => by omega, fun hodd => by omega⟩
    · exact ⟨h.1.le, h.2.le, fun _ => h.1, fun _ => h.2⟩
  · intro h
    split <;> rw [decide_eq_true_eq]
    · exact ⟨h.low, h.high⟩
    · exact ⟨h.lowOdd (by omega), h.highOdd (by omega)⟩

/-- The point of a grid at a code's magnitude or next below it. -/
def gridBelow (format : BinaryFormat) (code : Nat) (exponent : Int) : Nat :=
  2 * format.units code * Nat.pow 10 (-exponent).toNat /
    (Nat.pow 10 exponent.toNat * Nat.pow 2 (format.unitPlaces + 1))

/-- One of the two points around the magnitude is taken if one of them reads back. -/
theorem gridPoint?_cases (tie : TieRule) (code : Nat) (exponent : Int) :
    (∃ point, format.gridPoint? tie code exponent = some point ∧
      format.readsBack code ⟨point, exponent⟩ = true) ∨
    (format.gridPoint? tie code exponent = none ∧
      format.readsBack code ⟨format.gridBelow code exponent + 1, exponent⟩ = false) := by
  generalize hgrid : format.gridPoint? tie code exponent = found
  unfold gridPoint? at hgrid
  simp only at hgrid
  split at hgrid
  · rename_i hbelow habove
    refine .inl ⟨_, hgrid.symm, ?_⟩
    rcases roundQuotient_eq_or tie (2 * format.units code * Nat.pow 10 (-exponent).toNat)
      (Nat.pow 10 exponent.toNat * Nat.pow 2 (format.unitPlaces + 1)) with hpoint | hpoint <;>
      rw [hpoint]
    · exact hbelow
    · exact habove
  · rename_i hbelow _
    exact .inl ⟨_, hgrid.symm, hbelow⟩
  · rename_i _ habove
    exact .inl ⟨_, hgrid.symm, habove⟩
  · rename_i _ habove
    exact .inr ⟨hgrid.symm, habove⟩

/-- On a grid finer than half a unit the point next above the magnitude reads back. -/
theorem readsBack_gridBelow_succ {code : Nat} {exponent : Int}
    (hfine : 10 ^ exponent.toNat * 2 ^ (format.unitPlaces + 1) < 10 ^ (-exponent).toNat) :
    format.readsBack code ⟨format.gridBelow code exponent + 1, exponent⟩ = true := by
  rw [readsBack_iff]
  have hstep : 0 < 10 ^ exponent.toNat * 2 ^ (format.unitPlaces + 1) :=
    Nat.mul_pos (Nat.pow_pos (by decide)) (Nat.two_pow_pos _)
  have htwice : 2 * Decimal.num format ⟨format.gridBelow code exponent + 1, exponent⟩ =
      (format.gridBelow code exponent + 1) *
        (10 ^ exponent.toNat * 2 ^ (format.unitPlaces + 1)) := by
    unfold Decimal.num
    ring
  have habove : 2 * format.units code * 10 ^ (-exponent).toNat <
      format.gridBelow code exponent * (10 ^ exponent.toNat * 2 ^ (format.unitPlaces + 1)) +
        10 ^ exponent.toNat * 2 ^ (format.unitPlaces + 1) :=
    Nat.lt_div_mul_add hstep
  have hbelow : format.gridBelow code exponent *
      (10 ^ exponent.toNat * 2 ^ (format.unitPlaces + 1)) ≤
        2 * format.units code * 10 ^ (-exponent).toNat :=
    Nat.div_mul_le_self _ _
  have hlow : (format.units (code - 1) + format.units code) * 10 ^ (-exponent).toNat ≤
      2 * format.units code * 10 ^ (-exponent).toNat := by
    have hmono := format.units_mono (Nat.sub_le code 1)
    exact Nat.mul_le_mul_right _ (by omega)
  have hhigh : 2 * format.units code * 10 ^ (-exponent).toNat + 10 ^ (-exponent).toNat ≤
      (format.units code + format.units (code + 1)) * 10 ^ (-exponent).toNat := by
    have hlt := format.units_lt_units_succ code
    rw [← Nat.succ_mul]
    exact Nat.mul_le_mul_right _ (by omega)
  rw [Nat.add_mul, Nat.one_mul] at htwice
  have hden : Decimal.den ⟨format.gridBelow code exponent + 1, exponent⟩ =
    10 ^ (-exponent).toNat := rfl
  constructor <;> rw [htwice, hden] <;> omega

/-- The digits of a shortest decimal are a point of one of the grids. -/
theorem exists_gridPoint?_shortest (hbounded : format.IsBounded) (tie : TieRule) (code : Nat) :
    -(format.decimalBottom : Int) ≤ (format.shortest tie code).exponent ∧
      format.gridPoint? tie code (format.shortest tie code).exponent =
        some (format.shortest tie code).digits := by
  cases hfound : ((List.range (format.decimalTop + format.decimalBottom + 1)).map
      fun i : Nat => (format.decimalTop : Int) - i).findSome? fun exponent =>
        (format.gridPoint? tie code exponent).map fun digits => (⟨digits, exponent⟩ : Decimal) with
  | none =>
    -- The last grid cannot have been passed over.
    have hlast : -(format.decimalBottom : Int) ∈
        (List.range (format.decimalTop + format.decimalBottom + 1)).map
          fun i : Nat => (format.decimalTop : Int) - i :=
      List.mem_map.mpr ⟨format.decimalTop + format.decimalBottom,
        List.mem_range.mpr (Nat.lt_succ_self _), by omega⟩
    have hnone := Option.map_eq_none_iff.mp (List.findSome?_eq_none_iff.mp hfound _ hlast)
    have hfine : 10 ^ (-(format.decimalBottom : Int)).toNat * 2 ^ (format.unitPlaces + 1) <
        10 ^ (-(-(format.decimalBottom : Int))).toNat := by
      have hzero : (-(format.decimalBottom : Int)).toNat = 0 := by omega
      rw [hzero, Nat.pow_zero, Nat.one_mul, Int.neg_neg, Int.toNat_natCast]
      exact hbounded.bottom
    rcases gridPoint?_cases tie code (-(format.decimalBottom : Int)) with
      ⟨point, hpoint, -⟩ | ⟨-, hfails⟩
    · rw [hnone] at hpoint
      cases hpoint
    · rw [readsBack_gridBelow_succ hfine] at hfails
      cases hfails
  | some decimal =>
    obtain ⟨exponent, hmem, hpoint⟩ := List.exists_of_findSome?_eq_some hfound
    obtain ⟨point, hgrid, rfl⟩ := Option.map_eq_some_iff.mp hpoint
    obtain ⟨i, hi, rfl⟩ := List.mem_map.mp hmem
    rw [List.mem_range] at hi
    have hshortest : format.shortest tie code = ⟨point, format.decimalTop - i⟩ := by
      simp only [shortest, hfound, Option.getD_some]
    rw [hshortest]
    exact ⟨by simp only; omega, hgrid⟩

/-- A shortest decimal lies in the interval of its code. -/
theorem roundsTo_shortest (hbounded : format.IsBounded) (tie : TieRule) (code : Nat) :
    format.RoundsTo code ((format.shortest tie code).num format)
      (format.shortest tie code).den := by
  obtain ⟨-, hgrid⟩ := exists_gridPoint?_shortest hbounded tie code
  rcases gridPoint?_cases tie code (format.shortest tie code).exponent with
    ⟨point, hpoint, hreads⟩ | ⟨hnone, -⟩
  · rw [hgrid] at hpoint
    obtain rfl := Option.some.inj hpoint
    exact readsBack_iff.mp hreads
  · rw [hgrid] at hnone
    cases hnone

/-- A shortest decimal is the code again, also with its zeros among the digits. -/
theorem nearestDecimal_shortest (hbounded : format.IsBounded) (tie : TieRule) {code : Nat}
    (hcode : 0 < code) (hfinite : code < format.infinityCode) :
    format.nearestDecimal (format.shortest tie code).expanded.digits
      (format.shortest tie code).expanded.exponent = code := by
  have hroundsTo := roundsTo_shortest hbounded tie code
  rw [← Decimal.num_expanded, ← Decimal.den_expanded] at hroundsTo
  refine hroundsTo.nearestDecimal_eq hbounded hcode hfinite ?_
  obtain ⟨hbottom, -⟩ := exists_gridPoint?_shortest hbounded tie code
  simp only [Decimal.expanded]
  omega

end BinaryFormat

end SelfPlay.Numeric
