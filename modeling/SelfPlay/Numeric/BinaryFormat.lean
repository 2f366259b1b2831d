import SelfPlay.Numeric.Rounding

/-!
# Binary floating-point formats

A format stores the magnitude of a number as one natural number, its *code*. Codes are ordered as
the magnitudes are, the code after the greatest finite one stands for infinity, and all greater
codes are not numbers. A finite magnitude is a whole multiple of the least positive one, the
*unit*; `units` gives the multiple and `nearest` goes back, rounding to nearest with ties to even.
-/

namespace SelfPlay.Numeric

/-- The shape of a binary floating-point format. -/
structure BinaryFormat where
  fractionBits : Nat
  exponentBits : Nat
  /-- One unit is two to the power of minus this. -/
  unitPlaces : Nat
  /-- Every finite magnitude is below ten to the power of this. -/
  decimalTop : Nat
  /-- Every finite positive magnitude has a shortest decimal that ends at this place or before. -/
  decimalBottom : Nat

/-- Single precision: 24 significant bits, least positive magnitude `2⁻¹⁴⁹`. -/
def BinaryFormat.single : BinaryFormat where
  fractionBits := 23
  exponentBits := 8
  unitPlaces := 149
  decimalTop := 39
  decimalBottom := 60

/-- Double precision: 53 significant bits, least positive magnitude `2⁻¹⁰⁷⁴`. -/
def BinaryFormat.double : BinaryFormat where
  fractionBits := 52
  exponentBits := 11
  unitPlaces := 1074
  decimalTop := 309
  decimalBottom := 350

namespace BinaryFormat

variable (format : BinaryFormat)

/-- The code of infinity. -/
def infinityCode : Nat := (Nat.pow 2 format.exponentBits - 1) * Nat.pow 2 format.fractionBits

/-- The magnitude that a finite code stands for, as a multiple of the unit. -/
def units (code : Nat) : Nat :=
  let exponent := code / Nat.pow 2 format.fractionBits
  let fraction := code % Nat.pow 2 format.fractionBits
  if exponent = 0 then fraction
  else (fraction + Nat.pow 2 format.fractionBits) * Nat.pow 2 (exponent - 1)

/-- The code nearest to `num / den` units. The significand is rounded at the place of its last
bit; a carry out of it lands in the exponent, which is what the next code means. -/
def nearest (num den : Nat) : Nat :=
  let shift := Nat.log2 (num / den) - format.fractionBits
  let significand := roundQuotient .toEven num (den * Nat.pow 2 shift)
  min format.infinityCode (shift * Nat.pow 2 format.fractionBits + significand)

/-- The code nearest to `digits · 10 ^ exponent`. Exponents far outside the format are cut off
before any power is taken. -/
def nearestDecimal (digits : Nat) (exponent : Int) : Nat :=
  if digits = 0 then 0
  else
    let top := exponent + Nat.log2 digits / 4
    let bottom := exponent + Nat.log2 digits
    if top > format.decimalTop then format.infinityCode
    else if bottom < -(format.decimalBottom : Int) then 0
    else if 0 ≤ exponent then
      format.nearest (digits * Nat.pow 10 exponent.toNat * Nat.pow 2 format.unitPlaces) 1
    else
      format.nearest (digits * Nat.pow 2 format.unitPlaces) (Nat.pow 10 (-exponent).toNat)

end BinaryFormat

end SelfPlay.Numeric
