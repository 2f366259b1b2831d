import SelfPlay.Numeric.BinaryFormat

/-!
# The shortest decimal that reads back

A finite magnitude is the nearest one to every real of an interval around it, ends included exactly
if its code is even. `shortest` walks decimal grids from coarse to fine and stops at the first
that has a point in this interval: of the grid's two points next to the magnitude it takes the one
that reads back, of two the nearer.
-/

namespace SelfPlay.Numeric

/-- A nonnegative decimal number: `digits · 10 ^ exponent`. -/
structure Decimal where
  /-- All digits, read as one number. -/
  digits : Nat
  /-- The power of ten of the last digit. -/
  exponent : Int
deriving DecidableEq, Repr

namespace BinaryFormat

variable (format : BinaryFormat)

/-- The point of the grid with step `10 ^ exponent` that is nearest to the magnitude of `code`
among those that read back as it, if there is one. Lengths are counted in half units. -/
def gridPoint? (tie : TieRule) (code : Nat) (exponent : Int) : Option Nat :=
  let num := Nat.pow 10 exponent.toNat * Nat.pow 2 (format.unitPlaces + 1)
  let den := Nat.pow 10 (-exponent).toNat
  let value := format.units code
  let low := (format.units (code - 1) + value) * den
  let high := (value + format.units (code + 1)) * den
  let exact := 2 * value * den
  let readsBack (point : Nat) : Bool :=
    if code % 2 = 0 then low ≤ point * num ∧ point * num ≤ high
    else low < point * num ∧ point * num < high
  let below := exact / num
  match readsBack below, readsBack (below + 1) with
  | true, true => some (roundQuotient tie exact num)
  | true, false => some below
  | false, true => some (below + 1)
  | false, false => none

/-- The shortest decimal that reads back as the finite magnitude of `code`. -/
def shortest (tie : TieRule) (code : Nat) : Decimal :=
  let grids := (List.range (format.decimalTop + format.decimalBottom + 1)).map
    fun i : Nat => (format.decimalTop : Int) - i
  let found := grids.findSome? fun exponent =>
    (format.gridPoint? tie code exponent).map fun digits => ⟨digits, exponent⟩
  found.getD ⟨0, 0⟩

end BinaryFormat

end SelfPlay.Numeric
