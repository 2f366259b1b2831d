import SelfPlay.Numeric.BinaryFormat

/-!
# Single-precision numbers

`Binary32` is a single-precision number given by its bits. Arithmetic is exact arithmetic on whole
multiples of the least positive number followed by one rounding; comparison goes through an
integer `key` that orders all numbers, with the two zeros equal, and every comparison with a value
that is not a number fails.
-/

namespace SelfPlay.Numeric

/-- A single-precision number: sign in the highest bit, then eight bits of exponent and
twenty-three bits of fraction. -/
structure Binary32 where
  bits : UInt32
deriving DecidableEq, Repr

namespace Binary32

/-- The value of the highest bit. -/
def signBit : Nat := 0x80000000

/-- The number with the given sign and magnitude code. -/
def ofCode (negative : Bool) (code : Nat) : Binary32 :=
  ⟨UInt32.ofNat (code + if negative then signBit else 0)⟩

/-- The sign bit. -/
def negative (x : Binary32) : Bool := signBit ≤ x.bits.toNat

/-- The magnitude code: the word without its sign bit. -/
def code (x : Binary32) : Nat := x.bits.toNat % signBit

/-- Whether `x` is no number. -/
def isNaN (x : Binary32) : Bool := BinaryFormat.single.infinityCode < x.code

def isInfinite (x : Binary32) : Bool := x.code = BinaryFormat.single.infinityCode

def isZero (x : Binary32) : Bool := x.code = 0

/-- The quiet value that is no number. -/
def nan : Binary32 := ⟨0x7fc00000⟩

/-- Infinity of the given sign. -/
def infinity (negative : Bool) : Binary32 :=
  ofCode negative BinaryFormat.single.infinityCode

/-- Zero of the given sign. -/
def zero (negative : Bool) : Binary32 := ofCode negative 0

/-- The integer that orders numbers: the signed magnitude code. -/
def key (x : Binary32) : Int := if x.negative then -(x.code : Int) else x.code

/-- `x` is less than `y`; false when either is no number. -/
def lt (x y : Binary32) : Bool := !x.isNaN && !y.isNaN && decide (x.key < y.key)

/-- `x` is at most `y`; false when either is no number. -/
def le (x y : Binary32) : Bool := !x.isNaN && !y.isNaN && decide (x.key ≤ y.key)

/-- `x` and `y` are the same number; the two zeros are, and nothing equals a value that is no
number. -/
def same (x y : Binary32) : Bool := !x.isNaN && !y.isNaN && decide (x.key = y.key)

/-- The exact value of a finite number as a multiple of the least positive one. -/
def units (x : Binary32) : Int :=
  let magnitude : Int := BinaryFormat.single.units x.code
  if x.negative then -magnitude else magnitude

/-- The number nearest to `num / den` units, with the given sign. -/
def nearest (negative : Bool) (num den : Nat) : Binary32 :=
  ofCode negative (BinaryFormat.single.nearest num den)

/-- The number nearest to `digits · 10 ^ exponent`, with the given sign. -/
def ofDecimal (negative : Bool) (digits : Nat) (exponent : Int) : Binary32 :=
  ofCode negative (BinaryFormat.single.nearestDecimal digits exponent)

def ofNat (n : Nat) : Binary32 := nearest false (n * Nat.pow 2 BinaryFormat.single.unitPlaces) 1

def ofInt (n : Int) : Binary32 :=
  nearest (n < 0) (n.natAbs * Nat.pow 2 BinaryFormat.single.unitPlaces) 1

instance (n : Nat) : OfNat Binary32 n := ⟨ofNat n⟩

/-- `-x`: the sign bit is turned over, also of zeros and of values that are no numbers. -/
def neg (x : Binary32) : Binary32 := ofCode (!x.negative) x.code

/-- `x + y`, rounded once. An exact sum of zero is positive unless both are negative. -/
def add (x y : Binary32) : Binary32 :=
  if x.isNaN || y.isNaN then nan
  else if x.isInfinite then
    if y.isInfinite && x.negative != y.negative then nan else x
  else if y.isInfinite then y
  else
    let sum := x.units + y.units
    if sum = 0 then zero (x.negative && y.negative)
    else nearest (sum < 0) sum.natAbs 1

/-- `x - y`, rounded once. -/
def sub (x y : Binary32) : Binary32 := x.add y.neg

/-- `x * y`, rounded once. -/
def mul (x y : Binary32) : Binary32 :=
  let sign := x.negative != y.negative
  if x.isNaN || y.isNaN then nan
  else if x.isInfinite || y.isInfinite then
    if x.isZero || y.isZero then nan else infinity sign
  else nearest sign (x.units.natAbs * y.units.natAbs) (Nat.pow 2 BinaryFormat.single.unitPlaces)

/-- `x / y`, rounded once. A finite number over zero is infinite, zero over zero is no number. -/
def div (x y : Binary32) : Binary32 :=
  let sign := x.negative != y.negative
  if x.isNaN || y.isNaN then nan
  else if x.isInfinite then if y.isInfinite then nan else infinity sign
  else if y.isInfinite then zero sign
  else if y.isZero then if x.isZero then nan else infinity sign
  else nearest sign (x.units.natAbs * Nat.pow 2 BinaryFormat.single.unitPlaces) y.units.natAbs

instance : Neg Binary32 := ⟨neg⟩
instance : Add Binary32 := ⟨add⟩
instance : Sub Binary32 := ⟨sub⟩
instance : Mul Binary32 := ⟨mul⟩
instance : Div Binary32 := ⟨div⟩

instance : Inhabited Binary32 := ⟨zero false⟩

end Binary32

end SelfPlay.Numeric
