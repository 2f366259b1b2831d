import SelfPlay.Numeric.Binary32

/-!
# Numbers that evaluations are made of

Evaluations, resignation thresholds and training targets are computed in single precision. The
formulas themselves need only the operations below, so they are stated for any `Scalar`: at
`Binary32` they are what runs, at `Rat` they say what the rounding approximates.
-/

namespace SelfPlay.Numeric

/-- A type of numbers with the operations that evaluations use. -/
class Scalar (R : Type) extends Add R, Sub R, Neg R, Div R where
  ofNat : Nat → R
  /-- Strictly less; false when a side is no number. -/
  lt : R → R → Bool
  isNaN : R → Bool

instance : Scalar Binary32 where
  ofNat := Binary32.ofNat
  lt := Binary32.lt
  isNaN := Binary32.isNaN

instance : Scalar Rat where
  ofNat n := n
  lt x y := decide (x < y)
  isNaN _ := false

namespace Scalar

variable {R : Type} [Scalar R]

def zero : R := ofNat 0

def one : R := ofNat 1

/-- The smaller of two numbers; a value that is no number gives way to the other one. -/
def min (x y : R) : R := if isNaN x || lt y x then y else x

/-- The greater of two numbers; a value that is no number gives way to the other one. -/
def max (x y : R) : R := if isNaN x || lt x y then y else x

theorem lt_rat (x y : Rat) : lt x y = decide (x < y) := rfl

theorem ofNat_rat (n : Nat) : (ofNat n : Rat) = n := rfl

theorem one_rat : (one : Rat) = 1 := rfl

end Scalar

end SelfPlay.Numeric
