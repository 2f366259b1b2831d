/-!
# Rounding quotients to the nearest integer

The quotient `num / den` of two naturals lies between two neighbouring integers. `roundQuotient`
takes the nearer one; when both are equally near, a `TieRule` decides.
-/

namespace SelfPlay.Numeric

/-- Which neighbour wins when a quotient lies exactly between two integers. -/
inductive TieRule where
  /-- The even one. -/
  | toEven
  /-- The greater one. -/
  | up
deriving DecidableEq, Repr

/-- The integer nearest to `num / den`, a tie going as `tie` says. -/
def roundQuotient (tie : TieRule) (num den : Nat) : Nat :=
  let q := num / den
  let twice := 2 * (num % den)
  if twice < den then q
  else if den < twice then q + 1
  else match tie with
    | .toEven => q + q % 2
    | .up => q + 1

end SelfPlay.Numeric
