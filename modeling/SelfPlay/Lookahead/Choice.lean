import SelfPlay.Numeric.Binary32

/-!
# Choosing the greatest value

The last of equally great values is chosen. A value that is no number is never less than the one
before it nor greater than the one after it, so it always replaces what was chosen so far and is
always replaced.
-/

namespace SelfPlay.Lookahead

open SelfPlay.Numeric

/-- The best of `best` and of the values from number `index` on, with its number: a value takes the
place of the best so far unless it is less. -/
def bestFrom (best : Nat × Binary32) (index : Nat) : List Binary32 → Nat × Binary32
  | [] => best
  | value :: rest =>
    bestFrom (if value.lt best.2 then best else (index, value)) (index + 1) rest

/-- The number of the chosen value; `none` if there are no values. -/
def selectBest : List Binary32 → Option Nat
  | [] => none
  | value :: rest => some (bestFrom (0, value) 1 rest).1

end SelfPlay.Lookahead
