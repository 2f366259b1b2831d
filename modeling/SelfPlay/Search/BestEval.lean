import SelfPlay.Numeric.Scalar

/-!
# The evaluation of a best move

A search values its best move by the expected score of the side to move, the probability of a draw
and the expected number of moves left. Win and loss probabilities follow from the first two.
-/

namespace SelfPlay

open SelfPlay.Numeric

/-- The value of a best move for the side to move. -/
structure BestEval (R : Type) where
  /-- The probability of winning less that of losing. -/
  wl : R
  /-- The probability of a draw. -/
  d : R
  /-- The expected number of moves left. -/
  ml : R
deriving DecidableEq, Repr

/-- Probabilities of the three outcomes. -/
structure Odds (R : Type) where
  win : R
  draw : R
  loss : R
deriving DecidableEq, Repr

namespace BestEval

variable {R : Type} [Scalar R]

def odds (eval : BestEval R) : Odds R :=
  let win := (eval.wl + Scalar.one - eval.d) / Scalar.ofNat 2
  ⟨win, eval.d, win - eval.wl⟩

/-- The expected score on a scale from zero to one. -/
def winRate (eval : BestEval R) : R := (eval.wl + Scalar.one) / Scalar.ofNat 2

end BestEval

end SelfPlay
