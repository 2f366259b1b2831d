import SelfPlay.GameResult
import SelfPlay.Options.SelfPlayOptions
import SelfPlay.Search.BestEval

/-!
# Resignation
-/

namespace SelfPlay

open SelfPlay.Numeric

variable {R : Type} [Scalar R]

/-- The result by outcome probabilities: the first of win, loss and draw whose probability exceeds
`limit`. -/
def verdictByOdds (limit : R) (side : Color) (odds : Odds R) : Option GameResult :=
  if Scalar.lt limit odds.win then some (.won side)
  else if Scalar.lt limit odds.loss then some (.lost side)
  else if Scalar.lt limit odds.draw then some .draw
  else none

/-- The result that an evaluation by `side` at a move number gives to the game, if it gives one. -/
def SelfPlayOptions.verdict (options : SelfPlayOptions R) (side : Color) (moveNumber : Nat)
    (eval : BestEval R) : Option GameResult :=
  if moveNumber < options.resignEarliestMove then none
  else if options.resignWdlStyle then
    verdictByOdds (Scalar.one - options.resignFraction) side eval.odds
  else if Scalar.lt eval.winRate options.resignFraction then some (.lost side)
  else none

end SelfPlay
