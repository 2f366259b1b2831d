import SelfPlay.GameResult
import SelfPlay.Search.BestEval

/-!
# The extreme evaluations of a game

How close a game came to being given up wrongly is told by the worst evaluation that the eventual
winner saw: its least win rate, or, when outcomes are judged by their probabilities, the greatest
probability of an outcome that did not come about.
-/

namespace SelfPlay

open SelfPlay.Numeric

/-- The extreme evaluations so far. -/
structure EvalMarks (R : Type) where
  /-- Each side's least win rate. -/
  leastWinRate : PerSide R
  /-- The greatest probability of a win of each side. -/
  greatestWin : PerSide R
  /-- The greatest probability of a draw. -/
  greatestDraw : R
deriving DecidableEq, Repr

namespace EvalMarks

variable {R : Type} [Scalar R]

/-- Before any evaluation. -/
def start : EvalMarks R :=
  ⟨⟨Scalar.one, Scalar.one⟩, ⟨Scalar.zero, Scalar.zero⟩, Scalar.zero⟩

/-- After a further evaluation by `side`. -/
def update (marks : EvalMarks R) (side : Color) (eval : BestEval R) : EvalMarks R :=
  let odds := eval.odds
  let wins : PerSide R := match side with
    | .white => ⟨odds.win, odds.loss⟩
    | .black => ⟨odds.loss, odds.win⟩
  { leastWinRate :=
      marks.leastWinRate.set side (Scalar.min (marks.leastWinRate.get side) eval.winRate)
    greatestWin :=
      ⟨Scalar.max marks.greatestWin.white wins.white, Scalar.max marks.greatestWin.black wins.black⟩
    greatestDraw := Scalar.max marks.greatestDraw odds.draw }

/-- The worst evaluation that the winner saw, or either side in a game without winner. With
`wdlStyle` it is the greatest probability of the outcomes that did not come about. -/
def worst (marks : EvalMarks R) (wdlStyle : Bool) (result : GameResult) : R :=
  if wdlStyle then
    match result with
    | .won winner => Scalar.max marks.greatestDraw (marks.greatestWin.get winner.opponent)
    | _ => Scalar.max marks.greatestWin.black marks.greatestWin.white
  else
    match result with
    | .won winner => marks.leastWinRate.get winner
    | _ => Scalar.min marks.leastWinRate.white marks.leastWinRate.black

end EvalMarks

end SelfPlay
