import SelfPlay.Color

/-!
# Results of games

A game is undecided until it is won by a side or drawn, once.
-/

namespace SelfPlay

/-- How a game stands. -/
inductive GameResult where
  | undecided
  | won (side : Color)
  | draw
deriving DecidableEq, Repr, Inhabited

namespace GameResult

def isTerminal : GameResult → Bool
  | .undecided => false
  | _ => true

/-- A loss for one side is a win for the other. -/
def lost (side : Color) : GameResult := .won side.opponent

/-- The points of one side: one for a win, minus one for a loss, zero for anything else. -/
def score (result : GameResult) (side : Color) : Int :=
  match result with
  | .won winner => if winner = side then 1 else -1
  | _ => 0

def label : GameResult → String
  | .undecided => "undecided"
  | .won .white => "white_won"
  | .won .black => "black_won"
  | .draw => "draw"

theorem isTerminal_eq_false_iff {result : GameResult} :
    result.isTerminal = false ↔ result = .undecided := by cases result <;> simp [isTerminal]

theorem eq_undecided_of_not_isTerminal {result : GameResult} (h : ¬result.isTerminal = true) :
    result = .undecided :=
  isTerminal_eq_false_iff.mp (Bool.eq_false_iff.mpr h)

/-- What one side gains the other loses. -/
theorem score_opponent (result : GameResult) (side : Color) :
    result.score side.opponent = -result.score side := by
  cases result with
  | won winner => cases winner <;> cases side <;> rfl
  | _ => rfl

end GameResult

end SelfPlay
