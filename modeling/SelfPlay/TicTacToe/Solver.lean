import SelfPlay.Tablebase
import SelfPlay.TicTacToe.StoneBoard

/-!
# Perfect play

`solve` gives the value of a position for the side to move, 1 for a win, 0 for a draw and -1 for a
loss, by trying all legal moves and stopping at the first that wins. A game that a line has decided
counts as lost for the side to move.
-/

namespace SelfPlay.TicTacToe

/-- The best of `best` and of the scores of the remaining moves, where a move scores what its
position is worth to the opponent, negated. No further move is tried after a win. -/
def bestScore (value : Square → Int) (best : Int) : List Square → Int
  | [] => best
  | move :: rest =>
    let score := -value move
    if best < score then
      if score = 1 then score else bestScore value score rest
    else bestScore value best rest

/-- The value of a position from which at most `depth` moves can be made. -/
def solveWithin : Nat → Position → Int
  | depth, position =>
    match position.result, depth with
    | .draw, _ => 0
    | .won _, _ => -1
    | .undecided, 0 => -1
    | .undecided, depth + 1 =>
      bestScore (fun move => solveWithin depth (position.play move)) (-1) position.legalMoves

/-- The value of a position for the side to move: there are no more moves than vacant squares. -/
def solve (position : Position) : Int := solveWithin position.vacant.length position

/-- The outcome that a value stands for. -/
def outcomeOf (value : Int) : Wdl :=
  if value = 1 then .win else if value = -1 then .loss else .draw

variable {P : Type} [Board P Square] [StoneBoard P]

/-- The tablebase that solves the stones of every position with at most `maxPieces` of them. -/
def perfectTablebase (ω : Type) (maxPieces : Nat) : Tablebase ω P where
  maxPieces := maxPieces
  probe position world := ((outcomeOf (solve (StoneBoard.stones position)), .ok), world)

theorem perfectTablebase_isFixed (ω : Type) (maxPieces : Nat) :
    (perfectTablebase ω maxPieces : Tablebase ω P).IsFixed
      fun position => (outcomeOf (solve (StoneBoard.stones position)), .ok) :=
  fun _ _ => rfl

end SelfPlay.TicTacToe
