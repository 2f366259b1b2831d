import SelfPlay.TicTacToe.Stones

/-!
# Tic-tac-toe positions

White puts `x` and moves first, black puts `o`. The number of moves is kept beside the stones,
since a stone may also be put on a taken square when nobody checks.
-/

namespace SelfPlay.TicTacToe

structure Position where
  white : Stones
  black : Stones
  /-- The number of moves from the empty board. -/
  ply : Nat
deriving DecidableEq, Repr

namespace Position

def empty : Position := ⟨0, 0, 0⟩

def sideToMove (position : Position) : Color := Color.ofPly position.ply

/-- The taken squares. -/
def occupied (position : Position) : Stones := position.white ||| position.black

/-- The side whose stone is seen on a square; white's is seen where both put one. -/
def stoneAt (position : Position) (square : Square) : Option Color :=
  if position.white.has square then some .white
  else if position.black.has square then some .black
  else none

/-- The rules' verdict. A line of white's counts before a line of black's. -/
def result (position : Position) : GameResult :=
  if position.white.hasLine then .won .white
  else if position.black.hasLine then .won .black
  else if position.occupied = Stones.full then .draw
  else .undecided

/-- The position after the side to move has put a stone on a square, taken or not. -/
def put (position : Position) (square : Square) : Position :=
  match position.sideToMove with
  | .white => { position with white := position.white.insert square, ply := position.ply + 1 }
  | .black => { position with black := position.black.insert square, ply := position.ply + 1 }

/-- The position after a relative move. -/
def play (position : Position) (move : Square) : Position :=
  position.put (BoardMove.relativeTo move position.sideToMove)

/-- The squares that are not taken, in the order of their numbers. -/
def vacant (position : Position) : List Square :=
  Square.all.filter fun square => !position.occupied.has square

/-- The legal moves, relative: the vacant squares of an undecided position. -/
def legalMoves (position : Position) : List Square :=
  if position.result.isTerminal then []
  else position.vacant.map fun square => BoardMove.relativeTo square position.sideToMove

end Position

end SelfPlay.TicTacToe
