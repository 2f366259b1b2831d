import SelfPlay.TicTacToe.Game

/-!
# Boards played with stones

A stone board is any board whose positions hold tic-tac-toe stones and whose moves put a stone on a
vacant square. It may add rules of its own, but takes no stone away and allows no move that
tic-tac-toe forbids.
-/

namespace SelfPlay.TicTacToe

/-- Boards whose moves put stones on vacant squares. -/
class StoneBoard (P : Type) [Board P Square] where
  stones : P → Position
  /-- The number of moves is that of the stones. -/
  ply_eq : ∀ position, Board.ply position = (stones position).ply
  /-- A move puts a stone on its square. -/
  stones_play : ∀ position move, stones (Board.play position move) = (stones position).play move
  /-- Legal moves are legal for the stones. -/
  legal_of_mem : ∀ position, ∀ move ∈ Board.legalMoves position,
    move ∈ (stones position).legalMoves

instance : StoneBoard Position where
  stones := id
  ply_eq _ := rfl
  stones_play _ _ := rfl
  legal_of_mem _ _ h := h

end SelfPlay.TicTacToe
