import SelfPlay.TicTacToe.Encoding
import SelfPlay.TicTacToe.Fen

/-!
# Tic-tac-toe as a board

There is no castling, so each move is written as it is. The rules look at the current position
only; of no position at all they decide nothing.
-/

namespace SelfPlay.TicTacToe

instance : Board Position Square where
  ofFen := Position.ofFen
  toFen := Position.toFen
  ply := Position.ply
  legalMoves := Position.legalMoves
  play := Position.play
  noLegalCastle _ := true
  pieceCount position := position.occupied.count
  legacyMove _ move := move
  result
    | [] => .undecided
    | current :: _ => current.result
  encode := encode

end SelfPlay.TicTacToe
