import SelfPlay.Lookahead.Batch
import SelfPlay.TicTacToe.StoneBoard

/-!
# How long a batch of games with stones can take
-/

namespace SelfPlay.TicTacToe

open SelfPlay.Lookahead

/-- A number of rounds that is enough for a batch: in each round but the last some game takes one
of its vacant squares or is drawn for want of moves. -/
def roundLimit {P : Type} [Board P Square] [StoneBoard P] (batch : Batch P Square) : Nat :=
  (batch.games.map fun game => (StoneBoard.stones game.record.head).vacant.length + 1).foldr
    (· + ·) 1

end SelfPlay.TicTacToe
