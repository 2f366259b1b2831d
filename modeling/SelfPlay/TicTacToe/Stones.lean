import SelfPlay.TicTacToe.Square

/-!
# Sets of squares

The stones of one side are a word of nine bits, one for each square by its number.
-/

namespace SelfPlay.TicTacToe

abbrev Stones := BitVec 9

namespace Stones

def single (square : Square) : Stones := BitVec.twoPow 9 square.index.val

def has (stones : Stones) (square : Square) : Bool := stones.getLsbD square.index.val

def insert (stones : Stones) (square : Square) : Stones := stones ||| single square

def count (stones : Stones) : Nat := Square.all.countP (has stones)

/-- The three ranks, the three files and the two diagonals. -/
def lines : List Stones := [0x007, 0x038, 0x1C0, 0x049, 0x092, 0x124, 0x111, 0x054]

def hasLine (stones : Stones) : Bool := lines.any fun line => stones &&& line == line

def full : Stones := 0x1FF

/-- The set on the board turned upside down. -/
def mirrorRanks (stones : Stones) : Stones :=
  (stones &&& 0x007) <<< 6 ||| stones &&& 0x038 ||| (stones &&& 0x1C0) >>> 6

/-- The set on the board with left and right exchanged. -/
def flipFiles (stones : Stones) : Stones :=
  (stones &&& 0x049) <<< 2 ||| stones &&& 0x092 ||| (stones &&& 0x124) >>> 2

end Stones

end SelfPlay.TicTacToe
