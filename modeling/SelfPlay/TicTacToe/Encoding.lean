import SelfPlay.TicTacToe.Position

/-!
# Positions as network input

Each position of a game gives two planes, the stones of the side to move *now* and those of its
opponent, seen from that side. The canonical format exchanges left and right when that makes the
current pair smaller; the classical format adds a plane for the side to move instead. A plane of
ones closes the list.
-/

namespace SelfPlay.TicTacToe

open SelfPlay.Numeric

/-- The stones of the side to move and of its opponent, as the side to move sees them. -/
structure StonePair where
  /-- Stones of the side to move. -/
  ours : Stones
  theirs : Stones
deriving DecidableEq, Repr

namespace StonePair

def none : StonePair := ⟨0, 0⟩

/-- The stones of a position as `side` sees them. -/
def seenBy (side : Color) (position : Position) : StonePair :=
  match side with
  | .white => ⟨position.white, position.black⟩
  | .black => ⟨position.black.mirrorRanks, position.white.mirrorRanks⟩

/-- The pair with left and right exchanged. -/
def flipFiles (pair : StonePair) : StonePair := ⟨pair.ours.flipFiles, pair.theirs.flipFiles⟩

/-- Pairs are compared by our stones first. -/
def less (a b : StonePair) : Bool :=
  a.ours.toNat < b.ours.toNat || a.ours == b.ours && a.theirs.toNat < b.theirs.toNat

def planes (pair : StonePair) : List Plane :=
  [⟨UInt64.ofNat pair.ours.toNat, 1⟩, ⟨UInt64.ofNat pair.theirs.toNat, 1⟩]

end StonePair

/-- The first `count` positions as `side` sees them, with `fill` for those that are missing. -/
def stonePairs (side : Color) (fill : StonePair) : Nat → List Position → List StonePair
  | 0, _ => []
  | count + 1, [] => fill :: stonePairs side fill count []
  | count + 1, position :: earlier =>
    StonePair.seenBy side position :: stonePairs side fill count earlier

/-- The pair that stands for positions from before the start of a game. -/
def fillPair (side : Color) (fill : HistoryFill) (start : Position) : StonePair :=
  match fill with
  | .no => .none
  | .always => .seenBy side start
  | .fenOnly =>
    if start.ply = 0 ∧ start.occupied = 0 then .none else .seenBy side start

/-- Whether the canonical format exchanges left and right. -/
def isFlipped : List StonePair → Bool
  | [] => false
  | current :: _ => current.flipFiles.less current

/-- The planes after the stones: in the classical format one of ones for black to move and of zeros
for white, and in both formats one of ones. -/
def closingPlanes (side : Color) : InputFormat → List Plane
  | .classical => [Plane.filled (if side.isBlack then 1 else 0), Plane.filled 1]
  | .canonical => [Plane.filled 1]

/-- A game, newest position first, as shown to a network. -/
def encode (positions : List Position) (format : InputFormat) (count : Nat) (fill : HistoryFill) :
    Encoded :=
  match positions with
  | [] => ⟨[], 0⟩
  | current :: earlier =>
    let side := current.sideToMove
    let start := (current :: earlier).getLast (by simp)
    let pairs := stonePairs side (fillPair side fill start) count (current :: earlier)
    let flipped := format == .canonical && isFlipped pairs
    let shown := if flipped then pairs.map StonePair.flipFiles else pairs
    ⟨shown.flatMap StonePair.planes ++ closingPlanes side format, if flipped then 1 else 0⟩

end SelfPlay.TicTacToe
