import SelfPlay.Error
import SelfPlay.GameResult
import SelfPlay.Numeric.Binary32

/-!
# Boards

A `Board` is a two-player game as self-play sees it: positions, moves, the rules' verdict on a list
of positions, and the planes that a network is shown. Moves are *absolute* when they name squares
of the board and *relative* when they name squares as the side to move sees them, with the board
turned upside down for black. Lists of positions have the newest one first.
-/

namespace SelfPlay

open SelfPlay.Numeric

/-- How a network wants positions to be encoded. -/
inductive InputFormat where
  /-- The side to move has a plane of its own. -/
  | classical
  /-- Positions are normalised by a symmetry, and the side to move is not shown. -/
  | canonical
deriving DecidableEq, Repr, Inhabited

/-- What stands in for positions from before the start of a game. -/
inductive HistoryFill where
  /-- Nothing. -/
  | no
  /-- The start position, if it is not the game's usual one. -/
  | fenOnly
  /-- The start position. -/
  | always
deriving DecidableEq, Repr, Inhabited

/-- One input plane: a value on the squares of a mask. -/
structure Plane where
  /-- The squares that carry the value. -/
  mask : UInt64
  value : Binary32
deriving DecidableEq, Repr

/-- The plane with the same value on all squares. -/
def Plane.filled (value : Binary32) : Plane := ⟨0xFFFFFFFFFFFFFFFF, value⟩

/-- A list of positions as a network sees it. -/
structure Encoded where
  planes : List Plane
  /-- Which symmetry was applied, zero for none. -/
  transform : Nat
deriving DecidableEq, Repr

/-- Moves that can be turned upside down and written. -/
class BoardMove (M : Type) where
  /-- The move on the board turned upside down. -/
  mirrored : M → M
  text : M → String

/-- Turning a move upside down twice changes nothing. -/
class LawfulMove (M : Type) [BoardMove M] : Prop where
  mirrored_mirrored : ∀ move : M, BoardMove.mirrored (BoardMove.mirrored move) = move

/-- The move as `side` sees it, or back: turned upside down for black. -/
def BoardMove.relativeTo {M : Type} [BoardMove M] (move : M) (side : Color) : M :=
  if side.isBlack then mirrored move else move

theorem BoardMove.relativeTo_relativeTo {M : Type} [BoardMove M] [LawfulMove M] (move : M)
    (side : Color) : relativeTo (relativeTo move side) side = move := by
  cases side with
  | white => rfl
  | black => exact LawfulMove.mirrored_mirrored move

/-- A game with positions `P` and moves `M`. -/
class Board (P : Type) (M : outParam Type) where
  ofFen : String → Except Error P
  toFen : P → String
  /-- The number of moves from the start of the game. -/
  ply : P → Nat
  /-- The legal moves, relative. -/
  legalMoves : P → List M
  /-- The position after a relative move, legal or not. -/
  play : P → M → P
  /-- Whether neither side may still castle. -/
  noLegalCastle : P → Bool
  pieceCount : P → Nat
  /-- A relative move with castling written as the king's own two-step move. -/
  legacyMove : P → M → M
  /-- The rules' verdict on a game, newest position first. -/
  result : List P → GameResult
  /-- A game as shown to a network, newest position first, with planes for the given number of
  positions. -/
  encode : List P → InputFormat → Nat → HistoryFill → Encoded

namespace Board

variable {P M : Type} [Board P M]

def sideToMove (position : P) : Color := Color.ofPly (ply position)

end Board

end SelfPlay
