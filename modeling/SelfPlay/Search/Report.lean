import SelfPlay.Board.GameRecord

/-!
# What a search reports to its user

Best moves and thinking reports hold lines of absolute moves from the searched position. Unless the
notation in which a castling king takes its own rook is wanted, each move of a line is rewritten in
the position that it would be played in.
-/

namespace SelfPlay

structure BestMove (M : Type) where
  move : M
  ponder : Option M
deriving DecidableEq, Repr

/-- A thinking report: one line of play and what is known about it. -/
structure ThinkingInfo (M : Type) where
  depth : Nat
  /-- Depth of the deepest line in moves. -/
  selectiveDepth : Nat
  /-- Milliseconds used. -/
  time : Nat
  nodes : Nat
  nodesPerSecond : Nat
  /-- The value in hundredths of a pawn. -/
  score : Option Int
  /-- Wins, draws and losses in a thousand. -/
  odds : Option (Nat × Nat × Nat)
  movesLeft : Option Nat
  /-- The line's place among several. -/
  rank : Nat
  line : List M
  /-- A remark. -/
  comment : Option String
deriving DecidableEq, Repr

/-- A report that says nothing but a line. -/
def ThinkingInfo.ofLine {M : Type} (line : List M) : ThinkingInfo M :=
  ⟨0, 0, 0, 0, 0, none, none, none, 1, line, none⟩

/-- A best move that was given up because it had too few visits. -/
structure DiscardedMove (M : Type) where
  fen : String
  /-- The moves from there, the discarded one last. -/
  moves : List M
deriving DecidableEq, Repr

section

variable {P M : Type} [BoardMove M] [Board P M]

/-- A line of absolute moves from a position, each written as the king's own move if it castles. -/
def legacyLine (position : P) : List M → List M
  | [] => []
  | move :: rest =>
    let relative := BoardMove.relativeTo move (Board.sideToMove position)
    GameRecord.written false position relative :: legacyLine (Board.play position relative) rest

/-- The report of a best move, its line written by `legacyLine`. -/
def BestMove.toLegacy (position : P) (info : BestMove M) : BestMove M :=
  match legacyLine position (info.move :: info.ponder.toList) with
  | [] => info
  | move :: rest => ⟨move, rest.head?⟩

/-- The thinking report, its line written by `legacyLine`. -/
def ThinkingInfo.toLegacy (position : P) (info : ThinkingInfo M) : ThinkingInfo M :=
  { info with line := legacyLine position info.line }

theorem length_legacyLine (position : P) (line : List M) :
    (legacyLine position line).length = line.length := by
  induction line generalizing position with
  | nil => rfl
  | cons move rest ih => simp [legacyLine, ih]

end

/-- Where reports go. Each receiver changes the world and says whether the game shall stop. -/
structure Callbacks (ω M : Type) where
  bestMove : BestMove M → ω → ω × Bool
  thinking : List (ThinkingInfo M) → ω → ω × Bool
  discarded : DiscardedMove M → ω → ω × Bool

def Callbacks.silent (ω M : Type) : Callbacks ω M where
  bestMove _ world := (world, false)
  thinking _ world := (world, false)
  discarded _ world := (world, false)

end SelfPlay
