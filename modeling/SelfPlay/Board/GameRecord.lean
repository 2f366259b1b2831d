import SelfPlay.Board.History
import SelfPlay.Opening

/-!
# Game records

A record holds the current position and, for each move of the game, the move with the position it
was played in. So a record cannot have more or fewer positions than its moves call for, and each
move can be written in the notation that its own position asks for.
-/

namespace SelfPlay

/-- A game in progress. -/
structure GameRecord (P M : Type) where
  /-- The current position. -/
  head : P
  /-- The moves played, relative, each with the position before it, newest first. -/
  played : List (P × M)
deriving Repr

namespace GameRecord

variable {P M : Type}

/-- The record of a game that has just begun. -/
def ofStart (start : P) : GameRecord P M := ⟨start, []⟩

def history (record : GameRecord P M) : History P := ⟨record.head, record.played.map (·.1)⟩

/-- The number of moves from the start position. -/
def moveCount (record : GameRecord P M) : Nat := record.played.length

/-- There is one position more than there are moves. -/
theorem length_history (record : GameRecord P M) :
    record.history.length = record.moveCount + 1 := by
  simp [history, History.length, History.positions, moveCount]

variable [Board P M]

def sideToMove (record : GameRecord P M) : Color := Board.sideToMove record.head

/-- The record after a relative move, legal or not. -/
def playRelative (record : GameRecord P M) (move : M) : GameRecord P M :=
  ⟨Board.play record.head move, (record.head, move) :: record.played⟩

@[simp] theorem history_playRelative (record : GameRecord P M) (move : M) :
    (record.playRelative move).history = record.history.append move := rfl

variable [BoardMove M]

/-- The record after an absolute move, legal or not. -/
def play (record : GameRecord P M) (move : M) : GameRecord P M :=
  record.playRelative (BoardMove.relativeTo move record.sideToMove)

/-- A relative move as written down in its position: absolute, and with castling as the king's own
move unless `chess960` notation is kept. -/
def written (chess960 : Bool) (position : P) (move : M) : M :=
  BoardMove.relativeTo (if chess960 then move else Board.legacyMove position move)
    (Board.sideToMove position)

/-- The moves of the game, oldest first, as written down. -/
def moves (record : GameRecord P M) (chess960 : Bool) : List M :=
  (record.played.map fun (position, move) => written chess960 position move).reverse

/-- Plays absolute moves that must be legal. -/
def playLegal [DecidableEq M] (record : GameRecord P M) : List M → Except Error (GameRecord P M)
  | [] => .ok record
  | move :: rest =>
    if BoardMove.relativeTo move record.sideToMove ∈ Board.legalMoves record.head then
      (record.play move).playLegal rest
    else .error (.illegalMove (BoardMove.text move) (Board.toFen record.head))

/-- The record at the end of an opening, if its start position is one and its moves are legal. -/
def ofOpening [DecidableEq M] (fen : String) (moves : List M) : Except Error (GameRecord P M) :=
  match Board.ofFen fen with
  | .error error => .error error
  | .ok start => (ofStart start).playLegal moves

end GameRecord

end SelfPlay
