import SelfPlay.Board

/-!
# Histories of positions

A history is a start position and what followed it. It is never empty: taking back stops at the
start.
-/

namespace SelfPlay

/-- The positions of a game from its start to now. -/
structure History (P : Type) where
  /-- The current position. -/
  last : P
  /-- The positions before it, newest first. -/
  earlier : List P
deriving Repr

namespace History

variable {P M : Type} [Board P M]

/-- The history of a game that has just begun. -/
def ofStart (start : P) : History P := ⟨start, []⟩

/-- All positions, newest first. -/
def positions (history : History P) : List P := history.last :: history.earlier

def start (history : History P) : P := history.positions.getLast (by simp [positions])

def length (history : History P) : Nat := history.positions.length

/-- The history after a further relative move. -/
def append (history : History P) (move : M) : History P :=
  ⟨Board.play history.last move, history.positions⟩

/-- The history without its last move; the start position stays. -/
def pop (history : History P) : History P :=
  match history.earlier with
  | [] => history
  | last :: earlier => ⟨last, earlier⟩

/-- The rules' verdict. -/
def result (history : History P) : GameResult := Board.result history.positions

def encode (history : History P) (format : InputFormat) (count : Nat) (fill : HistoryFill) :
    Encoded :=
  Board.encode history.positions format count fill

@[simp] theorem length_append (history : History P) (move : M) :
    (history.append move).length = history.length + 1 := by simp [length, positions, append]

end History

end SelfPlay
