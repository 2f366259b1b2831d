import SelfPlay.TicTacToe.StoneBoard

/-!
# Tic-tac-toe with house rules

Plain tic-tac-toe has no castling, has moves until the game is over, and looks at the current
position only. House rules bring in what other games have: a right to castle, a number of stones
from which on nobody can move, and a number of positions from which on an undecided game is drawn.
They are written before the position, each with a colon behind it.
-/

namespace SelfPlay.TicTacToe

open SelfPlay.Text (pieces natural? ofNat)

/-- A position under house rules. -/
structure HousePosition where
  stones : Position
  /-- Whether there is a right to castle. -/
  castling : Bool
  /-- The number of stones from which on nobody can move. -/
  stuckAt : Option Nat
  /-- The number of positions of a game from which on it is drawn if it is undecided. -/
  drawAt : Option Nat
deriving DecidableEq, Repr

namespace HousePosition

/-- The relative move that castles, if there is a right to: the king takes its own rook. -/
def castle : Square := ⟨⟨0, by decide⟩, ⟨0, by decide⟩⟩

/-- Castling written as the king's own move. -/
def kingMove : Square := ⟨⟨2, by decide⟩, ⟨0, by decide⟩⟩

/-- Counts in house rules are below this. -/
def countBound : Nat := 0x10000000000000000

def withRule? (position : HousePosition) : List Char → Option HousePosition
  | ['C'] => some { position with castling := true }
  | 'S' :: count =>
    (natural? countBound count).map fun n => { position with stuckAt := some n }
  | 'H' :: count =>
    (natural? countBound count).map fun n => { position with drawAt := some n }
  | _ => none

/-- The position that a text describes, or the complaint that it is none. Stones are read first. -/
def ofFen (text : String) : Except Error HousePosition :=
  let parts := pieces (· = ':') text.toList
  match Position.ofFen (String.ofList (parts.getLast?.getD [])) with
  | .error error => .error error
  | .ok stones =>
    match parts.dropLast.foldlM withRule? ⟨stones, false, none, none⟩ with
    | some position => .ok position
    | none => .error (.invalidFen text)

/-- A rule with its count as text, if it is in force. -/
def countedRule (name : String) : Option Nat → String
  | none => ""
  | some count => name ++ ofNat count ++ ":"

def toFen (position : HousePosition) : String :=
  (if position.castling then "C:" else "") ++ countedRule "S" position.stuckAt ++
    countedRule "H" position.drawAt ++ position.stones.toFen

/-- Whether so many stones stand that nobody can move. -/
def isStuck (position : HousePosition) : Bool :=
  match position.stuckAt with
  | none => false
  | some limit => decide (limit ≤ position.stones.occupied.count)

/-- The legal moves, relative. -/
def legalMoves (position : HousePosition) : List Square :=
  if position.isStuck then [] else position.stones.legalMoves

/-- The position after a relative move. Castling uses up the right to it. -/
def play (position : HousePosition) (move : Square) : HousePosition :=
  { position with
    stones := position.stones.play move
    castling := position.castling && decide (move ≠ castle) }

/-- A relative move with castling as the king's own move. -/
def legacyMove (position : HousePosition) (move : Square) : Square :=
  if position.castling ∧ move = castle then kingMove else move

/-- The verdict on a game, newest position first. -/
def result : List HousePosition → GameResult
  | [] => .undecided
  | current :: earlier =>
    if current.stones.result.isTerminal then current.stones.result
    else
      match current.drawAt with
      | none => .undecided
      | some limit => if limit ≤ earlier.length + 1 then .draw else .undecided

instance : Board HousePosition Square where
  ofFen := ofFen
  toFen := toFen
  ply position := position.stones.ply
  legalMoves := legalMoves
  play := play
  noLegalCastle position := !position.castling
  pieceCount position := position.stones.occupied.count
  legacyMove := legacyMove
  result := result
  encode positions := TicTacToe.encode (positions.map (·.stones))

instance : StoneBoard HousePosition where
  stones := stones
  ply_eq _ := rfl
  stones_play _ _ := rfl
  legal_of_mem position move h := by
    change move ∈ position.legalMoves at h
    unfold legalMoves at h
    split at h
    · simp at h
    · exact h

end HousePosition

end SelfPlay.TicTacToe
