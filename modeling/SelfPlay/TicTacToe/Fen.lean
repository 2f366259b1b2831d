import SelfPlay.TicTacToe.Position
import SelfPlay.Text.Blank

/-!
# Positions as text

A position is written rank by rank from black's side, three characters a rank, with slashes
between the ranks. Reading also takes capitals and surrounding blanks, and asks that white has as
many stones as black or one more.
-/

namespace SelfPlay.TicTacToe.Position

open SelfPlay.Text (pieces trim)

/-- The squares in the order in which they are written. -/
def writtenSquares : List Square :=
  [2, 1, 0].flatMap fun rank => [0, 1, 2].map fun file => ⟨file, rank⟩

/-- The character for what stands on a square. -/
def stoneChar : Option Color → Char
  | some .white => 'x'
  | some .black => 'o'
  | none => '.'

/-- What a character puts on a square, if it is one of the characters in use. -/
def stoneOfChar? (c : Char) : Option (Option Color) :=
  if c = 'x' ∨ c = 'X' then some (some .white)
  else if c = 'o' ∨ c = 'O' then some (some .black)
  else if c = '.' then some none
  else none

def toFen (position : Position) : String :=
  let chars := writtenSquares.map fun square => stoneChar (position.stoneAt square)
  String.ofList (chars.take 3 ++ '/' :: (chars.drop 3).take 3 ++ '/' :: chars.drop 6)

/-- Puts stones on squares, one character for each square. -/
def putAll? (position : Position) : List (Square × Char) → Option Position
  | [] => some position
  | (square, c) :: rest =>
    match stoneOfChar? c with
    | none => none
    | some none => position.putAll? rest
    | some (some .white) =>
      { position with white := position.white.insert square }.putAll? rest
    | some (some .black) =>
      { position with black := position.black.insert square }.putAll? rest

/-- The position with the number of moves that its stones call for, if white has as many as black
or one more. -/
def counted? (position : Position) : Option Position :=
  let whites := position.white.count
  let blacks := position.black.count
  if whites = blacks ∨ whites = blacks + 1 then some { position with ply := whites + blacks }
  else none

/-- The position that a text describes, if it does. -/
def ofFen? (text : List Char) : Option Position :=
  match pieces (· = '/') (trim text) with
  | [top, middle, bottom] =>
    if top.length = 3 ∧ middle.length = 3 ∧ bottom.length = 3 then
      (empty.putAll? (writtenSquares.zip (top ++ middle ++ bottom))).bind counted?
    else none
  | _ => none

/-- The position that a text describes, or the complaint that it is none. -/
def ofFen (text : String) : Except Error Position :=
  match ofFen? text.toList with
  | some position => .ok position
  | none => .error (.invalidFen text)

def startText : String := ".../.../..."

end SelfPlay.TicTacToe.Position
