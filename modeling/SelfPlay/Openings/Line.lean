import SelfPlay.Board.GameRecord
import SelfPlay.Text.Blank

/-!
# Opening lines

An opening is written on a line: `startpos`, or a position with or without the word `fen` before
it, and then, after the word `moves`, the forced moves. Blanks only separate words.
-/

namespace SelfPlay

/-- An opening as written: a position's text, none for the usual start, and the texts of moves. -/
structure OpeningLine where
  fen : Option String
  moves : List String
deriving DecidableEq, Repr

namespace OpeningLine

/-- The word for the usual start position. -/
def startWord : String := "startpos"

def fenWord : String := "fen"

def movesWord : String := "moves"

/-- The line for the usual start position. -/
def usual : OpeningLine := ⟨none, []⟩

/-- The rest of a line after its position: nothing, or moves behind their word. -/
def withMoves (fen : Option String) : List String → Except Fault OpeningLine
  | [] => .ok ⟨fen, []⟩
  | word :: moves =>
    if word = movesWord then .ok ⟨fen, moves⟩
    else .error (.ofMessage ("expected 'moves' before move list, got '" ++ word ++ "'"))

/-- The words before the word for moves. -/
def fenWords (words : List String) : List String := words.takeWhile (· ≠ movesWord)

/-- The words from the word for moves on. -/
def afterFen (words : List String) : List String := words.dropWhile (· ≠ movesWord)

/-- The line that consists of the given words. -/
def ofWords : List String → Except Fault OpeningLine
  | [] => .error (.ofMessage "empty opening line")
  | word :: rest =>
    if word = startWord then withMoves none rest
    else if word = fenWord then
      if (fenWords rest).isEmpty then .error (.ofMessage "missing fen payload")
      else withMoves (some (" ".intercalate (fenWords rest))) (afterFen rest)
    else
      withMoves (some (" ".intercalate (fenWords (word :: rest)))) (afterFen (word :: rest))

def parse (text : String) : Except Fault OpeningLine :=
  ofWords ((Text.words text.toList).map String.ofList)

def describe (line : OpeningLine) : String :=
  let position := match line.fen with
    | none => startWord
    | some fen => fenWord ++ " " ++ fen
  if line.moves.isEmpty then position
  else position ++ " " ++ movesWord ++ " " ++ " ".intercalate line.moves

/-- Reads moves in order. -/
def readMoves {M : Type} (read : String → Except Error M) :
    List String → Except Fault (List M)
  | [] => .ok []
  | text :: rest =>
    match read text with
    | .error error => .error (error.toFault.within ("invalid move '" ++ text ++ "'"))
    | .ok move => (readMoves read rest).map (move :: ·)

/-- The opening of a line on the board with positions `P`: moves must be readable, and legal in
their order from the line's position, or from the one that `start` describes. -/
def build (P : Type) {M : Type} [BoardMove M] [DecidableEq M] [Board P M]
    (read : String → Except Error M) (start : String) (line : OpeningLine) :
    Except Fault (Opening M) :=
  let fen := line.fen.getD start
  match readMoves read line.moves with
  | .error fault => .error fault
  | .ok moves =>
    match (GameRecord.ofOpening fen moves : Except Error (GameRecord P M)) with
    | .error error => .error error.toFault
    | .ok _ => .ok ⟨fen, moves⟩

end OpeningLine

end SelfPlay
