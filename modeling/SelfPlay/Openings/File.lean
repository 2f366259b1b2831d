import SelfPlay.Files.Access
import SelfPlay.Openings.Line

/-!
# Files of openings

Each line of a file is an opening; empty lines and those that begin with `#` are not. Lines are
numbered as they stand in the file, and the first that is no opening is reported by its number.
-/

namespace SelfPlay.Openings

open SelfPlay.Text (trim byteLines ofUtf8?)

/-- Whether a trimmed line holds no opening. -/
def isSkipped (trimmed : List Char) : Bool := trimmed.isEmpty || trimmed.head? = some '#'

/-- The opening on the line with the given number, if it holds one. -/
def ofLine (number : Nat) (line : String) : Except Fault (Option OpeningLine) :=
  let trimmed := trim line.toList
  if isSkipped trimmed then .ok none
  else
    let text := String.ofList trimmed
    match OpeningLine.parse text with
    | .ok opening => .ok (some opening)
    | .error fault =>
      .error (fault.within
        ("invalid opening on line " ++ Text.ofNat number ++ ": " ++ text))

/-- The openings on lines, of which the first has the given number and `none` is not text. -/
def ofLines (number : Nat) : List (Option String) → Except Fault (List OpeningLine)
  | [] => .ok []
  | none :: _ => .error (.ofMessage FileError.notText.message)
  | some line :: rest =>
    match ofLine number line with
    | .error fault => .error fault
    | .ok none => ofLines (number + 1) rest
    | .ok (some opening) => (ofLines (number + 1) rest).map (opening :: ·)

/-- The lines of a stream that were read completely. -/
def completeLines (stream : Stream) : List (List UInt8) :=
  match stream.fault with
  | none => byteLines stream.bytes
  | some _ => byteLines (stream.bytes.reverse.dropWhile (· ≠ 0x0A)).reverse

/-- The openings of a file's content. What stopped reading is reported after the lines before. -/
def ofStream (stream : Stream) : Except Fault (List OpeningLine) :=
  match ofLines 1 ((completeLines stream).map ofUtf8?) with
  | .error fault => .error fault
  | .ok openings =>
    match stream.fault with
    | none => .ok openings
    | some error => .error (.ofMessage error.message)

def ofText (text : String) : Except Fault (List OpeningLine) := ofStream (.ofBytes (Text.toUtf8 text))

/-- The openings of a file, of a single line, or the usual start position. -/
def load (source : FileSource) (file line : Option String) : Except Fault (List OpeningLine) :=
  match file, line with
  | some _, some _ => .error (.ofMessage "--openings and --fen cannot be used together")
  | some path, none =>
    match source.openReader path with
    | .error error => .error ((Fault.ofMessage error.message).within ("failed to open " ++ path))
    | .ok stream =>
      match ofStream stream with
      | .error fault => .error (fault.within ("failed to read " ++ path))
      | .ok [] => .error (.ofMessage ("no usable openings found in " ++ path))
      | .ok openings => .ok openings
  | none, some line => (OpeningLine.parse line).map ([·])
  | none, none => .ok [.usual]

end SelfPlay.Openings
