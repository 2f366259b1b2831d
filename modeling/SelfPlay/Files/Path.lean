import SelfPlay.Files.FileError
import SelfPlay.Text.Blank

/-!
# Paths

A path is read as names between slashes. Empty names stand for nothing, a single point for the
directory that it is followed in, and two points for the one above.
-/

namespace SelfPlay.Path

/-- The pieces of a path between slashes. -/
def pieces (path : String) : List String :=
  (Text.pieces (· = '/') path.toList).map String.ofList

/-- The names to follow, points among them. -/
def names (path : String) : List String := (pieces path).filter (· ≠ "")

def isAbsolute (path : String) : Bool := path.toList.head? = some '/'

/-- Whether nothing follows the last slash of a path. -/
def endsInSlash (path : String) : Bool := path.toList.getLast? = some '/'

/-- Whether a name leads nowhere. -/
def isIdle (name : String) : Bool := name = "" || name = "."

/-- Whether a name stands for a place by how it is reached, so that nothing can be called by it. -/
def isPoints (name : String) : Bool := name = "." || name = ".."

/-- A path has fewer bytes than this. -/
def lengthBound : Nat := 4096

def maxNameLength : Nat := 255

/-- What is wrong with a path by itself. -/
def fault? (path : String) : Option FileError :=
  if path.toList.contains '\x00' then some .nulByte
  else if path = "" then some .notFound
  else if lengthBound ≤ path.utf8ByteSize then some .nameTooLong
  else none

/-- The path made of pieces, given from the last to the first. -/
def ofReversed (pieces : List String) : String := "/".intercalate pieces.reverse

/-- The pieces above a path's last name, from the last to the first. -/
def above (path : String) : List String := ((pieces path).reverse.dropWhile isIdle).drop 1

/-- The path of the directory that a path's last name is in, unless the path begins there. -/
def folder? (path : String) : Option String :=
  match (above path).dropWhile isIdle with
  | [] => none
  | pieces => some (ofReversed pieces)

/-- What follows the last point of a path's last name, unless nothing precedes that point. -/
def extension? (path : String) : Option String :=
  match ((pieces path).filter (!isIdle ·)).getLast? with
  | none => none
  | some name =>
    if name = ".." then none
    else
      let reversed := name.toList.reverse
      let tail := reversed.takeWhile (· ≠ '.')
      match reversed.dropWhile (· ≠ '.') with
      | [] => none
      | [_] => none
      | _ => some (String.ofList tail.reverse)

def isGzip (path : String) : Bool :=
  match extension? path with
  | none => false
  | some tail => tail.toList.map Char.toLower = ['g', 'z']

/-- The path that stands for standard input and output. -/
def standard : String := "-"

end SelfPlay.Path
