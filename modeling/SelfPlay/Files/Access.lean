import SelfPlay.Files.FileError
import SelfPlay.Files.Path
import SelfPlay.Text.Utf8

/-!
# Files by name

A file whose name ends in `.gz` holds its content compressed. Everything that reads or writes a
file by its path goes through the functions here; how content is compressed is not decided here.
-/

namespace SelfPlay

/-- A way to compress content. -/
structure Codec where
  /-- The bytes that a content is stored as. -/
  compress : List UInt8 → List UInt8
  /-- What can be read of stored bytes. -/
  decompress : List UInt8 → Stream

/-- What was compressed can be read again, completely and unchanged. -/
def Codec.RoundTrips (codec : Codec) : Prop :=
  ∀ content, codec.decompress (codec.compress content) = .ofBytes content

/-- Where content is read from. -/
structure FileSource where
  standardInput : Stream
  codec : Codec
  /-- Opens a file by its path: its bytes as stored and what reading them met, or why it could not
  be opened. -/
  file : String → Except FileError Stream

namespace FileSource

/-- The content of a file, decompressed if its name asks for that, or standard input. -/
def openReader (source : FileSource) (path : String) : Except FileError Stream :=
  if path = Path.standard then .ok source.standardInput
  else
    match source.file path with
    | .error error => .error error
    | .ok raw =>
      if Path.isGzip path && raw.fault.isNone then .ok (source.codec.decompress raw.bytes)
      else .ok raw

def readText (source : FileSource) (path : String) : Except FileError String :=
  match source.file path with
  | .error error => .error error
  | .ok raw =>
    match raw.fault, Text.ofUtf8? raw.bytes with
    | some fault, _ => .error fault
    | none, some text => .ok text
    | none, none => .error .notText

end FileSource

/-- The bytes to store for a content, compressed if the file's name asks for that. -/
def storedBytes (codec : Codec) (path : String) (content : List UInt8) : List UInt8 :=
  if Path.isGzip path then codec.compress content else content

end SelfPlay
