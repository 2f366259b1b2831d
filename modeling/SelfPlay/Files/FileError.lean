/-!
# Why files cannot be used
-/

namespace SelfPlay

/-- What the operating system, or a reader above it, complains about. -/
inductive FileError where
  | notFound
  | alreadyExists
  | notDirectory
  /-- A directory stands where a file is needed. -/
  | isDirectory
  /-- A path or a name in it is too long. -/
  | nameTooLong
  | nulByte
  | notText
  /-- The compressed content ends too early. -/
  | unexpectedEnd
  /-- The compressed content does not begin as it should. -/
  | badHeader
  /-- The compressed content is damaged. -/
  | corrupt
  | badChecksum
  /-- Any other complaint. -/
  | other (message : String)
deriving DecidableEq, Repr

namespace FileError

/-- The complaint in words. -/
def message : FileError → String
  | .notFound => "No such file or directory (os error 2)"
  | .alreadyExists => "File exists (os error 17)"
  | .notDirectory => "Not a directory (os error 20)"
  | .isDirectory => "Is a directory (os error 21)"
  | .nameTooLong => "File name too long (os error 36)"
  | .nulByte => "file name contained an unexpected NUL byte"
  | .notText => "stream did not contain valid UTF-8"
  | .unexpectedEnd => "unexpected end of file"
  | .badHeader => "invalid gzip header"
  | .corrupt => "corrupt deflate stream"
  | .badChecksum => "corrupt gzip stream does not have a matching checksum"
  | .other message => message

/-- Whether the complaint is about compressed content. -/
def isDecoding : FileError → Bool
  | .unexpectedEnd | .badHeader | .corrupt | .badChecksum => true
  | _ => false

end FileError

/-- What can be read of a file: bytes, and what stopped reading before the end if anything did. -/
structure Stream where
  /-- The bytes before the end or the fault. -/
  bytes : List UInt8
  /-- What stopped reading. -/
  fault : Option FileError
deriving Repr

/-- A stream that can be read to its end. -/
def Stream.ofBytes (bytes : List UInt8) : Stream := ⟨bytes, none⟩

end SelfPlay
