/-!
# Text as bytes
-/

namespace SelfPlay.Text

/-- The text that the bytes encode, if they are well-formed. -/
def ofUtf8? (bytes : List UInt8) : Option String := String.fromUTF8? ⟨bytes.toArray⟩

/-- Whether bytes are the start of a character that one or two more bytes can complete. -/
def isCharacterStart (bytes : List UInt8) : Bool :=
  [1, 2].any fun missing => [0x80, 0xBF].any fun byte =>
    (ofUtf8? (bytes ++ List.replicate missing byte)).isSome

/-- The first character of bytes and the number of bytes that follow its first byte. U+FFFD stands
for the longest start of a broken character. -/
def firstCharacter (bytes : List UInt8) : String × Nat :=
  match [0, 1, 2, 3].findSome? fun more => (ofUtf8? (bytes.take (more + 1))).map (·, more) with
  | some character => character
  | none => ("\uFFFD", ([2, 1].find? fun more => isCharacterStart (bytes.take (more + 1))).getD 0)

/-- The text of bytes that need not be well-formed, character by character. -/
def ofUtf8Lossy (bytes : List UInt8) : String :=
  match bytes, ofUtf8? bytes with
  | _, some text => text
  | [], none => ""
  | byte :: rest, none =>
    let (character, more) := firstCharacter (byte :: rest)
    character ++ ofUtf8Lossy (rest.drop more)
termination_by bytes.length
decreasing_by simp only [List.length_drop, List.length_cons]; omega

/-- The bytes of a text. -/
def toUtf8 (text : String) : List UInt8 := text.toUTF8.data.toList

/-- The bytes between line feeds, a carriage return before a line feed left out. Bytes after the
last line feed are a line if there are any. -/
def byteLines (bytes : List UInt8) : List (List UInt8) :=
  go [] bytes
where
  /-- Lines of the rest, after the bytes `line` (last one first) of an unfinished line. -/
  go (line : List UInt8) : List UInt8 → List (List UInt8)
    | [] => if line.isEmpty then [] else [line.reverse]
    | byte :: rest =>
      if byte = 0x0A then
        let ended := match line with
          | last :: before => if last = 0x0D then before else line
          | [] => []
        ended.reverse :: go [] rest
      else go (byte :: line) rest

end SelfPlay.Text
