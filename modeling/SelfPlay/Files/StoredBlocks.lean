import SelfPlay.Files.Access

/-!
# A codec of stored blocks

The simplest codec for `.gz` files leaves content as it is: a file is its content in stored blocks,
between a header and a checksum. Every reader of the format reads such a file. This codec reads no
other kind of block; whoever has to read files from elsewhere passes another one. Reading stops at
the end of the first member and checks its length and checksum.
-/

namespace SelfPlay.StoredBlocks

/-- One bit of the cyclic redundancy check. -/
def crcBit (crc : UInt32) : UInt32 :=
  if crc &&& 1 = 1 then (crc >>> 1) ^^^ 0xEDB88320 else crc >>> 1

def crcByte (crc : UInt32) (byte : UInt8) : UInt32 :=
  let crc := crc ^^^ byte.toUInt32
  crcBit (crcBit (crcBit (crcBit (crcBit (crcBit (crcBit (crcBit crc)))))))

def checksum (bytes : List UInt8) : UInt32 := (bytes.foldl crcByte 0xFFFFFFFF) ^^^ 0xFFFFFFFF

/-- A number in bytes, the lowest first. -/
def littleEndian : Nat → Nat → List UInt8
  | 0, _ => []
  | count + 1, n => UInt8.ofNat (n % 256) :: littleEndian count (n / 256)

/-- The number that bytes stand for, the lowest first. -/
def ofLittleEndian : List UInt8 → Nat
  | [] => 0
  | byte :: rest => byte.toNat + 256 * ofLittleEndian rest

/-- The first two bytes of a compressed file. -/
def magic : List UInt8 := [0x1F, 0x8B]

/-- The method of compression. -/
def deflateMethod : UInt8 := 8

def maxBlock : Nat := 65535

/-- A file tells the length of its content modulo this. -/
def lengthModulus : Nat := 0x100000000

/-- A block after its mark and its length, which is said twice. -/
def marked (mark : UInt8) (block : List UInt8) : List UInt8 :=
  mark :: littleEndian 2 block.length ++ littleEndian 2 (maxBlock - block.length) ++ block

/-- Content in stored blocks, the last one marked; at most `fuel` blocks before the last. -/
def storedBlocks : Nat → List UInt8 → List UInt8
  | 0, content => marked 1 (content.take maxBlock)
  | fuel + 1, content =>
    if content.length ≤ maxBlock then marked 1 content
    else marked 0 (content.take maxBlock) ++ storedBlocks fuel (content.drop maxBlock)

/-- A header without flags, of a file from no system in particular. -/
def plainHeader : List UInt8 := magic ++ [deflateMethod, 0, 0, 0, 0, 0, 0, 0xFF]

/-- The file with the given content. -/
def compress (content : List UInt8) : List UInt8 :=
  plainHeader ++ storedBlocks (content.length / maxBlock) content ++
    littleEndian 4 (checksum content).toNat ++ littleEndian 4 (content.length % lengthModulus)

/-- The first `count` bytes and the rest, if there are that many. -/
def takeExactly (count : Nat) (bytes : List UInt8) : Except FileError (List UInt8 × List UInt8) :=
  if count ≤ bytes.length then .ok (bytes.take count, bytes.drop count)
  else .error .unexpectedEnd

/-- The bytes after the next zero byte. -/
def skipText (bytes : List UInt8) : Except FileError (List UInt8) :=
  match bytes.dropWhile (· ≠ 0) with
  | [] => .error .unexpectedEnd
  | _ :: rest => .ok rest

/-- The bytes after a header. -/
def skipHeader (bytes : List UInt8) : Except FileError (List UInt8) := do
  let (fixed, rest) ← takeExactly 10 bytes
  let flags := fixed.getD 3 0
  if fixed.take 2 ≠ magic ∨ fixed.getD 2 0 ≠ deflateMethod ∨ flags &&& 0xE0 ≠ 0 then
    throw .badHeader
  let rest ←
    if flags &&& 4 = 0 then pure rest
    else do
      let (length, rest) ← takeExactly 2 rest
      let (_, rest) ← takeExactly (ofLittleEndian length) rest
      pure rest
  let rest ← if flags &&& 8 = 0 then pure rest else skipText rest
  let rest ← if flags &&& 16 = 0 then pure rest else skipText rest
  if flags &&& 2 = 0 then pure rest
  else do
    let header := bytes.take (bytes.length - rest.length)
    let (check, rest) ← takeExactly 2 rest
    if ofLittleEndian check = (checksum header).toNat % 0x10000 then pure rest
    else throw .badChecksum

/-- The content of stored blocks and the bytes after them; at most `fuel` blocks. A block that ends
too early gives what is there of it. -/
def readBlocks : Nat → List UInt8 → Stream × List UInt8
  | 0, _ => (⟨[], some .corrupt⟩, [])
  | fuel + 1, bytes =>
    match bytes with
    | mark :: low :: high :: lowCheck :: highCheck :: rest =>
      let length := ofLittleEndian [low, high]
      if mark &&& 6 ≠ 0 ∨ length + ofLittleEndian [lowCheck, highCheck] ≠ maxBlock then
        (⟨[], some .corrupt⟩, [])
      else if rest.length < length then (⟨rest, some .unexpectedEnd⟩, [])
      else if mark &&& 1 = 1 then (⟨rest.take length, none⟩, rest.drop length)
      else
        let (more, after) := readBlocks fuel (rest.drop length)
        match more.fault with
        | some .corrupt => (⟨[], some .corrupt⟩, after)
        | _ => (⟨rest.take length ++ more.bytes, more.fault⟩, after)
    | mark :: _ =>
      if mark &&& 6 ≠ 0 then (⟨[], some .corrupt⟩, []) else (⟨[], some .unexpectedEnd⟩, [])
    | [] => (⟨[], some .unexpectedEnd⟩, [])

/-- The content of a file, and what is wrong with it if anything is. -/
def decompress (bytes : List UInt8) : Stream :=
  match skipHeader bytes with
  | .error fault => ⟨[], some fault⟩
  | .ok body =>
    let (content, rest) := readBlocks (body.length + 1) body
    match content.fault with
    | some _ => content
    | none =>
      if rest.length < 8 then ⟨content.bytes, some .unexpectedEnd⟩
      else if ofLittleEndian (rest.take 4) = (checksum content.bytes).toNat ∧
          ofLittleEndian ((rest.drop 4).take 4) = content.bytes.length % lengthModulus then content
      else ⟨content.bytes, some .badChecksum⟩

def codec : Codec := ⟨compress, decompress⟩

end SelfPlay.StoredBlocks
