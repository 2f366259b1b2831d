import SelfPlay.Command.Session
import SelfPlay.Files.StoredBlocks
import Std.Time

/-!
# The command line

Everything that a session decides is decided elsewhere. Here files are read, the clock is asked,
and the log is stored. The program is the same for every codec and every generator of random
choices; the executable stores compressed files in stored blocks.
-/

namespace SelfPlay.Command

/-- The complaint that an operating system's error stands for. -/
def fileErrorOf (error : IO.Error) : FileError :=
  match error with
  | .noFileOrDirectory .. => .notFound
  | .alreadyExists .. => .alreadyExists
  | .inappropriateType _ code _ => if code = 20 then .notDirectory else .isDirectory
  | .invalidArgument _ code details => if code = 36 then .nameTooLong else .other details
  | error => .other (toString error)

/-- Reads the rest of standard input, which begins with the bytes `seen`. -/
partial def readInput (input : IO.FS.Stream) (seen : ByteArray) : IO ByteArray := do
  let bytes ← input.read 65536
  if bytes.isEmpty then return seen else readInput input (seen ++ bytes)

/-- Reads a file. A directory can be opened but not read. -/
def readFile (path : String) : IO (Except FileError Stream) := do
  try
    return .ok (.ofBytes (← IO.FS.readBinFile path).toList)
  catch error =>
    match fileErrorOf error with
    | .isDirectory => return .ok ⟨[], some .isDirectory⟩
    | error => return .error error

/-- Everything that a session may read: the files that its arguments name, and standard input if
that is one of them. -/
def readSource (codec : Codec) (arguments : Arguments) : IO FileSource := do
  let mut files : List (String × Except FileError Stream) := []
  for path in arguments.config.toList ++ arguments.openings.toList do
    files := (path, ← readFile path) :: files
  let input ←
    if arguments.openings = some Path.standard then readInput (← IO.getStdin) .empty
    else pure .empty
  return ⟨.ofBytes input.toList, codec, fun path => (files.lookup path).getD (.error .notFound)⟩

def store (codec : Codec) (path content : String) : IO (Except FileError Unit) := do
  if path = Path.standard then
    IO.print content
    return .ok ()
  try
    if let some folder := Path.folder? path then IO.FS.createDirAll folder
    IO.FS.writeBinFile path ⟨(storedBytes codec path (Text.toUtf8 content)).toArray⟩
    return .ok ()
  catch error => return .error (fileErrorOf error)

def complain (lines : List String) : IO Unit := do
  for line in lines do
    IO.eprintln line

/-- The local time in a pattern. -/
def localTime (pattern : String) : IO String := do
  return (← Std.Time.DateTime.now).format pattern

def playSession (codec : Codec) (session : Session) : IO UInt32 := do
  let stamp ← localTime "uuuuMMdd-HHmmss"
  let started ← localTime "uuuu-MM-dd'T'HH:mm:ss.SSSSSSSSSxxx"
  let before ← IO.monoMsNow
  let played ← IO.lazyPure fun _ => session.play
  let after ← IO.monoMsNow
  let finished ← localTime "uuuu-MM-dd'T'HH:mm:ss.SSSSSSSSSxxx"
  let clock : Clock := ⟨stamp, started, finished, after - before⟩
  let path := played.outputPath clock
  match ← store codec path (played.log.content clock) with
  | .ok () => return 0
  | .error error =>
    complain (outputFault path error).report
    return 1

def runArguments {ρ : Type} (codec : Codec) (generator : Generator ρ) (arguments : Arguments) :
    IO UInt32 := do
  let preparation := prepare (← readSource codec arguments) generator arguments
  complain preparation.warnings
  match preparation.session with
  | .ok session => playSession codec session
  | .error fault =>
    complain fault.report
    return 1

/-- Random choices by the standard generator. -/
def standardGenerator (unseeded : StdGen) : Generator StdGen where
  ofSeed seed := mkStdGen seed
  unseeded := unseeded
  choose count state :=
    if count = 0 then (none, state)
    else
      let (choice, state) := randNat state 0 (count - 1)
      (some choice, state)

end SelfPlay.Command

/-- Plays a session of tic-tac-toe games and logs it. -/
def main (arguments : List String) : IO UInt32 := do
  match SelfPlay.Command.Arguments.parse? arguments with
  | some arguments =>
    let unseeded := mkStdGen (← IO.rand 0 0x7FFFFFFFFFFFFFFF)
    SelfPlay.Command.runArguments SelfPlay.StoredBlocks.codec
      (SelfPlay.Command.standardGenerator unseeded) arguments
  | none =>
    IO.eprintln "error: the arguments cannot be read"
    return 2
