import SelfPlay.Command.Session
import SelfPlay.Files.FileSystem

/-!
# Invocations in a file system

An invocation runs a whole session against a file system in memory: what it prints, what it warns
of or reports, with which code it ends, and the file system that it leaves.
-/

namespace SelfPlay.Command

/-- What an invocation finds beside its arguments. -/
structure Surroundings (ρ : Type) where
  files : FileSystem
  /-- Standard input. -/
  input : Stream
  codec : Codec
  generator : Generator ρ
  clock : Clock

/-- What can be read in the surroundings. -/
def Surroundings.source {ρ : Type} (surroundings : Surroundings ρ) : FileSource :=
  surroundings.files.source surroundings.codec surroundings.input

/-- What an invocation comes to. -/
structure Invocation where
  code : Nat
  output : String
  warnings : List String
  report : List String
  files : FileSystem

namespace Invocation

variable {ρ : Type}

def success : Nat := 0

def failure : Nat := 1

/-- The code of arguments that cannot be read. -/
def usage : Nat := 2

/-- Delivers the log of a session that was played. -/
def deliver (surroundings : Surroundings ρ) (warnings : List String) (session : Session) :
    Invocation :=
  let path := session.outputPath surroundings.clock
  let content := session.log.content surroundings.clock
  if path = Path.standard then ⟨success, content, warnings, [], surroundings.files⟩
  else
    match surroundings.files.write path
        (storedBytes surroundings.codec path (Text.toUtf8 content)) with
    | (.error error, files) => ⟨failure, "", warnings, (outputFault path error).report, files⟩
    | (.ok (), files) => ⟨success, "", warnings, [], files⟩

/-- Runs what the arguments ask for. -/
def run (surroundings : Surroundings ρ) (arguments : List String) : Invocation :=
  match Arguments.parse? arguments with
  | none => ⟨usage, "", [], [], surroundings.files⟩
  | some arguments =>
    let preparation := prepare surroundings.source surroundings.generator arguments
    match preparation.session with
    | .error fault => ⟨failure, "", preparation.warnings, fault.report, surroundings.files⟩
    | .ok session => deliver surroundings preparation.warnings session.play

end Invocation

end SelfPlay.Command
