import SelfPlay.EvalCache
import SelfPlay.Text.Numeral

/-!
# Command-line arguments

Arguments are long options. Those that take a value have it after an equals sign or as the next
argument; each option may be given once. Anything else is a usage error.
-/

namespace SelfPlay.Command

open SelfPlay.Text (natural? integer?)

/-- What the command line asks for. -/
structure Arguments where
  games : Nat
  openings : Option String
  fen : Option String
  random : Bool
  /-- What the random draw starts from. -/
  seed : Option Nat
  config : Option String
  /-- The greatest number of stones of positions that are solved. -/
  tablebasePieces : Option Nat
  cacheSize : Nat
  out : Option String
deriving DecidableEq, Repr

/-- What is asked for by an empty command line. -/
def Arguments.default : Arguments :=
  ⟨8, none, none, false, none, none, none, EvalCache.defaultCapacity, none⟩

/-- Sets what a value option stands for, if the value is of its kind. -/
abbrev ValueSetter := String → Arguments → Option Arguments

/-- Sizes are below this. -/
def sizeBound : Nat := 0x10000000000000000

/-- Counts of stones are below this. -/
def piecesBound : Nat := 0x100000000

/-- A count of stones: a whole number in range. -/
def pieces? (text : List Char) : Option Nat :=
  (integer? 0x8000000000000000 text).bind fun n => if 0 ≤ n ∧ n < piecesBound then some n.toNat else none

/-- A path is not empty. -/
def path? (text : String) : Option String := if text.isEmpty then none else some text

/-- The options that take a value. -/
def valueOptions : List (String × ValueSetter) :=
  [("games", fun text arguments =>
      (natural? sizeBound text.toList).map fun n => { arguments with games := n }),
    ("openings", fun text arguments =>
      (path? text).map fun path => { arguments with openings := some path }),
    ("fen", fun text arguments => some { arguments with fen := some text }),
    ("seed", fun text arguments =>
      (natural? sizeBound text.toList).map fun n => { arguments with seed := some n }),
    ("config", fun text arguments =>
      (path? text).map fun path => { arguments with config := some path }),
    ("tablebase-pieces", fun text arguments =>
      (pieces? text.toList).map fun n => { arguments with tablebasePieces := some n }),
    ("cache-size", fun text arguments =>
      (natural? sizeBound text.toList).map fun n => { arguments with cacheSize := n }),
    ("out", fun text arguments =>
      (path? text).map fun path => { arguments with out := some path })]

/-- The option that takes no value. -/
def randomOption : String := "random"

/-- The option's name and, if one is attached to it, its value. -/
def splitAttached (option : List Char) : String × Option String :=
  let name := String.ofList (option.takeWhile (· ≠ '='))
  match option.dropWhile (· ≠ '=') with
  | [] => (name, none)
  | _ :: value => (name, some (String.ofList value))

/-- Whether an argument cannot be the value of the option before it. -/
def isOptionForm (argument : String) : Bool :=
  match argument.toList with
  | '-' :: _ :: _ => true
  | _ => false

/-- Reads arguments onto what was read so far; `seen` are the names of options already given. -/
def readOnto (arguments : Arguments) (seen : List String) : List String → Option Arguments
  | [] => some arguments
  | argument :: rest =>
    match argument.toList with
    | ['-', '-'] => if rest.isEmpty then some arguments else none
    | '-' :: '-' :: option =>
      let (name, attached) := splitAttached option
      if name ∈ seen then none
      else if name = randomOption then
        if attached.isSome then none
        else readOnto { arguments with random := true } (name :: seen) rest
      else
        match (valueOptions.find? fun known => known.1 = name).map (·.2), attached, rest with
        | none, _, _ => none
        | some set, some value, rest =>
          match set value arguments with
          | none => none
          | some arguments => readOnto arguments (name :: seen) rest
        | some set, none, value :: rest =>
          if isOptionForm value then none
          else
            match set value arguments with
            | none => none
            | some arguments => readOnto arguments (name :: seen) rest
        | some _, none, [] => none
    | _ => none

/-- The arguments, unless they cannot be read or give openings in two ways. -/
def Arguments.parse? (arguments : List String) : Option Arguments :=
  (readOnto .default [] arguments).bind fun arguments =>
    if arguments.fen.isSome ∧ arguments.openings.isSome then none else some arguments

end SelfPlay.Command
