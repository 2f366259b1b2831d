import SelfPlay.Options.Player
import SelfPlay.Toml.Document

/-!
# Configuration files

A configuration is a TOML document with a table for each side. What is not set is as it is by
default, names that are not known are ignored, and a value of the wrong kind is an error.
-/

namespace SelfPlay

open SelfPlay.Numeric
open SelfPlay.Toml (Value)

structure PlayerConfig where
  selfPlay : SelfPlayOptions Binary32
  limits : SearchLimits
  threads : Nat
  /-- Options for the search engine, by name. -/
  engineOptions : OptionsDict
deriving DecidableEq, Repr

abbrev SelfPlayConfig := PerSide PlayerConfig

namespace PlayerConfig

/-- The settings of a side that sets nothing. -/
def default : PlayerConfig := ⟨.default, .none, 1, .empty⟩

/-- Whether two sides' settings are equal, the two zeros counting as one. -/
def same (a b : PlayerConfig) : Bool :=
  a.selfPlay.resignPercentage.same b.selfPlay.resignPercentage &&
    decide ({ a with selfPlay := { a.selfPlay with resignPercentage := 0 } } =
      { b with selfPlay := { b.selfPlay with resignPercentage := 0 } })

def effectiveThreads (config : PlayerConfig) : Nat := max 1 config.threads

/-- A player with these settings: options that are set here are set in its dictionary, those for
the search engine last, and its limits are replaced. -/
def apply {ω M : Type} (config : PlayerConfig) (player : Player ω M) : Player ω M :=
  { player with
    options := (config.selfPlay.writeTo player.options).setAll config.engineOptions.entries
    limits := config.limits }

end PlayerConfig

namespace ConfigValue

/-- The complaint about a value that is not of the kind that is needed. -/
def wrongKind : Error := .config "value of the wrong kind"

def truth : Value → Except Error Bool
  | .boolean value => .ok value
  | _ => .error wrongKind

/-- A whole number from zero up to but not with `bound`. -/
def natural (bound : Nat) : Value → Except Error Nat
  | .integer value =>
    if 0 ≤ value ∧ value < bound then .ok value.toNat else .error wrongKind
  | _ => .error wrongKind

def single : Value → Except Error Binary32
  | .integer value => .ok (.ofInt value)
  | .float negative code => .ok (.ofDouble negative code)
  | _ => .error wrongKind

def text : Value → Except Error String
  | .text value => .ok value
  | _ => .error wrongKind

/-- Values by key. -/
def fields (value : Value) : Except Error (List (String × Value)) :=
  value.entries?.elim (.error wrongKind) .ok

/-- The value under a key as `read` reads it, or what it is by default. -/
def field {α : Type} (entries : List (String × Value)) (key : String)
    (read : Value → Except Error α) (default : α) : Except Error α :=
  match Value.find? entries key with
  | none => .ok default
  | some value => read value

/-- Budgets are below this. -/
def budgetBound : Nat := 0x10000000000000000

def budget (value : Value) : Except Error (Option Nat) := (natural budgetBound value).map some

/-- Limits by name, or in the order visits, playouts, milliseconds. -/
def limits : Value → Except Error SearchLimits
  | .array values => do
    let budgets ← (values.take 3).mapM budget
    return ⟨budgets.getD 0 none, budgets.getD 1 none, budgets.getD 2 none⟩
  | value => do
    let entries ← fields value
    let visits ← field entries "visits" budget none
    let playouts ← field entries "playouts" budget none
    let movetime ← field entries "movetime-ms" budget none
    return ⟨visits, playouts, movetime⟩

/-- Texts by name. -/
def texts (value : Value) : Except Error OptionsDict := do
  (← fields value).foldlM (fun dict entry => (text entry.2).map (dict.set entry.1)) .empty

/-- The options of self-play among the entries of a side. -/
def selfPlay (entries : List (String × Value)) : Except Error (SelfPlayOptions Binary32) := do
  let usual : SelfPlayOptions Binary32 := .default
  let count := natural SelfPlayOptions.countBound
  let reuseTree ← field entries SelfPlayOptions.reuseTreeName truth usual.reuseTree
  let percentage ←
    field entries SelfPlayOptions.resignPercentageName single usual.resignPercentage
  let wdlStyle ← field entries SelfPlayOptions.resignWdlStyleName truth usual.resignWdlStyle
  let earliest ←
    field entries SelfPlayOptions.resignEarliestMoveName count usual.resignEarliestMove
  let visits ←
    field entries SelfPlayOptions.minimumAllowedVisitsName count usual.minimumAllowedVisits
  let chess960 ← field entries SelfPlayOptions.chess960Name truth usual.chess960
  return ⟨reuseTree, percentage, wdlStyle, earliest, visits, chess960⟩

def player (value : Value) : Except Error PlayerConfig := do
  let entries ← fields value
  let selfPlay ← selfPlay entries
  let limits ← field entries "limits" limits .none
  let threads ← field entries "threads" (natural budgetBound) 1
  let engineOptions ← field entries "engine-options" texts .empty
  return ⟨selfPlay, limits, threads, engineOptions⟩

end ConfigValue

namespace SelfPlayConfig

def default : SelfPlayConfig := ⟨.default, .default⟩

/-- Whether two configurations are equal, the two zeros counting as one. -/
def same (a b : SelfPlayConfig) : Bool := a.white.same b.white && a.black.same b.black

/-- The configuration that a document sets. White's options are checked before black's. -/
def ofToml (text : String) : Except Error SelfPlayConfig :=
  match Toml.parse? text with
  | none => .error (.config "malformed document")
  | some entries => do
    let white ← ConfigValue.field entries "white" ConfigValue.player .default
    let black ← ConfigValue.field entries "black" ConfigValue.player .default
    white.selfPlay.validate
    black.selfPlay.validate
    return ⟨white, black⟩

end SelfPlayConfig

end SelfPlay
