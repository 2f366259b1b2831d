import SelfPlay.Numeric.Scalar
import SelfPlay.Options.Dict

/-!
# The options of self-play

Of a player's options self-play itself reads six. A side resigns, or a game is given up as drawn or
won, when an evaluation passes a threshold; a best move with too few visits is given up for the
next one.
-/

namespace SelfPlay

open SelfPlay.Numeric
open SelfPlay.Text (natural? truth? ofNat ofBool)

/-- The options that self-play reads. -/
structure SelfPlayOptions (R : Type) where
  /-- Whether a side's search goes on with the tree of its previous search. -/
  reuseTree : Bool
  /-- The resignation threshold in percent. -/
  resignPercentage : R
  /-- Whether any of the three outcomes ends the game when its probability exceeds one hundred
  percent less the threshold; otherwise a side resigns when its win rate is below the threshold. -/
  resignWdlStyle : Bool
  /-- The first move number at which a side may resign. -/
  resignEarliestMove : Nat
  /-- The visits that a best move needs unless it is a most visited one. -/
  minimumAllowedVisits : Nat
  /-- Whether castling is written as the king taking its own rook. -/
  chess960 : Bool
deriving DecidableEq, Repr

namespace SelfPlayOptions

/-- Nothing is reused and nobody resigns. -/
def default {R : Type} [Scalar R] : SelfPlayOptions R := ⟨false, Scalar.zero, false, 0, 0, false⟩

/-- The threshold as a fraction of one. -/
def resignFraction {R : Type} [Scalar R] (options : SelfPlayOptions R) : R :=
  options.resignPercentage / Scalar.ofNat 100

def reuseTreeName : String := "reuse-tree"

def resignPercentageName : String := "resign-percentage"

def resignWdlStyleName : String := "resign-wdlstyle"

def resignEarliestMoveName : String := "resign-earliest-move"

def minimumAllowedVisitsName : String := "minimum-allowed-visits"

def chess960Name : String := "chess960"

def names : List String :=
  [reuseTreeName, resignPercentageName, resignWdlStyleName, resignEarliestMoveName,
    minimumAllowedVisitsName, chess960Name]

/-- The greatest threshold. -/
def maxResignPercentage : Nat := 100

/-- The greatest first move number at which a side may resign. -/
def maxResignEarliestMove : Nat := 1000

/-- The greatest number of visits that a best move may need. -/
def maxMinimumAllowedVisits : Nat := 1000000

/-- The first option that lies out of its range, if one does. -/
def outOfRange? (options : SelfPlayOptions Binary32) : Option Error :=
  let percentage := options.resignPercentage
  if !(Binary32.le 0 percentage && Binary32.le percentage (Binary32.ofNat maxResignPercentage)) then
    some (.optionOutOfRange resignPercentageName (OptionsDict.ofSingle percentage)
      (ofNat maxResignPercentage))
  else if maxResignEarliestMove < options.resignEarliestMove then
    some (.optionOutOfRange resignEarliestMoveName (ofNat options.resignEarliestMove)
      (ofNat maxResignEarliestMove))
  else if maxMinimumAllowedVisits < options.minimumAllowedVisits then
    some (.optionOutOfRange minimumAllowedVisitsName (ofNat options.minimumAllowedVisits)
      (ofNat maxMinimumAllowedVisits))
  else none

def validate (options : SelfPlayOptions Binary32) : Except Error Unit :=
  match options.outOfRange? with
  | some error => .error error
  | none => .ok ()

/-- Counts are below this. -/
def countBound : Nat := 0x100000000

/-- The options that a dictionary sets, others being what they are by default. -/
def ofDict (dict : OptionsDict) : Except Error (SelfPlayOptions Binary32) := do
  let usual : SelfPlayOptions Binary32 := default
  let reuseTree ← dict.readOr truth? reuseTreeName usual.reuseTree
  let resignPercentage ←
    dict.readOr Binary32.ofText? resignPercentageName usual.resignPercentage
  let resignWdlStyle ← dict.readOr truth? resignWdlStyleName usual.resignWdlStyle
  let resignEarliestMove ←
    dict.readOr (natural? countBound) resignEarliestMoveName usual.resignEarliestMove
  let minimumAllowedVisits ←
    dict.readOr (natural? countBound) minimumAllowedVisitsName usual.minimumAllowedVisits
  let chess960 ← dict.readOr truth? chess960Name usual.chess960
  let options : SelfPlayOptions Binary32 :=
    ⟨reuseTree, resignPercentage, resignWdlStyle, resignEarliestMove, minimumAllowedVisits,
      chess960⟩
  options.validate
  return options

def toEntries (options : SelfPlayOptions Binary32) : List (String × String) :=
  [(reuseTreeName, ofBool options.reuseTree),
    (resignPercentageName, OptionsDict.ofSingle options.resignPercentage),
    (resignWdlStyleName, ofBool options.resignWdlStyle),
    (resignEarliestMoveName, ofNat options.resignEarliestMove),
    (minimumAllowedVisitsName, ofNat options.minimumAllowedVisits),
    (chess960Name, ofBool options.chess960)]

def writeTo (options : SelfPlayOptions Binary32) (dict : OptionsDict) : OptionsDict :=
  dict.setAll options.toEntries

end SelfPlayOptions

end SelfPlay
