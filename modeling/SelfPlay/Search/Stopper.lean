/-!
# Stop conditions

A search is stopped by a tree of conditions. Each leaf is a rule with a state of its own that sees
every report of the search; a chain answers yes if any of its members does, after all of them have
seen the report. The rules in use are budgets of nodes, playouts, time and calls.
-/

namespace SelfPlay

/-- What a search reports about itself. -/
structure SearchStats where
  /-- Nodes of the whole tree, those of earlier searches included. -/
  totalNodes : Nat
  /-- Playouts of this search. -/
  playouts : Nat
  /-- Milliseconds since the start of this search. -/
  elapsed : Nat
deriving DecidableEq, Repr, Inhabited

/-- A rule that answers each report and may change with it. -/
class StopRule (α : Type) where
  /-- The answer to a report and the rule for the next one. -/
  step : α → SearchStats → Bool × α

/-- A rule's answers to reports in order. -/
def StopRule.answers {α : Type} [StopRule α] (rule : α) : List SearchStats → List Bool
  | [] => []
  | stats :: rest => (step rule stats).1 :: answers (step rule stats).2 rest

/-- Rules joined in chains. -/
inductive Stopper (α : Type) where
  /-- A single rule. -/
  | leaf (rule : α)
  /-- All members together. -/
  | chain (members : List (Stopper α))

namespace Stopper

variable {α : Type} [StopRule α]

mutual

/-- The answer to a report and the stopper for the next one. -/
def step : Stopper α → SearchStats → Bool × Stopper α
  | .leaf rule, stats =>
    let (stops, rule) := StopRule.step rule stats
    (stops, .leaf rule)
  | .chain members, stats =>
    let (stops, members) := stepAll members stats
    (stops, .chain members)

/-- Whether any member answers yes, and all members for the next report. -/
def stepAll : List (Stopper α) → SearchStats → Bool × List (Stopper α)
  | [], _ => (false, [])
  | member :: rest, stats =>
    let (stops, member) := step member stats
    let (othersStop, rest) := stepAll rest stats
    (stops || othersStop, member :: rest)

end

def answers (stopper : Stopper α) : List SearchStats → List Bool
  | [] => []
  | stats :: rest =>
    let (stops, stopper) := stopper.step stats
    stops :: answers stopper rest

mutual

/-- The rules at the leaves. -/
def rules : Stopper α → List α
  | .leaf rule => [rule]
  | .chain members => rulesAll members

/-- The rules of all members. -/
def rulesAll : List (Stopper α) → List α
  | [] => []
  | member :: rest => rules member ++ rulesAll rest

end

/-- The members of a chain; a rule stands for itself. -/
def members : Stopper α → List (Stopper α)
  | .leaf rule => [.leaf rule]
  | .chain members => members

/-- The chain with further members at its end. -/
def add (stopper : Stopper α) (more : List (Stopper α)) : Stopper α :=
  .chain (stopper.members ++ more)

end Stopper

/-- A rule that stops a search when something has been used up. -/
inductive Budget where
  /-- Nodes of the whole tree. -/
  | visits (limit : Nat)
  /-- Playouts of this search. -/
  | playouts (limit : Nat)
  /-- Milliseconds of this search. -/
  | time (limit : Nat)
  /-- Reports, of which some have been seen. -/
  | calls (limit seen : Nat)
deriving DecidableEq, Repr

instance : StopRule Budget where
  step budget stats := match budget with
    | .visits limit => (decide (limit ≤ stats.totalNodes), budget)
    | .playouts limit => (decide (limit ≤ stats.playouts), budget)
    | .time limit => (decide (limit ≤ stats.elapsed), budget)
    | .calls limit seen => (decide (limit ≤ seen + 1), .calls limit (seen + 1))

/-- The budgets of a search for one move; what is not set is unlimited. -/
structure SearchLimits where
  /-- Nodes of the whole tree. -/
  visits : Option Nat
  /-- Playouts. -/
  playouts : Option Nat
  /-- Milliseconds. -/
  movetime : Option Nat
deriving DecidableEq, Repr, Inhabited

namespace SearchLimits

def none : SearchLimits := ⟨.none, .none, .none⟩

/-- The greatest number of milliseconds. -/
def maxMovetime : Nat := 0xFFFFFFFFFFFFFFFF

/-- The limits with the time set to whole milliseconds. -/
def withMicroseconds (limits : SearchLimits) (microseconds : Nat) : SearchLimits :=
  { limits with movetime := some (min (microseconds / 1000) maxMovetime) }

def budgets (limits : SearchLimits) : List Budget :=
  (limits.visits.map Budget.visits).toList ++ (limits.playouts.map Budget.playouts).toList ++
    (limits.movetime.map Budget.time).toList

/-- The stop condition that holds when a budget that is set has been used up. -/
def stopper (limits : SearchLimits) : Stopper Budget := .chain (limits.budgets.map .leaf)

end SearchLimits

end SelfPlay
