import SelfPlay.Text.Blank
import SelfPlay.Text.Numeral

/-!
# Faults and their contexts

A fault is what went wrong first, followed by what was being done at the time, step by step
outwards. On one line it is written outermost first.
-/

namespace SelfPlay

/-- A chain of messages, innermost last. -/
structure Fault where
  /-- What was being done, outermost first. -/
  contexts : List String
  /-- What went wrong, and after it the causes that it reports itself. -/
  cause : String
  /-- The causes behind `cause`, nearest first. -/
  sources : List String
deriving DecidableEq, Repr, Inhabited

namespace Fault

/-- A fault without context. -/
def ofMessage (message : String) : Fault := ⟨[], message, []⟩

/-- The fault, met while doing what `context` says. -/
def within (context : String) (fault : Fault) : Fault :=
  { fault with contexts := context :: fault.contexts }

/-- All messages, outermost first. -/
def messages (fault : Fault) : List String := fault.contexts ++ fault.cause :: fault.sources

def oneLine (fault : Fault) : String := ": ".intercalate fault.messages

/-- A message of one or more lines, the first behind `mark` and the others indented as deep. -/
def indented (mark message : String) : List String :=
  let margin := String.ofList (List.replicate mark.length ' ')
  let lines := (Text.pieces (· = '\n') message.toList).map String.ofList
  lines.mapIdx fun i line => (if i = 0 then mark else margin) ++ line

/-- The mark of the cause with the given number, numbers standing right-aligned. -/
def causeMark (number : Nat) : String :=
  let digits := Text.ofNat number
  String.ofList (List.replicate (5 - digits.length) ' ') ++ digits ++ ": "

/-- The messages as a report of several lines: the outermost one after `Error: `, then the causes,
numbered if there are several. -/
def report (fault : Fault) : List String :=
  match fault.messages with
  | [] => []
  | outer :: inner =>
    let causes := match inner with
      | [] => []
      | [only] => ["", "Caused by:"] ++ indented "    " only
      | several =>
        ["", "Caused by:"] ++
          (several.mapIdx fun number message => indented (causeMark number) message).flatten
    (Text.pieces (· = '\n') ("Error: " ++ outer).toList).map String.ofList ++ causes

end Fault

/-- Of two steps that succeeded together the first has, and the second after it. -/
theorem exists_of_bind_eq_ok {ε α β : Type} {first : Except ε α} {next : α → Except ε β} {last : β}
    (h : (first >>= next) = .ok last) : ∃ value, first = .ok value ∧ next value = .ok last := by
  cases first with
  | error error => cases h
  | ok value => exact ⟨value, rfl, h⟩

end SelfPlay
