import SelfPlay.Error
import SelfPlay.Numeric.DecimalText
import SelfPlay.Text.Blank

/-!
# Named options

A dictionary holds texts under names, in the order of the names. Values are read by kind, blanks
around them being ignored; a value that is not of the kind asked for is refused as it stands.
-/

namespace SelfPlay

open SelfPlay.Numeric
open SelfPlay.Text (trim natural? integer? truth?)

/-- Options by name. -/
structure OptionsDict where
  /-- Names with their values, ascending. -/
  entries : List (String × String)
deriving DecidableEq, Repr, Inhabited

namespace OptionsDict

def empty : OptionsDict := ⟨[]⟩

/-- Puts an entry where it belongs, in place of one with the same name. -/
def insertSorted (name value : String) : List (String × String) → List (String × String)
  | [] => [(name, value)]
  | entry :: rest =>
    if name < entry.1 then (name, value) :: entry :: rest
    else if name = entry.1 then (name, value) :: rest
    else entry :: insertSorted name value rest

def set (dict : OptionsDict) (name value : String) : OptionsDict :=
  ⟨insertSorted name value dict.entries⟩

/-- Sets options in order. -/
def setAll (dict : OptionsDict) (entries : List (String × String)) : OptionsDict :=
  entries.foldl (fun dict entry => dict.set entry.1 entry.2) dict

def find? (dict : OptionsDict) (name : String) : Option String :=
  (dict.entries.find? fun entry => entry.1 = name).map (·.2)

def contains (dict : OptionsDict) (name : String) : Bool := (dict.find? name).isSome

/-- The value of an option of the kind that `parse` reads, if it is set. -/
def read? {α : Type} (parse : List Char → Option α) (dict : OptionsDict) (name : String) :
    Except Error (Option α) :=
  match dict.find? name with
  | none => .ok none
  | some raw =>
    match parse (trim raw.toList) with
    | some value => .ok (some value)
    | none => .error (.invalidOptionValue name raw)

/-- The value of an option, or what it is by default. -/
def readOr {α : Type} (parse : List Char → Option α) (dict : OptionsDict) (name : String)
    (default : α) : Except Error α :=
  (dict.read? parse name).map (·.getD default)

/-- How numbers are written as option values: without exponent, and whole ones without a point. -/
def numberLayout : DecimalLayout := ⟨.up, none, false, []⟩

def ofSingle (x : Binary32) : String :=
  if x.isNaN then "NaN"
  else if x.isInfinite then if x.negative then "-inf" else "inf"
  else numberLayout.finite .single x.negative x.code

end OptionsDict

end SelfPlay
