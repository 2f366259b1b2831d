import SelfPlay.Toml.Datetime

/-!
# TOML values and the tables under construction

A document is built up entry by entry. Each table remembers how it came about, since that decides
who may still add to it: a table with a header of its own is complete, one that a longer header
implied may get its header later, and one that dotted keys made may get further dotted keys.
-/

namespace SelfPlay.Toml

inductive Value where
  | text (value : String)
  | integer (value : Int)
  /-- A double-precision number, by its sign and magnitude code. -/
  | float (negative : Bool) (code : Nat)
  | boolean (value : Bool)
  /-- A date, a time of day or both. -/
  | datetime (value : Datetime)
  /-- Values in order. -/
  | array (values : List Value)
  /-- Values by key. -/
  | table (entries : List (String × Value))

namespace Value

/-- The key under which a date and time holds its text. -/
def datetimeKey : String := "$__toml_private_datetime"

/-- The values by key that a value holds, if it is one of that kind. Dates and times can be taken
for tables that hold nothing but their text. -/
def entries? : Value → Option (List (String × Value))
  | .table entries => some entries
  | .datetime value => some [(datetimeKey, .text value.text)]
  | _ => none

def find? (entries : List (String × Value)) (key : String) : Option Value :=
  (entries.find? fun entry => entry.1 = key).map (·.2)

end Value

/-- How a table came about. -/
inductive TableOrigin where
  /-- By a header of its own. -/
  | header
  /-- By the header of a table inside it. -/
  | implied
  /-- By dotted keys. -/
  | dotted
deriving DecidableEq, Repr

/-- What stands under a key of a table under construction. -/
inductive Item where
  | value (value : Value)
  | table (origin : TableOrigin) (entries : List (String × Item))
  /-- An array of tables with headers, oldest first. -/
  | tables (elements : List (List (String × Item)))

/-- A table under construction. -/
abbrev Entries := List (String × Item)

namespace Entries

def lookup (entries : Entries) (key : String) : Option Item :=
  (entries.find? fun entry => entry.1 = key).map (·.2)

/-- The table with what stands under a key replaced, or put at the end if nothing does. -/
def put (key : String) (item : Item) : Entries → Entries
  | [] => [(key, item)]
  | entry :: rest => if entry.1 = key then (key, item) :: rest else entry :: put key item rest

/-- Changes the last of several tables. -/
def changeLast (change : Entries → Option Entries) :
    List Entries → Option (List Entries)
  | [] => none
  | [last] => (change last).map ([·])
  | first :: rest => (changeLast change rest).map (first :: ·)

/-- Sets a value under a dotted key, of which `path` is all but the last part. The tables on the
way come about by dotted keys, or are ones that may still be added to. -/
def setDotted (entries : Entries) (path : List String) (key : String) (value : Value) :
    Option Entries :=
  match path with
  | [] => if (entries.lookup key).isSome then none else some (entries.put key (.value value))
  | step :: rest =>
    match entries.lookup step with
    | none =>
      (setDotted [] rest key value).map fun inner => entries.put step (.table .dotted inner)
    | some (.table origin inner) =>
      if origin = .header ∨ (rest.isEmpty ∧ origin ≠ .dotted) then none
      else
        (setDotted inner rest key value).map fun inner => entries.put step (.table origin inner)
    | some (.tables elements) =>
      if rest.isEmpty then none
      else
        (changeLast (fun last => setDotted last rest key value) elements).map fun elements =>
          entries.put step (.tables elements)
    | some (.value _) => none

/-- Opens the table with the header `path`. A table can be opened once. -/
def openTable (entries : Entries) : List String → Option Entries
  | [] => none
  | [key] =>
    match entries.lookup key with
    | none => some (entries.put key (.table .header []))
    | some (.table .implied inner) => some (entries.put key (.table .header inner))
    | some _ => none
  | step :: rest =>
    match entries.lookup step with
    | none => (openTable [] rest).map fun inner => entries.put step (.table .implied inner)
    | some (.table origin inner) =>
      (openTable inner rest).map fun inner => entries.put step (.table origin inner)
    | some (.tables elements) =>
      (changeLast (fun last => openTable last rest) elements).map fun elements =>
        entries.put step (.tables elements)
    | some (.value _) => none

/-- Opens a further table of the array with the header `path`. -/
def openElement (entries : Entries) : List String → Option Entries
  | [] => none
  | [key] =>
    match entries.lookup key with
    | none => some (entries.put key (.tables [[]]))
    | some (.tables elements) => some (entries.put key (.tables (elements ++ [[]])))
    | some _ => none
  | step :: rest =>
    match entries.lookup step with
    | none => (openElement [] rest).map fun inner => entries.put step (.table .implied inner)
    | some (.table origin inner) =>
      (openElement inner rest).map fun inner => entries.put step (.table origin inner)
    | some (.tables elements) =>
      (changeLast (fun last => openElement last rest) elements).map fun elements =>
        entries.put step (.tables elements)
    | some (.value _) => none

/-- Sets a value under a dotted key in the table that was opened last with the header `header`. -/
def setUnder (entries : Entries) (header : List String) (path : List String) (key : String)
    (value : Value) : Option Entries :=
  match header with
  | [] => entries.setDotted path key value
  | step :: rest =>
    match entries.lookup step with
    | some (.table origin inner) =>
      (setUnder inner rest path key value).map fun inner => entries.put step (.table origin inner)
    | some (.tables elements) =>
      (changeLast (fun last => setUnder last rest path key value) elements).map fun elements =>
        entries.put step (.tables elements)
    | _ => none

mutual

/-- The finished value under a key. -/
def finish : Item → Value
  | .value value => value
  | .table _ entries => .table (finishAll entries)
  | .tables elements => .array (finishEach elements)

/-- The finished entries of a table. -/
def finishAll : List (String × Item) → List (String × Value)
  | [] => []
  | (key, item) :: rest => (key, finish item) :: finishAll rest

/-- The finished tables of an array. -/
def finishEach : List (List (String × Item)) → List Value
  | [] => []
  | entries :: rest => .table (finishAll entries) :: finishEach rest

end

end Entries

end SelfPlay.Toml
