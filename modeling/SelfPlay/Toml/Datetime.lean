import SelfPlay.Toml.Read

/-!
# Dates and times

A word is a date, a time of day, or both with an offset from universal time if one is given. Days
exist in their month, minutes have up to sixty-one seconds, and a fraction of a second is known to
nine places. The text of a date and time is one that is read as the same date and time.
-/

namespace SelfPlay.Toml

open SelfPlay.Text (digit? digits?)

/-- A number in at least `width` digits. -/
def padded (width n : Nat) : List Char :=
  let digits := Nat.toDigits 10 n
  List.replicate (width - digits.length) '0' ++ digits

/-- A day of the calendar. -/
structure Date where
  /-- The year, from zero. -/
  year : Nat
  /-- The month, from one. -/
  month : Nat
  /-- The day of the month, from one. -/
  day : Nat
deriving DecidableEq, Repr

namespace Date

def daysIn (year month : Nat) : Nat :=
  if month = 2 then
    if year % 4 = 0 ∧ (year % 100 ≠ 0 ∨ year % 400 = 0) then 29 else 28
  else if month = 4 ∨ month = 6 ∨ month = 9 ∨ month = 11 then 30
  else 31

def isValid (date : Date) : Bool :=
  decide (1 ≤ date.month ∧ date.month ≤ 12 ∧ 1 ≤ date.day ∧
    date.day ≤ daysIn date.year date.month)

/-- A date at the front of a text. -/
def read? (text : List Char) : Option (Date × List Char) := do
  let (year, rest) ← places? 4 text
  let (month, rest) ← (expect? '-' rest).bind (places? 2)
  let (day, rest) ← (expect? '-' rest).bind (places? 2)
  let date : Date := ⟨year, month, day⟩
  if date.isValid then some (date, rest) else none

def text (date : Date) : List Char :=
  padded 4 date.year ++ '-' :: padded 2 date.month ++ '-' :: padded 2 date.day

end Date

/-- A time of day. -/
structure TimeOfDay where
  hour : Nat
  minute : Nat
  /-- The second, which may be a leap second. -/
  second : Nat
  nanosecond : Nat
deriving DecidableEq, Repr

namespace TimeOfDay

/-- The number of places of a fraction of a second. -/
def fractionPlaces : Nat := 9

def isValid (time : TimeOfDay) : Bool :=
  decide (time.hour < 24 ∧ time.minute < 60 ∧ time.second ≤ 60)

/-- The billionths of a second that digits after a point stand for; further digits are ignored. -/
def nanoseconds? (digits : List Char) : Option Nat :=
  digits? ((digits ++ List.replicate fractionPlaces '0').take fractionPlaces)

/-- A fraction of a second at the front of a text, if there is a point. -/
def fraction? : List Char → Read Nat
  | '.' :: rest =>
    let digits := rest.takeWhile fun c => (digit? c).isSome
    if digits.isEmpty then none
    else (nanoseconds? digits).map fun n => (n, rest.drop digits.length)
  | rest => some (0, rest)

/-- A time of day at the front of a text. -/
def read? (text : List Char) : Option (TimeOfDay × List Char) := do
  let (hour, rest) ← places? 2 text
  let (minute, rest) ← (expect? ':' rest).bind (places? 2)
  let (second, rest) ← (expect? ':' rest).bind (places? 2)
  let (nanosecond, rest) ← fraction? rest
  let time : TimeOfDay := ⟨hour, minute, second, nanosecond⟩
  if time.isValid then some (time, rest) else none

/-- A fraction of a second as text: a point and digits up to the last one that is not zero. -/
def fractionText (nanosecond : Nat) : List Char :=
  if nanosecond = 0 then []
  else '.' :: ((padded fractionPlaces nanosecond).reverse.dropWhile (· = '0')).reverse

def text (time : TimeOfDay) : List Char :=
  padded 2 time.hour ++ ':' :: padded 2 time.minute ++ ':' :: padded 2 time.second ++
    fractionText time.nanosecond

end TimeOfDay

/-- An offset from universal time. -/
inductive Offset where
  /-- Universal time itself. -/
  | universal
  /-- Minutes ahead of universal time. -/
  | minutes (ahead : Int)
deriving DecidableEq, Repr

namespace Offset

def ofText? : List Char → Option Offset
  | [] => none
  | sign :: rest =>
    if sign = 'Z' ∨ sign = 'z' then if rest.isEmpty then some universal else none
    else if sign = '+' ∨ sign = '-' then do
      let (hours, rest) ← places? 2 rest
      let (minute, rest) ← (expect? ':' rest).bind (places? 2)
      if rest.isEmpty ∧ hours < 24 ∧ minute < 60 then
        let ahead : Int := 60 * hours + minute
        some (minutes (if sign = '-' then -ahead else ahead))
      else none
    else none

def text : Offset → List Char
  | universal => ['Z']
  | minutes ahead =>
    (if ahead < 0 then '-' else '+') :: padded 2 (ahead.natAbs / 60) ++
      ':' :: padded 2 (ahead.natAbs % 60)

end Offset

/-- A date, a time of day or both. -/
inductive Datetime where
  | date (date : Date)
  | time (time : TimeOfDay)
  /-- A time of day on a date, with an offset if one is known. -/
  | both (date : Date) (time : TimeOfDay) (offset : Option Offset)
deriving DecidableEq, Repr

namespace Datetime

/-- The date, the time or both that a word stands for. Between a date and a time stands the letter
`T` or a space. -/
def ofText? (word : List Char) : Option Datetime :=
  match Date.read? word with
  | some (day, []) => some (date day)
  | some (day, mark :: rest) =>
    if mark = 'T' ∨ mark = 't' ∨ mark = ' ' then do
      let (clock, rest) ← TimeOfDay.read? rest
      if rest.isEmpty then some (both day clock none)
      else (Offset.ofText? rest).map fun offset => both day clock (some offset)
    else none
  | none =>
    match TimeOfDay.read? word with
    | some (clock, []) => some (time clock)
    | _ => none

def text : Datetime → String
  | date day => String.ofList day.text
  | time clock => String.ofList clock.text
  | both day clock offset =>
    String.ofList (day.text ++ 'T' :: clock.text ++ (offset.map Offset.text).getD [])

end Datetime

end SelfPlay.Toml
