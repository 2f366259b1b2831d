/-!
# Numerals and truth values

How option values are read: a numeral is an optional sign and at least one decimal digit, and its
value must lie in the range asked for; a truth value is one of two words. Nothing else is skipped
or tolerated, so callers trim first.
-/

namespace SelfPlay.Text

def digit? (c : Char) : Option Nat :=
  if '0' ≤ c ∧ c ≤ '9' then some (c.toNat - '0'.toNat) else none

/-- Digits of base ten read onto the value already read; `none` at the first other character. -/
def digitsOnto? (value : Nat) : List Char → Option Nat
  | [] => some value
  | c :: rest => (digit? c).bind fun d => digitsOnto? (10 * value + d) rest

/-- A nonempty run of decimal digits, as a number. -/
def digits? : List Char → Option Nat
  | [] => none
  | text => digitsOnto? 0 text

/-- A natural number below `bound`, with an optional plus sign. -/
def natural? (bound : Nat) (text : List Char) : Option Nat :=
  let digits := match text with
    | '+' :: rest => rest
    | _ => text
  (digits? digits).bind fun n => if n < bound then some n else none

/-- An integer from `-bound` to `bound - 1`, with an optional sign. -/
def integer? (bound : Nat) (text : List Char) : Option Int :=
  match text with
  | '-' :: rest => (digits? rest).bind fun n => if n ≤ bound then some (-(n : Int)) else none
  | _ => (natural? bound text).map Int.ofNat

def truth? (text : List Char) : Option Bool :=
  if text = "true".toList then some true
  else if text = "false".toList then some false
  else none

/-- A number in decimal digits. -/
def ofNat (n : Nat) : String := String.ofList (Nat.toDigits 10 n)

/-- An integer in decimal digits, with a minus sign if it is negative. -/
def ofInt (n : Int) : String :=
  if n < 0 then "-" ++ ofNat n.natAbs else ofNat n.natAbs

def ofBool (b : Bool) : String := if b then "true" else "false"

end SelfPlay.Text
