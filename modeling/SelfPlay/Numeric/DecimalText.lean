import SelfPlay.Numeric.Binary32
import SelfPlay.Numeric.Shortest
import SelfPlay.Text.Numeral

/-!
# Floating-point numbers as decimal text

Reading takes an optional sign and then digits with an optional point and exponent, or one of the
words for infinity and for no number. Writing lays the shortest decimal that reads back out as a
`DecimalLayout` says.
-/

namespace SelfPlay.Numeric

open SelfPlay.Text (digit? digits? digitsOnto?)

/-- A number as written, before it is rounded to a format. -/
inductive WrittenNumber where
  /-- The word for no number. -/
  | nan
  /-- A word for infinity. -/
  | infinite (negative : Bool)
  /-- Digits, a point and an exponent. -/
  | finite (negative : Bool) (digits : Nat) (exponent : Int)
deriving DecidableEq, Repr

namespace WrittenNumber

/-- The exponent that follows the mark `e`: an optional sign and digits. -/
def exponent? : List Char → Option Int
  | '-' :: rest => (digits? rest).map fun n => -(n : Int)
  | '+' :: rest => (digits? rest).map Int.ofNat
  | rest => (digits? rest).map Int.ofNat

/-- Digits with an optional point and exponent; some digit is required before the exponent. -/
def unsigned? (text : List Char) : Option (Nat × Int) :=
  let isDigit (c : Char) := (digit? c).isSome
  let whole := text.takeWhile isDigit
  let afterWhole := text.dropWhile isDigit
  let (fraction, tail) := match afterWhole with
    | '.' :: rest => (rest.takeWhile isDigit, rest.dropWhile isDigit)
    | rest => ([], rest)
  (digits? (whole ++ fraction)).bind fun value =>
    match tail with
    | [] => some (value, -(fraction.length : Int))
    | mark :: rest =>
      if mark = 'e' ∨ mark = 'E' then
        (exponent? rest).map fun e => (value, e - (fraction.length : Int))
      else none

/-- A number as text: an optional sign, then digits or one of the words `inf`, `infinity` and
`nan` in any case. -/
def ofText? (text : List Char) : Option WrittenNumber :=
  let (negative, body) := match text with
    | '-' :: rest => (true, rest)
    | '+' :: rest => (false, rest)
    | _ => (false, text)
  let word := body.map Char.toLower
  if word = "nan".toList then some nan
  else if word = "inf".toList ∨ word = "infinity".toList then some (infinite negative)
  else (unsigned? body).map fun (digits, exponent) => finite negative digits exponent

end WrittenNumber

/-- The single-precision number nearest to a written one. -/
def Binary32.ofWritten : WrittenNumber → Binary32
  | .nan => .nan
  | .infinite negative => .infinity negative
  | .finite negative digits exponent => .ofDecimal negative digits exponent

def Binary32.ofText? (text : List Char) : Option Binary32 :=
  (WrittenNumber.ofText? text).map Binary32.ofWritten

/-- The single-precision number nearest to the double-precision number with the given sign and
magnitude code. -/
def Binary32.ofDouble (negative : Bool) (code : Nat) : Binary32 :=
  if BinaryFormat.double.infinityCode < code then .nan
  else if BinaryFormat.double.infinityCode = code then .infinity negative
  else .nearest negative (BinaryFormat.double.units code)
    (Nat.pow 2 (BinaryFormat.double.unitPlaces - BinaryFormat.single.unitPlaces))

/-- How a decimal is laid out. -/
structure DecimalLayout where
  /-- Which of two equally near shortest decimals is written. -/
  tie : TieRule
  /-- The leading digit's powers of ten, from the first up to but not with the second, that are
  written without an exponent; all of them if there is none. -/
  positional : Option (Int × Int)
  /-- Whether a whole number keeps a point and a zero. -/
  pointZero : Bool
  /-- What stands between the mark `e` and the digits of a nonnegative exponent. -/
  plus : List Char

namespace DecimalLayout

variable (layout : DecimalLayout)

/-- A decimal without its sign. -/
def unsigned (decimal : Decimal) : List Char :=
  let digits := Nat.toDigits 10 decimal.digits
  let leading := decimal.exponent + digits.length - 1
  let inside := match layout.positional with
    | none => true
    | some (low, high) => decide (low ≤ leading ∧ leading < high)
  if inside then
    if 0 ≤ decimal.exponent then
      digits ++ List.replicate decimal.exponent.toNat '0' ++
        if layout.pointZero then ['.', '0'] else []
    else if 0 ≤ leading then
      digits.take (leading + 1).toNat ++ '.' :: digits.drop (leading + 1).toNat
    else
      '0' :: '.' :: List.replicate (-leading - 1).toNat '0' ++ digits
  else
    let significand := match digits with
      | first :: second :: rest => first :: '.' :: second :: rest
      | short => short
    let sign := if leading < 0 then ['-'] else layout.plus
    significand ++ 'e' :: sign ++ Nat.toDigits 10 leading.natAbs

/-- The finite number of `format` with the given sign and magnitude code. -/
def finite (format : BinaryFormat) (negative : Bool) (code : Nat) : String :=
  let body := layout.unsigned (if code = 0 then ⟨0, 0⟩ else format.shortest layout.tie code)
  String.ofList (if negative then '-' :: body else body)

end DecimalLayout

end SelfPlay.Numeric
