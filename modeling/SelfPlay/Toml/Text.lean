import SelfPlay.Numeric.DecimalText
import SelfPlay.Toml.Value

/-!
# The words of TOML

Quoted texts come in four kinds; values without quotes are recognised as a whole by their form.
-/

namespace SelfPlay.Toml

open SelfPlay.Numeric
open SelfPlay.Text (digit? digits?)

def isGap (c : Char) : Bool := c = ' ' || c = '\t'

/-- Characters that may stand in comments and in texts on one line. -/
def isPrintable (c : Char) : Bool := c = '\t' || (0x20 ≤ c.toNat && c.toNat ≠ 0x7F)

/-- The text without spaces and tabs in front. -/
def skipGap (text : List Char) : List Char := text.dropWhile isGap

/-- The text after a line end. -/
def lineEnd? : List Char → Option (List Char)
  | '\n' :: rest => some rest
  | '\r' :: '\n' :: rest => some rest
  | _ => none

def skipComment : List Char → List Char
  | '#' :: rest => rest.dropWhile isPrintable
  | text => text

/-- The text after gaps, comments and line ends; at most `fuel` lines of them. -/
def skipLines : Nat → List Char → List Char
  | 0, text => text
  | fuel + 1, text =>
    let rest := skipComment (skipGap text)
    match lineEnd? rest with
    | some rest => skipLines fuel rest
    | none => rest

def hexDigit? (c : Char) : Option Nat :=
  if '0' ≤ c ∧ c ≤ '9' then some (c.toNat - '0'.toNat)
  else if 'a' ≤ c ∧ c ≤ 'f' then some (c.toNat - 'a'.toNat + 10)
  else if 'A' ≤ c ∧ c ≤ 'F' then some (c.toNat - 'A'.toNat + 10)
  else none

/-- Digits of a base, with single underscores between them, read onto `value`. -/
def baseDigits? (base : Nat) (digit : Char → Option Nat) (value : Nat) : List Char → Option Nat
  | [] => some value
  | '_' :: c :: rest => (digit c).bind fun d => baseDigits? base digit (base * value + d) rest
  | c :: rest => (digit c).bind fun d => baseDigits? base digit (base * value + d) rest

/-- A number in digits of a base, with single underscores between digits. -/
def inBase? (base : Nat) (digit : Char → Option Nat) : List Char → Option Nat
  | [] => none
  | c :: rest => (digit c).bind fun d => baseDigits? base digit d rest

def unicode? (digits : List Char) : Option Char :=
  (inBase? 16 hexDigit? (digits.filter (· ≠ '_'))).bind fun n =>
    if digits.all (· ≠ '_') ∧ n.isValidChar then some (Char.ofNat n) else none

/-- The character that a letter after a backslash stands for. -/
def letterEscape? (c : Char) : Option Char :=
  if c = 'b' then some (Char.ofNat 0x08)
  else if c = 't' then some '\t'
  else if c = 'n' then some '\n'
  else if c = 'f' then some (Char.ofNat 0x0C)
  else if c = 'r' then some '\r'
  else if c = '"' then some '"'
  else if c = '\\' then some '\\'
  else none

/-- The character that an escape stands for, the backslash having been read. -/
def escape? : List Char → Read Char
  | [] => none
  | c :: rest =>
    if c = 'u' then (unicode? (rest.take 4)).bind fun u =>
      if 4 ≤ rest.length then some (u, rest.drop 4) else none
    else if c = 'U' then (unicode? (rest.take 8)).bind fun u =>
      if 8 ≤ rest.length then some (u, rest.drop 8) else none
    else (letterEscape? c).map fun e => (e, rest)

/-- The rest of a text between double quotes, on one line, escapes resolved. -/
def basicBody : Nat → List Char → Read (List Char)
  | 0, _ => none
  | _ + 1, [] => none
  | fuel + 1, c :: rest =>
    if c = '"' then some ([], rest)
    else if c = '\\' then (escape? rest).bind fun (e, rest) => (basicBody fuel rest).push e
    else if isPrintable c then (basicBody fuel rest).push c
    else none

/-- The rest of a text between single quotes, on one line. -/
def literalBody : List Char → Read (List Char)
  | [] => none
  | c :: rest =>
    if c = '\'' then some ([], rest)
    else if isPrintable c then (literalBody rest).push c
    else none

/-- The end of a text between triple quotes, if it is here: up to two quotes of the same kind may
stand directly before it. -/
def tripleEnd? (quote : Char) (text : List Char) : Read (List Char) :=
  let quotes := min 5 (text.takeWhile (· = quote)).length
  if 3 ≤ quotes then some (List.replicate (quotes - 3) quote, text.drop quotes) else none

/-- The text after a backslash at the end of a line: all gaps and line ends are skipped. -/
def continued? (text : List Char) : Option (List Char) :=
  (lineEnd? (skipGap text)).map fun rest => go rest.length rest
where
  /-- The text without gaps and line ends in front; at most `fuel` lines of them. -/
  go : Nat → List Char → List Char
    | 0, text => text
    | fuel + 1, text =>
      match lineEnd? (skipGap text) with
      | some rest => go fuel rest
      | none => skipGap text

/-- The rest of a text between triple quotes. Line ends become line feeds, and with `escapes`
backslashes are resolved. -/
def tripleBody (quote : Char) (escapes : Bool) : Nat → List Char → Read (List Char)
  | 0, _ => none
  | fuel + 1, text =>
    match tripleEnd? quote text with
    | some (quotes, rest) => some (quotes, rest)
    | none =>
      match lineEnd? text with
      | some rest => (tripleBody quote escapes fuel rest).push '\n'
      | none =>
        match text with
        | [] => none
        | c :: rest =>
          if c = '\\' ∧ escapes then
            match continued? rest with
            | some rest => tripleBody quote escapes fuel rest
            | none =>
              (escape? rest).bind fun (e, rest) => (tripleBody quote escapes fuel rest).push e
          else if isPrintable c then (tripleBody quote escapes fuel rest).push c
          else none

/-- The rest of a text between triple quotes; a line end directly after the opening is skipped. -/
def tripleText (quote : Char) (escapes : Bool) (text : List Char) : Read (List Char) :=
  let body := (lineEnd? text).getD text
  tripleBody quote escapes (body.length + 1) body

/-- A quoted text of any kind. -/
def quoted? : List Char → Read (List Char)
  | '"' :: '"' :: '"' :: rest => tripleText '"' true rest
  | '\'' :: '\'' :: '\'' :: rest => tripleText '\'' false rest
  | '"' :: rest => basicBody (rest.length + 1) rest
  | '\'' :: rest => literalBody rest
  | _ => none

/-- Characters of a key without quotes. -/
def isKeyChar (c : Char) : Bool := c.isAlphanum || c = '_' || c = '-'

def keyPart? (text : List Char) : Read String :=
  match text with
  | '"' :: rest => (basicBody (rest.length + 1) rest).map fun (key, rest) => (.ofList key, rest)
  | '\'' :: rest => (literalBody rest).map fun (key, rest) => (.ofList key, rest)
  | _ =>
    let key := text.takeWhile isKeyChar
    if key.isEmpty then none else some (.ofList key, text.dropWhile isKeyChar)

/-- The greatest number of parts of a key. -/
def maxKeyParts : Nat := 79

/-- A key of one to `count` parts joined by points, with gaps around the parts. -/
def keyParts? : Nat → List Char → Read (List String)
  | 0, _ => none
  | count + 1, text =>
    (keyPart? (skipGap text)).bind fun (part, rest) =>
      match skipGap rest with
      | '.' :: rest => (keyParts? count rest).map fun (parts, rest) => (part :: parts, rest)
      | rest => some ([part], rest)

def key? (text : List Char) : Read (List String) := keyParts? maxKeyParts text

/-- The greatest whole number plus one. -/
def integerBound : Nat := 0x8000000000000000

/-- A whole number in decimal digits without zeros in front. -/
def decimalInteger? (text : List Char) : Option Int :=
  let (negative, digits) := match text with
    | '-' :: rest => (true, rest)
    | '+' :: rest => (false, rest)
    | _ => (false, text)
  let padded := match digits with
    | '0' :: _ :: _ => true
    | _ => false
  if padded then none
  else
    (inBase? 10 digit? digits).bind fun n =>
      if negative then if n ≤ integerBound then some (-(n : Int)) else none
      else if n < integerBound then some (n : Int) else none

/-- A whole number in one of the four bases. -/
def integer? : List Char → Option Int
  | '0' :: 'x' :: digits => based (inBase? 16 hexDigit? digits)
  | '0' :: 'o' :: digits => based (inBase? 8 octal? digits)
  | '0' :: 'b' :: digits => based (inBase? 2 binary? digits)
  | text => decimalInteger? text
where
  octal? (c : Char) : Option Nat := (digit? c).bind fun d => if d < 8 then some d else none
  binary? (c : Char) : Option Nat := (digit? c).bind fun d => if d < 2 then some d else none
  /-- A number that is not too great. -/
  based (value : Option Nat) : Option Int :=
    value.bind fun n => if n < integerBound then some (n : Int) else none

/-- Whether digits have single underscores between them and nothing else. -/
def isDigits (text : List Char) : Bool := (inBase? 10 digit? text).isSome

/-- A double-precision number in decimal digits with a fraction, an exponent or both. It must not
be so great that it would become positive infinity. -/
def decimalFloat? (text : List Char) : Option Value :=
  let (negative, body) := match text with
    | '-' :: rest => (true, rest)
    | '+' :: rest => (false, rest)
    | _ => (false, text)
  let isMark (c : Char) := c = 'e' || c = 'E'
  let mantissa := body.takeWhile (!isMark ·)
  let whole := mantissa.takeWhile (· ≠ '.')
  let wholeOk := (decimalInteger? whole).isSome || (isDigits whole && whole.head? ≠ some '0')
  let fractionOk := match mantissa.dropWhile (· ≠ '.') with
    | [] => true
    | _ :: fraction => isDigits fraction
  let exponentOk := match body.dropWhile (!isMark ·) with
    | [] => mantissa.contains '.'
    | _ :: '-' :: digits => isDigits digits
    | _ :: '+' :: digits => isDigits digits
    | _ :: digits => isDigits digits
  let signed := whole.head? = some '-' || whole.head? = some '+'
  if wholeOk && !signed && fractionOk && exponentOk then
    (WrittenNumber.unsigned? (body.filter (· ≠ '_'))).bind fun (digits, exponent) =>
      let code := BinaryFormat.double.nearestDecimal digits exponent
      if code = BinaryFormat.double.infinityCode ∧ !negative then none
      else some (.float negative code)
  else none

/-- The words for infinity and for no number. -/
def specialFloat? (text : List Char) : Option Value :=
  let (negative, body) := match text with
    | '-' :: rest => (true, rest)
    | '+' :: rest => (false, rest)
    | _ => (false, text)
  if body = "inf".toList then some (.float negative BinaryFormat.double.infinityCode)
  else if body = "nan".toList then some (.float negative (BinaryFormat.double.infinityCode + 1))
  else none

/-- Characters of a value without quotes and brackets. -/
def isWordChar (c : Char) : Bool := c.isAlphanum || c = '_' || c = '-' || c = '+' || c = '.' || c = ':'

/-- The value that a word stands for. -/
def ofWord? (word : List Char) : Option Value :=
  if word = "true".toList then some (.boolean true)
  else if word = "false".toList then some (.boolean false)
  else
    match Datetime.ofText? word, integer? word with
    | some value, _ => some (.datetime value)
    | none, some n => some (.integer n)
    | none, none => (decimalFloat? word).orElse fun _ => specialFloat? word

/-- A date, a space and a time. -/
def spacedDatetime? (text : List Char) : Read Datetime :=
  match text.dropWhile isWordChar with
  | ' ' :: rest =>
    let time := rest.takeWhile isWordChar
    if time.isEmpty then none
    else
      (Datetime.ofText? (text.takeWhile isWordChar ++ ' ' :: time)).map fun value =>
        (value, rest.dropWhile isWordChar)
  | _ => none

/-- A value without quotes and brackets. -/
def word? (text : List Char) : Read Value :=
  match spacedDatetime? text with
  | some (value, rest) => some (.datetime value, rest)
  | none =>
    (ofWord? (text.takeWhile isWordChar)).map fun value => (value, text.dropWhile isWordChar)

end SelfPlay.Toml
