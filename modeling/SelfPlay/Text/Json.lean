import SelfPlay.Numeric.DecimalText

/-!
# JSON values on one line

`Json.render` writes a value without blanks, fields in the order given. Numbers are written with
the fewest digits that read back, positionally near one and with an exponent elsewhere; what is not
finite is written as `null`.
-/

namespace SelfPlay.Text

open SelfPlay.Numeric

inductive Json where
  | null
  | bool (value : Bool)
  | int (value : Int)
  | single (value : Binary32)
  /-- A double-precision number given by sign and magnitude code. -/
  | double (negative : Bool) (code : Nat)
  | text (value : String)
  /-- Values in order. -/
  | list (values : List Json)
  /-- Named values in order. -/
  | object (fields : List (String × Json))

namespace Json

/-- Single-precision numbers are positional from `1e-6` up to but not with `1e13`, keep `.0`, and
mark exponents of both signs. -/
def singleLayout : DecimalLayout := ⟨.toEven, some (-6, 13), true, ['+']⟩

/-- Double-precision numbers are positional from `1e-5` up to but not with `1e16`, keep `.0`, and
mark exponents of both signs. -/
def doubleLayout : DecimalLayout := ⟨.toEven, some (-5, 16), true, ['+']⟩

/-- A single-precision number, `null` unless finite. -/
def ofSingle (x : Binary32) : String :=
  if x.isNaN || x.isInfinite then "null"
  else singleLayout.finite .single x.negative x.code

/-- A double-precision number, `null` unless finite. -/
def ofDouble (negative : Bool) (code : Nat) : String :=
  if BinaryFormat.double.infinityCode ≤ code then "null"
  else doubleLayout.finite .double negative code

/-- A character inside quotes. Quotes and backslashes are escaped, and so is every control
character, by a letter where there is one and by four digits elsewhere. -/
def escapeChar (c : Char) : List Char :=
  if c = '"' then ['\\', '"']
  else if c = '\\' then ['\\', '\\']
  else if c = '\n' then ['\\', 'n']
  else if c = '\r' then ['\\', 'r']
  else if c = '\t' then ['\\', 't']
  else if c.toNat = 0x08 then ['\\', 'b']
  else if c.toNat = 0x0C then ['\\', 'f']
  else if c.toNat < 0x20 then
    ['\\', 'u', '0', '0'] ++ [Nat.digitChar (c.toNat / 16), Nat.digitChar (c.toNat % 16)]
  else [c]

/-- A text in quotes. -/
def quote (value : String) : String :=
  String.ofList ('"' :: value.toList.flatMap escapeChar ++ ['"'])

mutual

/-- A value without blanks. -/
def render : Json → String
  | .null => "null"
  | .bool value => ofBool value
  | .int value => ofInt value
  | .single value => ofSingle value
  | .double negative code => ofDouble negative code
  | .text value => quote value
  | .list values => "[" ++ ",".intercalate (renderAll values) ++ "]"
  | .object fields => "\x7b" ++ ",".intercalate (renderFields fields) ++ "\x7d"

def renderAll : List Json → List String
  | [] => []
  | value :: rest => render value :: renderAll rest

def renderFields : List (String × Json) → List String
  | [] => []
  | (name, value) :: rest => (quote name ++ ":" ++ render value) :: renderFields rest

end

def ofOption {α : Type} (value : α → Json) : Option α → Json
  | none => .null
  | some a => value a

end Json

end SelfPlay.Text
