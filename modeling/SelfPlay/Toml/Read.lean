import SelfPlay.Text.Numeral

/-!
# Reading from the front of a text

A reader takes what it reads from the front of a text and gives the rest with it, or it gives
nothing.
-/

namespace SelfPlay.Toml

open SelfPlay.Text (digits?)

/-- What a reader gives: what it read, and the rest of the text. -/
abbrev Read (α : Type) := Option (α × List Char)

/-- Puts a character in front of a text that was read. -/
def Read.push (c : Char) (read : Read (List Char)) : Read (List Char) :=
  read.map fun (text, rest) => (c :: text, rest)

/-- The text after an expected character. -/
def expect? (c : Char) : List Char → Option (List Char)
  | d :: rest => if d = c then some rest else none
  | [] => none

/-- A number of exactly `places` digits. -/
def places? (places : Nat) (text : List Char) : Read Nat :=
  (digits? (text.take places)).bind fun n =>
    if places ≤ text.length then some (n, text.drop places) else none

end SelfPlay.Toml
