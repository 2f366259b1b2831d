import SelfPlay.Toml.Text

/-!
# TOML documents

A document is a list of lines, each of which is blank or holds a header or a key with its value;
values in brackets may span lines.
-/

namespace SelfPlay.Toml

/-- The greatest number of brackets around a value. -/
def maxBrackets : Nat := 79

mutual

/-- A value with room for `room` brackets around what is inside it. -/
def value? : Nat → Nat → List Char → Read Value
  | 0, _, _ => none
  | fuel + 1, room, text =>
    match text, room with
    | '[' :: rest, room + 1 =>
      (elements? fuel room rest).map fun (values, rest) => (.array values, rest)
    | '\x7b' :: rest, room + 1 =>
      (fields? fuel room rest).map fun (entries, rest) => (.table (Entries.finishAll entries), rest)
    | '"' :: _, _ | '\'' :: _, _ =>
      (quoted? text).map fun (chars, rest) => (.text (.ofList chars), rest)
    | _, _ => word? text

/-- The elements of an array and its closing bracket. A comma may stand after the last one. -/
def elements? : Nat → Nat → List Char → Read (List Value)
  | 0, _, _ => none
  | fuel + 1, room, text =>
    match skipLines text.length text with
    | ']' :: rest => some ([], rest)
    | text =>
      (value? fuel room text).bind fun (value, rest) =>
        match skipLines rest.length rest with
        | ',' :: rest =>
          (elements? fuel room rest).map fun (values, rest) => (value :: values, rest)
        | ']' :: rest => some ([value], rest)
        | _ => none

/-- The fields of an inline table and its closing brace, on one line. -/
def fields? : Nat → Nat → List Char → Read Entries
  | 0, _, _ => none
  | fuel + 1, room, text =>
    match skipGap text with
    | '\x7d' :: rest => some ([], rest)
    | text => moreFields? fuel room [] text

/-- Fields added to an inline table, at least one. -/
def moreFields? : Nat → Nat → Entries → List Char → Read Entries
  | 0, _, _, _ => none
  | fuel + 1, room, entries, text =>
    (key? text).bind fun (key, rest) =>
      match rest with
      | '=' :: rest =>
        (value? fuel room (skipGap rest)).bind fun (value, rest) =>
          (entries.setDotted key.dropLast (key.getLast?.getD "") value).bind fun entries =>
            match skipGap rest with
            | ',' :: rest => moreFields? fuel room entries rest
            | '\x7d' :: rest => some (entries, rest)
            | _ => none
      | _ => none

end

/-- The text after the rest of a line: a gap, a comment and a line end or the end of the text. -/
def restOfLine? (text : List Char) : Option (List Char) :=
  match skipComment (skipGap text) with
  | [] => some []
  | rest => lineEnd? rest

/-- The document so far and the header that is open. -/
structure Draft where
  entries : Entries
  /-- The open header; none at the start of the document. -/
  header : List String

def line? (draft : Draft) (text : List Char) : Read Draft :=
  match skipGap text with
  | '[' :: '[' :: rest =>
    (key? rest).bind fun (key, rest) =>
      match rest with
      | ']' :: ']' :: rest => (draft.entries.openElement key).map fun entries => (⟨entries, key⟩, rest)
      | _ => none
  | '[' :: rest =>
    (key? rest).bind fun (key, rest) =>
      match rest with
      | ']' :: rest => (draft.entries.openTable key).map fun entries => (⟨entries, key⟩, rest)
      | _ => none
  | [] => some (draft, [])
  | '#' :: rest => some (draft, '#' :: rest)
  | '\n' :: rest => some (draft, '\n' :: rest)
  | '\r' :: rest => some (draft, '\r' :: rest)
  | text =>
    (key? text).bind fun (key, rest) =>
      match rest with
      | '=' :: rest =>
        (value? (2 * rest.length + 2) maxBrackets (skipGap rest)).bind fun (value, rest) =>
          (draft.entries.setUnder draft.header key.dropLast (key.getLast?.getD "") value).map
            fun entries => ({ draft with entries := entries }, rest)
      | _ => none

/-- Lines up to the end of the text, at most `fuel` of them. -/
def lines? : Nat → Draft → List Char → Option Draft
  | _, draft, [] => some draft
  | 0, _, _ => none
  | fuel + 1, draft, text =>
    (line? draft text).bind fun (draft, rest) => (restOfLine? rest).bind (lines? fuel draft)

/-- The mark that may stand at the start of a document. -/
def byteOrderMark : Char := '\uFEFF'

/-- The entries of a document, if it is well-formed. -/
def parse? (text : String) : Option (List (String × Value)) :=
  let body := match text.toList with
    | c :: rest => if c = byteOrderMark then rest else c :: rest
    | [] => []
  (lines? body.length ⟨[], []⟩ body).map fun draft => Entries.finishAll draft.entries

end SelfPlay.Toml
