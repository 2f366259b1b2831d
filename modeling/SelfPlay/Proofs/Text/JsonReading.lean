import SelfPlay.Proofs.Text.Json
import SelfPlay.Proofs.Text.Pieces

/-!
# JSON values read again

A reader of JSON that is told nothing about the writer: characters make tokens, and tokens make
values on a stack of lists and objects that have not ended. What the writer writes reads as the value
that it wrote, so nothing about a value is lost on its line.
-/

namespace SelfPlay.Text

/-- A JSON value as it is read. Numbers, truth values and `null` are left as the words they are
written as. -/
inductive Parsed where
  | word (text : String)
  | text (value : String)
  | list (values : List Parsed)
  | object (fields : List (String × Parsed))

namespace Parsed

/-! ## Tokens -/

inductive Token where
  /-- A bracket, a comma or a colon. -/
  | sign (c : Char)
  | word (letters : List Char)
  | text (value : List Char)
deriving DecidableEq

def isSign (c : Char) : Bool := c ∈ ['[', ']', '\x7b', '\x7d', ',', ':']

/-- What a letter after a backslash stands for. -/
def escaped? (c : Char) : Option Char :=
  [('"', '"'), ('\\', '\\'), ('/', '/'), ('b', '\x08'), ('f', '\x0c'), ('n', '\n'), ('r', '\r'),
    ('t', '\t')].lookup c

def hexDigit? (c : Char) : Option Nat :=
  if c.isDigit then some (c.toNat - '0'.toNat)
  else if 'a' ≤ c ∧ c ≤ 'f' then some (c.toNat - 'a'.toNat + 10)
  else if 'A' ≤ c ∧ c ≤ 'F' then some (c.toNat - 'A'.toNat + 10)
  else none

/-- Where a reader is between two characters. What was read of a word or a text comes last
character first. -/
inductive Mode where
  | between
  | word (seen : List Char)
  | text (seen : List Char)
  /-- After a backslash. -/
  | escape (seen : List Char)
  /-- In a character given by its number, of which so many digits are missing after the next. -/
  | code (seen : List Char) (missing value : Nat)

/-- The tokens of a text, from some place in it on. -/
def tokens? : Mode → List Char → Option (List Token)
  | .between, [] => some []
  | .word seen, [] => some [.word seen.reverse]
  | _, [] => none
  | .between, c :: rest =>
    if isSign c then (tokens? .between rest).map (.sign c :: ·)
    else if isWordChar c then tokens? (.word [c]) rest
    else if c = '"' then tokens? (.text []) rest
    else none
  | .word seen, c :: rest =>
    if isSign c then
      (tokens? .between rest).map fun more => .word seen.reverse :: .sign c :: more
    else if isWordChar c then tokens? (.word (c :: seen)) rest
    else none
  | .text seen, c :: rest =>
    if c = '"' then (tokens? .between rest).map (.text seen.reverse :: ·)
    else if c = '\\' then tokens? (.escape seen) rest
    else if isPrintable c then tokens? (.text (c :: seen)) rest
    else none
  | .escape seen, c :: rest =>
    if c = 'u' then tokens? (.code seen 3 0) rest
    else (escaped? c).bind fun original => tokens? (.text (original :: seen)) rest
  | .code seen (missing + 1) value, c :: rest =>
    (hexDigit? c).bind fun digit => tokens? (.code seen missing (16 * value + digit)) rest
  | .code seen 0 value, c :: rest =>
    (hexDigit? c).bind fun digit =>
      if (16 * value + digit).isValidChar then
        tokens? (.text (Char.ofNat (16 * value + digit) :: seen)) rest
      else none

/-! ## Values -/

/-- A list or an object that has not ended: what came before the value that is being read, last one
first. -/
inductive Frame where
  | list (values : List Parsed)
  | object (fields : List (String × Parsed)) (name : String)

/-- What is expected of the next token, inside of lists and objects, innermost first. -/
inductive State where
  /-- A value. -/
  | value (stack : List Frame)
  /-- What follows a value. -/
  | after (stack : List Frame) (value : Parsed)
  /-- The first value of a list or the list's end. -/
  | list (stack : List Frame)
  /-- The first name of an object or the object's end. -/
  | object (stack : List Frame)
  /-- A name after the fields of an object. -/
  | name (stack : List Frame) (fields : List (String × Parsed))
  /-- The colon after a name. -/
  | colon (stack : List Frame) (fields : List (String × Parsed)) (name : String)

/-- A value begins. -/
def begin (stack : List Frame) : Token → Option State
  | .word letters => some (.after stack (.word (String.ofList letters)))
  | .text value => some (.after stack (.text (String.ofList value)))
  | .sign '[' => some (.list stack)
  | .sign '\x7b' => some (.object stack)
  | .sign _ => none

def step : State → Token → Option State
  | .value stack, token => begin stack token
  | .list stack, token =>
    if token = .sign ']' then some (.after stack (.list [])) else begin (.list [] :: stack) token
  | .object stack, .sign '\x7d' => some (.after stack (.object []))
  | .object stack, .text name => some (.colon stack [] (String.ofList name))
  | .name stack fields, .text name => some (.colon stack fields (String.ofList name))
  | .colon stack fields name, .sign ':' => some (.value (.object fields name :: stack))
  | .after (.list values :: stack) value, .sign ',' =>
    some (.value (.list (value :: values) :: stack))
  | .after (.list values :: stack) value, .sign ']' =>
    some (.after stack (.list (value :: values).reverse))
  | .after (.object fields name :: stack) value, .sign ',' =>
    some (.name stack ((name, value) :: fields))
  | .after (.object fields name :: stack) value, .sign '\x7d' =>
    some (.after stack (.object ((name, value) :: fields).reverse))
  | _, _ => none

/-- The value that a text is, if it is one. -/
def ofText? (text : List Char) : Option Parsed :=
  match (tokens? .between text).bind (·.foldlM step (.value [])) with
  | some (.after [] value) => some value
  | _ => none

/-- The values of a text that has one on each line, all lines ended. -/
def ofLines? (text : String) : Option (List Parsed) :=
  let lines := pieces (· = '\n') text.toList
  if lines.getLast? = some [] then lines.dropLast.mapM ofText? else none

/-! ## What a value says -/

/-- The field of an object with a name, read in some way. -/
def get? {α : Type} (read : Parsed → Option α) (name : String) : Parsed → Option α
  | .object fields => (fields.lookup name).bind read
  | _ => none

def string? : Parsed → Option String
  | .text value => some value
  | _ => none

def strings? : Parsed → Option (List String)
  | .list values => values.mapM string?
  | _ => none

def natural? : Parsed → Option Nat
  | .word letters => digits? letters.toList
  | _ => none

def boolean? : Parsed → Option Bool
  | .word letters => truth? letters.toList
  | _ => none

/-- A number that may be missing. -/
def naturalOrNull? : Parsed → Option (Option Nat)
  | .word letters =>
    if letters = "null" then some none else (digits? letters.toList).map some
  | _ => none

end Parsed

namespace Json

open Parsed (Token tokens? isSign Frame State begin step)

mutual

/-- The value as a reader gets it. -/
def parsed : Json → Parsed
  | .null => .word "null"
  | .bool value => .word (ofBool value)
  | .int value => .word (ofInt value)
  | .single value => .word (ofSingle value)
  | .double negative code => .word (ofDouble negative code)
  | .text value => .text value
  | .list values => .list (parsedAll values)
  | .object fields => .object (parsedFields fields)

def parsedAll : List Json → List Parsed
  | [] => []
  | value :: rest => parsed value :: parsedAll rest

def parsedFields : List (String × Json) → List (String × Parsed)
  | [] => []
  | (name, value) :: rest => (name, parsed value) :: parsedFields rest

end

/-! ## Texts make tokens -/

theorem not_isSign_of_isWordChar {c : Char} (h : isWordChar c = true) : isSign c = false := by
  refine decide_eq_false fun hmem => ?_
  simp only [List.mem_cons, List.not_mem_nil, or_false] at hmem
  rcases hmem with rfl | rfl | rfl | rfl | rfl | rfl <;> exact absurd h (by decide)

/-- A text goes on with nothing that could belong to a word before it. -/
def EndsWord (rest : List Char) : Prop := ∀ c ∈ rest.head?, isSign c = true

theorem endsWord_cons {c : Char} (hc : isSign c = true) (rest : List Char) :
    EndsWord (c :: rest) := by
  intro d hd
  cases hd
  exact hc

theorem tokens?_sign {c : Char} (hc : isSign c = true) (rest : List Char) :
    tokens? .between (c :: rest) = (tokens? .between rest).map (.sign c :: ·) := by
  rw [tokens?, if_pos hc]

theorem tokens?_word {seen text rest : List Char} (htext : ConsistsOf isWordChar text)
    (hrest : EndsWord rest) :
    tokens? (.word seen) (text ++ rest) =
      (tokens? .between rest).map (.word (seen.reverse ++ text) :: ·) := by
  induction text generalizing seen with
  | nil =>
    rw [List.nil_append, List.append_nil]
    cases rest with
    | nil => rfl
    | cons c rest =>
      have hc : isSign c = true := hrest c rfl
      rw [tokens?_sign hc, tokens?, if_pos hc, Option.map_map]
      rfl
  | cons c text ih =>
    obtain ⟨hc, htext⟩ := List.forall_mem_cons.mp htext
    rw [List.cons_append, tokens?, if_neg (by rw [not_isSign_of_isWordChar hc]; decide), if_pos hc,
      ih htext, List.reverse_cons, List.append_assoc, List.singleton_append]

theorem tokens?_scalar {text rest : List Char} (htext : IsScalar text) (hrest : EndsWord rest) :
    tokens? .between (text ++ rest) = (tokens? .between rest).map ([.word text] ++ ·) := by
  obtain ⟨c, more, rfl⟩ := List.exists_cons_of_ne_nil htext.ne_nil
  obtain ⟨hc, hmore⟩ := List.forall_mem_cons.mp htext.chars
  rw [List.cons_append, tokens?, if_neg (by rw [not_isSign_of_isWordChar hc]; decide), if_pos hc,
    tokens?_word hmore hrest]
  rfl

theorem eq_ofNat_of_toNat_eq {c : Char} {n : Nat} (h : c.toNat = n) : c = Char.ofNat n := by
  rw [← h, Char.ofNat_toNat]

theorem tokens?_digit {c : Char} {digit : Nat} (h : Parsed.hexDigit? c = some digit)
    (seen : List Char) (missing value : Nat) (rest : List Char) :
    tokens? (.code seen (missing + 1) value) (c :: rest) =
      tokens? (.code seen missing (16 * value + digit)) rest := by
  rw [tokens?, h, Option.bind_some]

theorem tokens?_lastDigit {c : Char} {digit : Nat} (h : Parsed.hexDigit? c = some digit)
    (seen : List Char) {value : Nat} {original : Char}
    (hvalue : 16 * value + digit = original.toNat) (rest : List Char) :
    tokens? (.code seen 0 value) (c :: rest) = tokens? (.text (original :: seen)) rest := by
  have hvalid : original.toNat.isValidChar := original.valid
  rw [tokens?, h, Option.bind_some, hvalue, if_pos hvalid, Char.ofNat_toNat]

/-- A control character is read from the digits of its number. -/
theorem tokens?_code {c : Char} (h : c.toNat < 0x20) (seen rest : List Char) :
    tokens? (.text seen) (['\\', 'u', '0', '0'] ++ [Nat.digitChar (c.toNat / 16),
      Nat.digitChar (c.toNat % 16)] ++ rest) = tokens? (.text (c :: seen)) rest := by
  have hdigit : ∀ n < 16, Parsed.hexDigit? (Nat.digitChar n) = some n := by decide
  have hzero : Parsed.hexDigit? '0' = some 0 := by decide
  have hhigh := hdigit (c.toNat / 16) (by omega)
  have hlow := hdigit (c.toNat % 16) (Nat.mod_lt _ (by decide))
  have hvalue : 16 * (16 * (16 * (16 * 0 + 0) + 0) + c.toNat / 16) + c.toNat % 16 = c.toNat := by
    omega
  calc tokens? (.text seen) (['\\', 'u', '0', '0'] ++ [Nat.digitChar (c.toNat / 16),
        Nat.digitChar (c.toNat % 16)] ++ rest)
      = tokens? (.code seen 3 0) ('0' :: '0' :: Nat.digitChar (c.toNat / 16) ::
          Nat.digitChar (c.toNat % 16) :: rest) := rfl
    _ = tokens? (.text (c :: seen)) rest := by
      rw [tokens?_digit hzero, tokens?_digit hzero, tokens?_digit hhigh,
        tokens?_lastDigit hlow _ hvalue]

/-- An escaped character is read as itself. -/
theorem tokens?_escapeChar (c : Char) (seen rest : List Char) :
    tokens? (.text seen) (escapeChar c ++ rest) = tokens? (.text (c :: seen)) rest := by
  unfold escapeChar
  split
  · subst_vars; rfl
  split
  · subst_vars; rfl
  split
  · subst_vars; rfl
  split
  · subst_vars; rfl
  split
  · subst_vars; rfl
  split
  · rename_i hcode
    rw [eq_ofNat_of_toNat_eq hcode]
    rfl
  split
  · rename_i hcode
    rw [eq_ofNat_of_toNat_eq hcode]
    rfl
  split
  · rename_i hcontrol
    exact tokens?_code hcontrol seen rest
  · rename_i hquote hslash _ _ _ _ _ hplain
    have hprintable : isPrintable c = true := decide_eq_true (Nat.le_of_not_lt hplain)
    rw [List.singleton_append, tokens?, if_neg hquote, if_neg hslash, if_pos hprintable]

theorem tokens?_text (value seen rest : List Char) :
    tokens? (.text seen) (value.flatMap escapeChar ++ '"' :: rest) =
      (tokens? .between rest).map (.text (seen.reverse ++ value) :: ·) := by
  induction value generalizing seen with
  | nil =>
    rw [List.flatMap_nil, List.nil_append, List.append_nil]
    rfl
  | cons c value ih =>
    rw [List.flatMap_cons, List.append_assoc, tokens?_escapeChar, ih, List.reverse_cons,
      List.append_assoc, List.singleton_append]

/-- What is quoted is read as it was. -/
theorem tokens?_quote (value : String) (rest : List Char) :
    tokens? .between ((quote value).toList ++ rest) =
      (tokens? .between rest).map ([.text value.toList] ++ ·) := by
  unfold quote
  rw [String.toList_ofList, List.append_assoc, List.cons_append, List.singleton_append]
  exact tokens?_text value.toList [] rest

/-- A text is read as some tokens, before whatever may follow a value. -/
def ReadsAs (text : List Char) (tokens : List Token) : Prop :=
  ∀ rest, EndsWord rest →
    tokens? .between (text ++ rest) = (tokens? .between rest).map (tokens ++ ·)

theorem ReadsAs.intercalate {texts : List (List Char)} {tokens : List (List Token)}
    (h : List.Forall₂ ReadsAs texts tokens) :
    ReadsAs ([','].intercalate texts) ([Token.sign ','].intercalate tokens) := by
  intro rest hrest
  induction h with
  | nil =>
    change tokens? .between rest = (tokens? .between rest).map id
    rw [Option.map_id_fun, id]
  | @cons text first _ _ hfirst hmore ih =>
    cases hmore with
    | nil =>
      rw [List.intercalate_singleton, List.intercalate_singleton]
      exact hfirst rest hrest
    | cons hnext hmore =>
      have hcomma : isSign ',' = true := by decide
      rw [List.intercalate_cons_cons, List.intercalate_cons_cons, List.append_assoc,
        List.append_assoc, List.singleton_append, hfirst _ (endsWord_cons hcomma _),
        tokens?_sign hcomma, ih, Option.map_map, Option.map_map]
      congr 1
      funext more
      simp only [Function.comp_apply, List.append_assoc, List.cons_append, List.nil_append]

theorem ReadsAs.bracketed {text : List Char} {tokens : List Token} (h : ReadsAs text tokens)
    {left right : Char} (hleft : isSign left = true) (hright : isSign right = true) :
    ReadsAs ([left] ++ text ++ [right]) (.sign left :: tokens ++ [.sign right]) := by
  intro rest hrest
  rw [List.append_assoc, List.append_assoc, List.singleton_append, tokens?_sign hleft,
    List.singleton_append, h _ (endsWord_cons hright rest), tokens?_sign hright, Option.map_map,
    Option.map_map]
  congr 1
  funext more
  simp only [Function.comp_apply, List.append_assoc, List.cons_append, List.nil_append]

/-- A field's name, the colon and the field's value. -/
theorem ReadsAs.field {text : List Char} {tokens : List Token} (h : ReadsAs text tokens)
    (name : String) :
    ReadsAs ((quote name).toList ++ [':'] ++ text)
      (.text name.toList :: .sign ':' :: tokens) := by
  intro rest hrest
  have hcolon : isSign ':' = true := by decide
  rw [List.append_assoc, List.append_assoc, List.singleton_append, tokens?_quote,
    tokens?_sign hcolon, h _ hrest, Option.map_map, Option.map_map]
  rfl

/-! ## Tokens make values -/

/-- Where a value is expected, some tokens are one. -/
def Makes (tokens : List Token) (value : Parsed) : Prop :=
  ∀ stack, tokens.foldlM step (.value stack) = some (.after stack value)

/-- A value does not begin as a list ends, so the first value of a list is read as any later one. -/
theorem Makes.foldlM_list {tokens : List Token} {value : Parsed} (h : Makes tokens value)
    (stack : List Frame) :
    tokens.foldlM step (.list stack) = some (.after (.list [] :: stack) value) := by
  cases tokens with
  | nil => exact absurd (h []) (by simp)
  | cons token rest =>
    have hne : token ≠ .sign ']' := by
      rintro rfl
      exact absurd (h []) (by simp [step, begin])
    have hfirst : step (.list stack) token = step (.value (.list [] :: stack)) token := if_neg hne
    rw [← h, List.foldlM_cons, List.foldlM_cons, hfirst]

/-- How items are read one after the other: where an item is expected it is read; after it comes a
comma, and the next one is expected, or a sign that ends them all. -/
structure Series {α : Type} (MakesItem : List Token → α → Prop) (expected : List α → State)
    (read : List α → α → State) (ended : List α → State) (close : Char) : Prop where
  item : ∀ {tokens item}, MakesItem tokens item → ∀ before,
    tokens.foldlM step (expected before) = some (read before item)
  comma : ∀ before item, step (read before item) (.sign ',') = some (expected (item :: before))
  close : ∀ before item,
    step (read before item) (.sign close) = some (ended (item :: before).reverse)

/-- All items from the first that is read on, to their end. -/
theorem Series.foldlM {α : Type} {MakesItem : List Token → α → Prop} {expected : List α → State}
    {read : List α → α → State} {ended : List α → State} {close : Char}
    (hseries : Series MakesItem expected read ended close) {tokens : List (List Token)}
    {items : List α} (h : List.Forall₂ MakesItem tokens items) {first : List Token} {item : α}
    {state : State} {before : List α}
    (hfirst : first.foldlM step state = some (read before item)) :
    ([Token.sign ','].intercalate (first :: tokens) ++ [Token.sign close]).foldlM step state =
      some (ended (before.reverse ++ item :: items)) := by
  induction h generalizing first item state before with
  | nil =>
    rw [List.intercalate_singleton, List.foldlM_append, hfirst, Option.bind_eq_bind,
      Option.bind_some, List.foldlM_cons, hseries.close, List.reverse_cons]
    rfl
  | cons hnext _ ih =>
    have hrest := ih (hseries.item hnext (item :: before))
    rw [List.reverse_cons, List.append_assoc, List.singleton_append] at hrest
    rw [List.intercalate_cons_cons, List.append_assoc, List.append_assoc, List.foldlM_append,
      hfirst, Option.bind_eq_bind, Option.bind_some, List.singleton_append, List.foldlM_cons,
      hseries.comma]
    exact hrest

theorem series_values (stack : List Frame) :
    Series Makes (fun before => .value (.list before :: stack))
      (fun before value => .after (.list before :: stack) value)
      (fun values => .after stack (.list values)) ']' :=
  ⟨fun hitem _ => hitem _, fun _ _ => rfl, fun _ _ => rfl⟩

/-- Tokens of values make a list. -/
theorem Makes.list {tokens : List (List Token)} {values : List Parsed}
    (h : List.Forall₂ Makes tokens values) :
    Makes (.sign '[' :: [Token.sign ','].intercalate tokens ++ [.sign ']']) (.list values) := by
  intro stack
  cases h with
  | nil => rfl
  | cons hfirst hmore => exact (series_values stack).foldlM hmore (hfirst.foldlM_list stack)

/-- Where a name is expected, some tokens are a field. -/
def MakesField (tokens : List Token) (field : String × Parsed) : Prop :=
  ∃ valueTokens, tokens = .text field.1.toList :: .sign ':' :: valueTokens ∧
    Makes valueTokens field.2

theorem MakesField.foldlM_name {tokens : List Token} {field : String × Parsed}
    (h : MakesField tokens field) (stack : List Frame) (fields : List (String × Parsed)) :
    tokens.foldlM step (.name stack fields) =
      some (.after (.object fields field.1 :: stack) field.2) := by
  obtain ⟨valueTokens, rfl, hvalue⟩ := h
  change valueTokens.foldlM step
    (.value (.object fields (String.ofList field.1.toList) :: stack)) = _
  rw [String.ofList_toList, hvalue]

theorem MakesField.foldlM_object {tokens : List Token} {field : String × Parsed}
    (h : MakesField tokens field) (stack : List Frame) :
    tokens.foldlM step (.object stack) = some (.after (.object [] field.1 :: stack) field.2) := by
  rw [← h.foldlM_name]
  obtain ⟨valueTokens, rfl, -⟩ := h
  rfl

theorem series_fields (stack : List Frame) :
    Series MakesField (.name stack)
      (fun before field => .after (.object before field.1 :: stack) field.2)
      (fun fields => .after stack (.object fields)) '\x7d' :=
  ⟨fun hitem => hitem.foldlM_name stack, fun _ _ => rfl, fun _ _ => rfl⟩

/-- Tokens of fields make an object. -/
theorem Makes.object {tokens : List (List Token)} {fields : List (String × Parsed)}
    (h : List.Forall₂ MakesField tokens fields) :
    Makes (.sign '\x7b' :: [Token.sign ','].intercalate tokens ++ [.sign '\x7d'])
      (.object fields) := by
  intro stack
  cases h with
  | nil => rfl
  | cons hfirst hmore => exact (series_fields stack).foldlM hmore (hfirst.foldlM_object stack)

/-! ## Values are read as they were written -/

/-- Some tokens are read from a text and make a value. -/
def Spells (text : List Char) (value : Parsed) : Prop :=
  ∃ tokens, ReadsAs text tokens ∧ Makes tokens value

theorem spells_scalar {text : String} (h : IsScalar text.toList) :
    Spells text.toList (.word text) := by
  refine ⟨[.word text.toList], fun _ => tokens?_scalar h, fun stack => ?_⟩
  change some _ = _
  rw [String.ofList_toList]

theorem spells_quote (value : String) : Spells (quote value).toList (.text value) := by
  refine ⟨[.text value.toList], fun rest _ => tokens?_quote value rest, fun stack => ?_⟩
  change some _ = _
  rw [String.ofList_toList]

mutual

/-- What is written of a value spells the value. -/
theorem spells_render : ∀ json : Json, Spells json.render.toList json.parsed
  | .null => by
    unfold render parsed
    exact spells_scalar ⟨by decide, by decide⟩
  | .bool value => by
    unfold render parsed
    exact spells_scalar (isScalar_ofBool value)
  | .int value => by
    unfold render parsed
    exact spells_scalar (isScalar_ofInt value)
  | .single value => by
    unfold render parsed
    exact spells_scalar (isScalar_ofSingle value)
  | .double negative code => by
    unfold render parsed
    exact spells_scalar (isScalar_ofDouble negative code)
  | .text value => by
    unfold render parsed
    exact spells_quote value
  | .list values => by
    obtain ⟨tokens, hread, hmake⟩ := exists_tokens_renderAll values
    unfold render parsed
    rw [String.toList_append, String.toList_append, String.toList_intercalate]
    exact ⟨_, (ReadsAs.intercalate hread).bracketed (by decide) (by decide), .list hmake⟩
  | .object fields => by
    obtain ⟨tokens, hread, hmake⟩ := exists_tokens_renderFields fields
    unfold render parsed
    rw [String.toList_append, String.toList_append, String.toList_intercalate]
    exact ⟨_, (ReadsAs.intercalate hread).bracketed (by decide) (by decide), .object hmake⟩

theorem exists_tokens_renderAll : ∀ values : List Json, ∃ tokens,
    List.Forall₂ ReadsAs ((renderAll values).map String.toList) tokens ∧
      List.Forall₂ Makes tokens (parsedAll values)
  | [] => ⟨[], .nil, .nil⟩
  | value :: rest => by
    obtain ⟨first, hread, hmake⟩ := spells_render value
    obtain ⟨more, hreads, hmakes⟩ := exists_tokens_renderAll rest
    exact ⟨first :: more, .cons hread hreads, .cons hmake hmakes⟩

theorem exists_tokens_renderFields : ∀ fields : List (String × Json), ∃ tokens,
    List.Forall₂ ReadsAs ((renderFields fields).map String.toList) tokens ∧
      List.Forall₂ MakesField tokens (parsedFields fields)
  | [] => ⟨[], .nil, .nil⟩
  | (name, value) :: rest => by
    obtain ⟨first, hread, hmake⟩ := spells_render value
    obtain ⟨more, hreads, hmakes⟩ := exists_tokens_renderFields rest
    have hfield := hread.field name
    unfold renderFields parsedFields
    refine ⟨_ :: more, .cons ?_ hreads, .cons ⟨first, rfl, hmake⟩ hmakes⟩
    rw [String.toList_append, String.toList_append]
    exact hfield

end

/-- **A value's line is read as the value.** -/
theorem ofText?_render (json : Json) : Parsed.ofText? json.render.toList = some json.parsed := by
  obtain ⟨tokens, hread, hmake⟩ := spells_render json
  have htokens := hread [] (fun _ hmem => by cases hmem)
  rw [List.append_nil, tokens?, Option.map_some, List.append_nil] at htokens
  rw [Parsed.ofText?, htokens, Option.bind_some, hmake]

theorem mapM_ofText?_render (values : List Json) :
    (values.map (·.render.toList)).mapM Parsed.ofText? = some (values.map parsed) := by
  induction values with
  | nil => rfl
  | cons json rest ih =>
    rw [List.map_cons, List.mapM_cons, ofText?_render, ih]
    rfl

/-- Values on lines are read as they were written. -/
theorem ofLines?_join (values : List Json) :
    Parsed.ofLines? (String.join (values.map (·.render ++ "\n"))) = some (values.map parsed) := by
  have hplain : ∀ text ∈ values.map (·.render.toList), ∀ c ∈ text, decide (c = '\n') = false := by
    intro text htext c hc
    obtain ⟨json, -, rfl⟩ := List.mem_map.mp htext
    refine decide_eq_false ?_
    rintro rfl
    exact absurd (isPrintable_render json '\n' hc) (by decide)
  have htext : (String.join (values.map (·.render ++ "\n"))).toList =
      (values.map (·.render.toList)).flatMap (· ++ ['\n']) := by
    rw [String.toList_join, List.flatMap_map, List.flatMap_map]
    refine List.flatMap_congr fun json _ => ?_
    rw [String.toList_append]
    rfl
  have hlines : pieces (· = '\n') (String.join (values.map (·.render ++ "\n"))).toList =
      values.map (·.render.toList) ++ [[]] := by
    rw [htext]
    exact pieces_flatMap (by decide) hplain
  unfold Parsed.ofLines?
  rw [hlines]
  simp only [List.getLast?_concat, if_true, List.dropLast_concat]
  exact mapM_ofText?_render values

/-! ## What an object says -/

theorem get?_parsed {α : Type} {read : Parsed → Option α} {name : String} {value : Json} {a : α}
    {fields : List (String × Json)} (hlookup : fields.lookup name = some value)
    (hread : read value.parsed = some a) :
    (object fields).parsed.get? read name = some a := by
  change ((parsedFields fields).lookup name).bind read = some a
  induction fields with
  | nil => cases hlookup
  | cons field rest ih =>
    rw [List.lookup_cons] at hlookup
    rw [parsedFields, List.lookup_cons]
    cases hname : name == field.1 with
    | true =>
      rw [hname] at hlookup
      cases hlookup
      exact hread
    | false =>
      rw [hname] at hlookup
      exact ih hlookup

theorem strings?_parsed (values : List String) :
    (list (values.map text)).parsed.strings? = some values := by
  change (parsedAll (values.map text)).mapM Parsed.string? = some values
  induction values with
  | nil => rfl
  | cons value rest ih =>
    rw [List.map_cons, parsedAll, List.mapM_cons, ih]
    rfl

theorem digits?_ofNat (n : Nat) : digits? (ofNat n).toList = some n := by
  rw [ofNat, String.toList_ofList, digits?_of_isDigit Nat.toDigits_ne_nil
    fun _ => isDigit_of_mem_toDigits, Nat.ofDigitChars_ten_toDigits]

theorem parsed_natural (n : Nat) : (int n).parsed = .word (ofNat n) := by
  simp [parsed, ofInt]

theorem natural?_parsed (n : Nat) : (int n).parsed.natural? = some n := by
  rw [parsed_natural]
  exact digits?_ofNat n

theorem naturalOrNull?_parsed (n : Option Nat) :
    (ofOption (fun n => int n) n).parsed.naturalOrNull? = some n := by
  cases n with
  | none => rfl
  | some n =>
    have hword : ofNat n ≠ "null" := by
      intro hnull
      have hdigits := digits?_ofNat n
      rw [hnull] at hdigits
      cases hdigits
    change (int n).parsed.naturalOrNull? = _
    rw [parsed_natural, Parsed.naturalOrNull?, if_neg hword, digits?_ofNat]
    rfl

theorem boolean?_parsed (value : Bool) : (bool value).parsed.boolean? = some value :=
  truth?_ofBool value

end Json

end SelfPlay.Text
