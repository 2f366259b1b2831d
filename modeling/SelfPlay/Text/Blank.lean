/-!
# Blanks, pieces and words

A blank is a character with the Unicode property White_Space. `trim` removes blanks at both ends,
`words` are the maximal runs without a blank, and `pieces` are the texts between separators, one
piece more than there are separators.
-/

namespace SelfPlay.Text

/-- The first and last code point of each range of characters with the property White_Space. -/
def blankRanges : List (Nat × Nat) :=
  [(0x09, 0x0D), (0x20, 0x20), (0x85, 0x85), (0xA0, 0xA0), (0x1680, 0x1680), (0x2000, 0x200A),
    (0x2028, 0x2029), (0x202F, 0x202F), (0x205F, 0x205F), (0x3000, 0x3000)]

def isBlank (c : Char) : Bool :=
  blankRanges.any fun range => range.1 ≤ c.toNat && c.toNat ≤ range.2

def trimStart (text : List Char) : List Char := text.dropWhile isBlank

def trimEnd (text : List Char) : List Char := (text.reverse.dropWhile isBlank).reverse

def trim (text : List Char) : List Char := trimEnd (trimStart text)

/-- The pieces of `text` between the characters that `separates` picks out. A text without
separators is one piece, and each separator starts a new one. -/
def pieces (separates : Char → Bool) : List Char → List (List Char)
  | [] => [[]]
  | c :: rest =>
    match pieces separates rest with
    | [] => [[c]]
    | piece :: others => if separates c then [] :: piece :: others else (c :: piece) :: others

/-- The maximal runs of characters that are not blank. -/
def words (text : List Char) : List (List Char) :=
  (pieces isBlank text).filter fun piece => !piece.isEmpty

/-- Words joined by single spaces. -/
def unwords : List (List Char) → List Char
  | [] => []
  | [word] => word
  | word :: rest => word ++ ' ' :: unwords rest

/-- There is at least one piece. -/
theorem pieces_ne_nil (separates : Char → Bool) (text : List Char) :
    pieces separates text ≠ [] := by
  cases text with
  | nil => simp [pieces]
  | cons c rest =>
    simp only [pieces]
    split
    · simp
    · split <;> simp

/-- No piece holds a separator. -/
theorem not_separates_of_mem_pieces {separates : Char → Bool} {text piece : List Char}
    (h : piece ∈ pieces separates text) : ∀ c ∈ piece, separates c = false := by
  induction text generalizing piece with
  | nil => simp [pieces] at h; simp [h]
  | cons c rest ih =>
    simp only [pieces] at h
    split at h
    · next empty => exact absurd empty (pieces_ne_nil separates rest)
    · next first others found =>
      rw [found] at ih
      split at h
      · simp only [List.mem_cons] at h
        rcases h with rfl | rfl | h
        · simp
        · exact ih (by simp)
        · exact ih (by simp [h])
      · next plain =>
        simp only [List.mem_cons] at h
        rcases h with rfl | h
        · intro d hd
          simp only [List.mem_cons] at hd
          rcases hd with rfl | hd
          · simpa using plain
          · exact ih List.mem_cons_self d hd
        · exact ih (by simp [h])

end SelfPlay.Text
