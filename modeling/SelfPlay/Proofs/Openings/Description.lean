import SelfPlay.Openings.Line
import SelfPlay.Proofs.Text.Pieces

/-!
# Opening lines described

A line has several spellings: blanks are free, the word before a position may be left out, and so may
the moves. A description is one of them. Spellings and descriptions meet at the words that a line's
position was written in (`OpeningLine.IsSpelled`), and these words are lost in only one case: a line
that begins with the word for moves is taken to have a position of no words at all, and its
description, in which the word for a position stands before nothing, is refused.
-/

namespace SelfPlay.OpeningLine

open SelfPlay.Text (words IsWord isWord_of_mem_words words_append words_of_isWord words_intercalate)

/-- What a position is described by: the word for the usual start, or the word for a position and
the words of that. -/
def positionWords : Option (List String) → List String
  | none => [startWord]
  | some fen => fenWord :: fen

/-- What moves are described by. -/
def moveWords (moves : List String) : List String :=
  if moves.isEmpty then [] else movesWord :: moves

/-- The line's position was written in these words, or not at all, and its moves are words too. -/
structure IsSpelled (line : OpeningLine) (position : Option (List String)) : Prop where
  fen : line.fen = position.map (" ".intercalate ·)
  position : ∀ fen, position = some fen → movesWord ∉ fen ∧ ∀ word ∈ fen, IsWord word.toList
  moves : ∀ move ∈ line.moves, IsWord move.toList

theorem withMoves_moveWords (fen : Option String) (moves : List String) :
    withMoves fen (moveWords moves) = .ok ⟨fen, moves⟩ := by
  cases moves with
  | nil => rfl
  | cons move rest =>
    change withMoves fen (movesWord :: move :: rest) = _
    rw [withMoves, if_pos rfl]

theorem eq_of_withMoves {fen : Option String} {rest : List String} {line : OpeningLine}
    (h : withMoves fen rest = .ok line) :
    line.fen = fen ∧ ∀ move ∈ line.moves, move ∈ rest := by
  cases rest with
  | nil =>
    cases h
    exact ⟨rfl, (by rintro move ⟨⟩)⟩
  | cons word moves =>
    rw [withMoves] at h
    split at h
    · cases h
      exact ⟨rfl, fun move hmem => List.mem_cons_of_mem _ hmem⟩
    · cases h

theorem not_mem_fenWords (words : List String) : movesWord ∉ fenWords words := by
  intro hmem
  simpa using List.all_eq_true.mp List.all_takeWhile movesWord hmem

/-- Without the word for moves there is nothing behind the position. -/
theorem fenWords_append_moveWords {fen : List String} (h : movesWord ∉ fen) (moves : List String) :
    fenWords (fen ++ moveWords moves) = fen ∧ afterFen (fen ++ moveWords moves) = moveWords moves := by
  have hplain : ∀ word ∈ fen, decide (word ≠ movesWord) = true := by
    intro word hmem
    exact decide_eq_true fun hsame => h (hsame ▸ hmem)
  have hstop : (moveWords moves).takeWhile (· ≠ movesWord) = [] ∧
      (moveWords moves).dropWhile (· ≠ movesWord) = moveWords moves := by
    cases moves with
    | nil => exact ⟨rfl, rfl⟩
    | cons move rest => exact ⟨rfl, rfl⟩
  unfold fenWords afterFen
  rw [List.takeWhile_append_of_pos hplain, List.dropWhile_append_of_pos hplain, hstop.1, hstop.2,
    List.append_nil]
  exact ⟨rfl, rfl⟩

/-- **What it takes to be a line.** Its position was written in words, none of which is the word for
moves; only a line that begins with that word has a position of no words. -/
theorem isSpelled_of_ofWords {written : List String} {line : OpeningLine}
    (hwords : ∀ word ∈ written, IsWord word.toList) (h : ofWords written = .ok line) :
    ∃ position, line.IsSpelled position ∧
      (position = some [] ↔ written.head? = some movesWord) := by
  cases written with
  | nil => cases h
  | cons first rest =>
    have hrest : ∀ word ∈ rest, IsWord word.toList := fun word hmem =>
      hwords word (List.mem_cons_of_mem _ hmem)
    rw [ofWords] at h
    split at h
    · rename_i hstart
      obtain ⟨hfen, hmoves⟩ := eq_of_withMoves h
      refine ⟨none, ⟨hfen, (by rintro fen ⟨⟩), fun move hmem => hrest move (hmoves move hmem)⟩, ?_⟩
      simp [hstart, startWord, movesWord]
    · split at h
      · rename_i hfenWord
        split at h
        · cases h
        · rename_i hfilled
          obtain ⟨hfen, hmoves⟩ := eq_of_withMoves h
          refine ⟨some (fenWords rest), ⟨hfen, ?_, ?_⟩, ?_⟩
          · rintro fen ⟨⟩
            exact ⟨not_mem_fenWords rest, fun word hmem =>
              hrest word ((List.takeWhile_sublist _).subset hmem)⟩
          · exact fun move hmem => hrest move ((List.dropWhile_sublist _).subset (hmoves move hmem))
          · simp [hfenWord, fenWord, movesWord] at hfilled ⊢
            exact hfilled
      · obtain ⟨hfen, hmoves⟩ := eq_of_withMoves h
        refine ⟨some (fenWords (first :: rest)), ⟨hfen, ?_, ?_⟩, ?_⟩
        · rintro fen ⟨⟩
          exact ⟨not_mem_fenWords _, fun word hmem =>
            hwords word ((List.takeWhile_sublist _).subset hmem)⟩
        · exact fun move hmem => hwords move ((List.dropWhile_sublist _).subset (hmoves move hmem))
        · simp [fenWords, List.takeWhile_cons]

/-- A text that ends in a word more has a word more. -/
theorem words_append_space (text rest : String) :
    words (text ++ " " ++ rest).toList = words text.toList ++ words rest.toList := by
  have hspace : " ".toList = [' '] := rfl
  rw [String.toList_append, String.toList_append, hspace, List.append_assoc, List.singleton_append]
  exact words_append _ (by decide) _

theorem words_intercalate_space {texts : List String} (h : ∀ text ∈ texts, IsWord text.toList) :
    words (" ".intercalate texts).toList = texts.map String.toList := by
  rw [String.toList_intercalate]
  exact words_intercalate (by simpa using h)

/-- **What a description consists of**: the words of the position, and of the moves if there are
any. -/
theorem words_describe {line : OpeningLine} {position : Option (List String)}
    (h : line.IsSpelled position) :
    words line.describe.toList =
      (positionWords position ++ moveWords line.moves).map String.toList := by
  obtain ⟨fen, moves⟩ := line
  obtain ⟨rfl, hposition, hmoves⟩ := h
  have hstart : words startWord.toList = [startWord.toList] := by decide
  have hfenWord : words fenWord.toList = [fenWord.toList] := by decide
  have hmovesWord : words movesWord.toList = [movesWord.toList] := by decide
  have hwritten : words (describe ⟨position.map (" ".intercalate ·), []⟩).toList =
      (positionWords position).map String.toList := by
    cases position with
    | none => exact hstart
    | some fen =>
      simp only [describe, Option.map_some, List.isEmpty_nil, if_true]
      rw [words_append_space, hfenWord, words_intercalate_space (hposition fen rfl).2]
      rfl
  rw [List.map_append, ← hwritten]
  unfold describe
  simp only
  cases moves with
  | nil => exact (List.append_nil _).symm
  | cons move rest =>
    rw [if_neg (by simp), words_append_space, words_append_space, hmovesWord,
      words_intercalate_space hmoves, List.append_assoc]
    rfl

/-- What is described reads as it was, unless a position of no words is described. -/
theorem ofWords_describedWords {line : OpeningLine} {position : Option (List String)}
    (h : line.IsSpelled position) :
    ofWords (positionWords position ++ moveWords line.moves) =
      if position = some [] then .error (.ofMessage "missing fen payload") else .ok line := by
  obtain ⟨fen, moves⟩ := line
  obtain ⟨rfl, hposition, -⟩ := h
  cases position with
  | none =>
    change ofWords (startWord :: moveWords moves) = _
    rw [ofWords, if_pos rfl, if_neg (by simp)]
    exact withMoves_moveWords none moves
  | some fen =>
    obtain ⟨hfen, hafter⟩ := fenWords_append_moveWords (hposition fen rfl).1 moves
    change ofWords (fenWord :: (fen ++ moveWords moves)) = _
    rw [ofWords, if_neg (by decide), if_pos rfl, hfen, hafter]
    cases fen with
    | nil => rfl
    | cons word rest =>
      rw [if_neg (by simp), if_neg (by simp)]
      exact withMoves_moveWords _ moves

/-- **Descriptions are read as the lines that they describe**, however those were spelled: with
whatever blanks, with or without the word before the position, and with the three words of the grammar
anywhere behind the first one. The exception are lines that begin with the word for moves: they are
read as lines with an empty position, and their descriptions are refused. -/
theorem description_reads_back {text : String} {line : OpeningLine} (h : parse text = .ok line) :
    let first := (words text.toList).head?
    (parse line.describe = .ok line ↔ first ≠ some movesWord.toList) ∧
    (first = some movesWord.toList →
      line.fen = some "" ∧ parse line.describe = .error (.ofMessage "missing fen payload")) := by
  have hwords : ∀ word ∈ (words text.toList).map String.ofList, IsWord word.toList := by
    intro word hmem
    obtain ⟨letters, hletters, rfl⟩ := List.mem_map.mp hmem
    rw [String.toList_ofList]
    exact isWord_of_mem_words hletters
  obtain ⟨position, hspelled, hempty⟩ := isSpelled_of_ofWords hwords h
  have hfirst : ((words text.toList).map String.ofList).head? = some movesWord ↔
      (words text.toList).head? = some movesWord.toList := by
    rw [List.head?_map, Option.map_eq_some_iff]
    constructor
    · rintro ⟨letters, hletters, hmoves⟩
      rw [hletters, ← hmoves, String.toList_ofList]
    · intro hletters
      exact ⟨_, hletters, String.ofList_toList⟩
  have hparse : parse line.describe =
      if position = some [] then .error (.ofMessage "missing fen payload") else .ok line := by
    unfold parse
    rw [words_describe hspelled, List.map_map, ← ofWords_describedWords hspelled]
    congr 1
    exact (List.map_congr_left fun word _ => String.ofList_toList).trans (List.map_id _)
  intro first
  have hbegins : first = some movesWord.toList ↔ position = some [] := (hempty.trans hfirst).symm
  rw [hparse, ne_eq, hbegins]
  by_cases hposition : position = some []
  · rw [if_pos hposition]
    refine ⟨⟨(by rintro ⟨⟩), fun hnot => absurd hposition hnot⟩, fun _ => ⟨?_, rfl⟩⟩
    rw [hspelled.fen, hposition]
    rfl
  · rw [if_neg hposition]
    exact ⟨⟨fun _ => hposition, fun _ => rfl⟩, fun hsome => absurd hsome hposition⟩

/-- Three blanks of different kinds, a position that begins with the word for one, and moves that are
named like the words of the grammar. -/
theorem tangled_description_reads_back :
    parse "\x09fen  fen startpos\u3000moves moves fen " = .ok ⟨some "fen startpos", ["moves", "fen"]⟩ ∧
    describe ⟨some "fen startpos", ["moves", "fen"]⟩ = "fen fen startpos moves moves fen" ∧
    parse "fen fen startpos moves moves fen" = .ok ⟨some "fen startpos", ["moves", "fen"]⟩ := by
  have hparse : parse "\x09fen  fen startpos\u3000moves moves fen " =
    .ok ⟨some "fen startpos", ["moves", "fen"]⟩ := rfl
  have hdescribe : describe ⟨some "fen startpos", ["moves", "fen"]⟩ =
    "fen fen startpos moves moves fen" := rfl
  obtain ⟨hagain, -⟩ := description_reads_back hparse
  rw [hdescribe] at hagain
  exact ⟨hparse, hdescribe, hagain.mpr (by decide)⟩

/-- A line of moves without a position is read, but its description is not. -/
theorem empty_position_description_refused :
    parse "moves b2" = .ok ⟨some "", ["b2"]⟩ ∧
    describe ⟨some "", ["b2"]⟩ = "fen  moves b2" ∧
    parse "fen  moves b2" = .error (.ofMessage "missing fen payload") := ⟨rfl, rfl, rfl⟩

end SelfPlay.OpeningLine
