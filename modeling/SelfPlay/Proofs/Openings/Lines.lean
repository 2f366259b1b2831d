import SelfPlay.Openings.File

/-!
# Openings that were read

What it takes to build the opening of a line, and that a session always has an opening to begin
with. Moves that are written by name are read again as they were.
-/

namespace SelfPlay

namespace OpeningLine

variable {M : Type} {read : String → Except Error M}

theorem readMoves_cons_eq_ok_iff {text : String} {rest : List String} {moves : List M} :
    readMoves read (text :: rest) = .ok moves ↔
      ∃ move others, read text = .ok move ∧ readMoves read rest = .ok others ∧
        moves = move :: others := by
  rw [readMoves]
  cases read text with
  | error error => simp
  | ok move =>
    cases readMoves read rest with
    | error fault => simp [Except.map]
    | ok others => simp [Except.map, eq_comm]

theorem length_of_readMoves {texts : List String} {moves : List M}
    (h : readMoves read texts = .ok moves) : moves.length = texts.length := by
  induction texts generalizing moves with
  | nil =>
    cases h
    rfl
  | cons text rest ih =>
    obtain ⟨move, others, -, hrest, rfl⟩ := readMoves_cons_eq_ok_iff.mp h
    rw [List.length_cons, List.length_cons, ih hrest]

/-- Moves are read as they were if each one is. -/
theorem readMoves_map {text : M → String} (h : ∀ move, read (text move) = .ok move)
    (moves : List M) : readMoves read (moves.map text) = .ok moves := by
  induction moves with
  | nil => rfl
  | cons move rest ih => exact readMoves_cons_eq_ok_iff.mpr ⟨move, rest, h move, ih, rfl⟩

/-- The moves of a line must be readable and legal. -/
theorem build_eq_ok_iff {P : Type} [BoardMove M] [DecidableEq M] [Board P M] {start : String}
    {line : OpeningLine} {opening : Opening M} :
    line.build P read start = .ok opening ↔
      opening.fen = line.fen.getD start ∧ readMoves read line.moves = .ok opening.moves ∧
        ∃ record : GameRecord P M, GameRecord.ofOpening opening.fen opening.moves = .ok record := by
  obtain ⟨fen, moves⟩ := opening
  unfold build
  cases hmoves : readMoves read line.moves with
  | error fault => simp
  | ok read =>
    cases hrecord : (GameRecord.ofOpening (line.fen.getD start) read :
        Except Error (GameRecord P M)) with
    | error error =>
      simp only [hrecord]
      constructor
      · rintro ⟨⟩
      · rintro ⟨rfl, hsame, record, hplayed⟩
        cases hsame
        cases hrecord.symm.trans hplayed
    | ok record =>
      simp only [hrecord]
      constructor
      · intro h
        cases h
        exact ⟨rfl, rfl, record, hrecord⟩
      · rintro ⟨rfl, hsame, -⟩
        cases hsame
        rfl

end OpeningLine

/-- There is an opening to begin with. -/
theorem Openings.ne_nil_of_load {source : FileSource} {file line : Option String}
    {lines : List OpeningLine} (h : load source file line = .ok lines) : lines ≠ [] := by
  unfold load at h
  split at h
  · cases h
  · split at h
    · cases h
    · split at h
      · cases h
      · cases h
      · rename_i hopenings _
        cases h
        exact hopenings
  · rename_i text
    cases hline : OpeningLine.parse text with
    | error fault =>
      rw [hline] at h
      cases h
    | ok opening =>
      rw [hline] at h
      cases h
      exact List.cons_ne_nil _ _
  · cases h
    exact List.cons_ne_nil _ _

end SelfPlay
