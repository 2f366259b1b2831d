import SelfPlay.Proofs.Match.Bookkeeping
import SelfPlay.Proofs.TicTacToe.Text

/-!
# Histories of legal play

A stone may be put on a taken square, and a game that is over may be played on, as long as nobody
checks. A history of legal play is one where that has not happened: it begins with a position that
can be written down, and each move was a legal one.
-/

namespace SelfPlay.TicTacToe

/-- The positions of a game in which only legal moves were made. -/
structure IsLegalPlay (history : History Position) : Prop where
  /-- Each position, from the current one back, comes from the one before it by a legal move. -/
  steps : history.positions.IsChain fun after before =>
    ∃ move ∈ before.legalMoves, after = before.play move
  /-- No square is taken twice, and there are as many stones as moves. -/
  regular : ∀ position ∈ history.positions, position.IsRegular
  /-- No move was made in a position that the rules had decided. -/
  undecided : ∀ position ∈ history.earlier, position.result = .undecided

theorem IsLegalPlay.append {history : History Position} (h : IsLegalPlay history) {move : Square}
    (hmove : move ∈ history.last.legalMoves) : IsLegalPlay (history.append move) where
  steps := .cons_cons ⟨move, hmove, rfl⟩ h.steps
  regular := by
    intro position hmem
    rcases List.mem_cons.mp hmem with rfl | hearlier
    · exact (h.regular _ List.mem_cons_self).play hmove
    · exact h.regular position hearlier
  undecided := by
    intro position hmem
    rcases List.mem_cons.mp hmem with rfl | hearlier
    · exact (Position.mem_legalMoves.mp hmove).1
    · exact h.undecided position hearlier

/-- Openings are legal play. -/
theorem isLegalPlay_of_ofOpening {fen : String} {moves : List Square}
    {record : GameRecord Position Square} (h : GameRecord.ofOpening fen moves = .ok record) :
    IsLegalPlay record.history := by
  refine GameRecord.keeps_of_ofOpening (Q := fun record => IsLegalPlay record.history) ?_
    (fun hplay hmove => hplay.append hmove) h
  intro fen start hstart
  refine ⟨.singleton start, ?_, ?_⟩
  · intro position hmem
    obtain rfl := List.mem_singleton.mp hmem
    exact Position.isRegular_of_ofFen hstart
  · rintro position ⟨⟩

end SelfPlay.TicTacToe
