import SelfPlay.Proofs.TicTacToe.LegalPlay

/-!
# Who has a line

A move adds a stone of the side that makes it and leaves the other side's stones alone, so from an
undecided position only that side can complete a line, and with it that side has won.
-/

namespace SelfPlay.TicTacToe

namespace Position

variable {position : Position} {side : Color} {move : Square}

/-- The stones of one side. -/
def stonesOf (position : Position) : Color → Stones
  | .white => position.white
  | .black => position.black

@[simp] theorem sideToMove_play (position : Position) (move : Square) :
    (position.play move).sideToMove = position.sideToMove.opponent := by
  have hply : (position.play move).ply = position.ply + 1 := by
    unfold play put
    split <;> rfl
  rw [sideToMove, hply, Color.ofPly_succ]
  rfl

/-- A move leaves the stones of the side that waits as they are. -/
@[simp] theorem stonesOf_play_opponent (position : Position) (move : Square) :
    (position.play move).stonesOf position.sideToMove.opponent =
      position.stonesOf position.sideToMove.opponent := by
  unfold play put
  cases position.sideToMove <;> rfl

/-- Where a side has no line, the other side has won or nobody has. -/
theorem result_of_not_hasLine (h : (position.stonesOf side.opponent).hasLine = false) :
    position.result =
      if (position.stonesOf side).hasLine then .won side
      else if position.occupied = Stones.full then .draw else .undecided := by
  unfold result
  cases side with
  | white =>
    have hblack : position.black.hasLine = false := h
    rw [hblack]
    rfl
  | black =>
    have hwhite : position.white.hasLine = false := h
    rw [hwhite]
    rfl

/-- Nobody has a line in an undecided position. -/
theorem not_hasLine_of_undecided (h : position.result = .undecided) (side : Color) :
    (position.stonesOf side).hasLine = false := by
  unfold result at h
  split at h
  · cases h
  · rename_i hwhite
    split at h
    · cases h
    · rename_i hblack
      cases side with
      | white => exact Bool.eq_false_iff.mpr hwhite
      | black => exact Bool.eq_false_iff.mpr hblack

theorem hasLine_of_result_eq_won (h : position.result = .won side) :
    (position.stonesOf side).hasLine = true := by
  unfold Position.result at h
  split at h
  · rename_i hline
    cases h
    exact hline
  · split at h
    · rename_i hline
      cases h
      exact hline
    · split at h <;> cases h

/-- **Only the side that moves completes a line**, and with it wins. -/
theorem result_play (h : position.result = .undecided) (move : Square) :
    (position.play move).result =
      if ((position.play move).stonesOf position.sideToMove).hasLine then
        .won position.sideToMove
      else if (position.play move).occupied = Stones.full then .draw else .undecided := by
  refine result_of_not_hasLine ?_
  rw [stonesOf_play_opponent]
  exact not_hasLine_of_undecided h _

/-- The side that waits has no line after the move either. -/
theorem eq_sideToMove_of_hasLine_play (h : position.result = .undecided)
    (hline : ((position.play move).stonesOf side).hasLine = true) : side = position.sideToMove := by
  rcases Color.eq_or_eq_opponent side position.sideToMove with hmover | hwaits
  · exact hmover
  · rw [hwaits, stonesOf_play_opponent, not_hasLine_of_undecided h] at hline
    cases hline

theorem result_play_eq_won_iff (h : position.result = .undecided) {move : Square} :
    (position.play move).result = .won side ↔
      side = position.sideToMove ∧ ((position.play move).stonesOf side).hasLine = true := by
  constructor
  · intro hwon
    have hline := hasLine_of_result_eq_won hwon
    exact ⟨eq_sideToMove_of_hasLine_play h hline, hline⟩
  · rintro ⟨rfl, hline⟩
    rw [result_play h, if_pos hline]

/-- The move completes a line of the side that makes it. -/
def CompletesLine (position : Position) (move : Square) : Prop :=
  ((position.play move).stonesOf position.sideToMove).hasLine = true

/-- A game that a move decides for a side is decided for the one that has moved, by a line. -/
theorem exists_won_play_iff (h : position.result = .undecided) :
    (∃ side, (position.play move).result = .won side) ↔ position.CompletesLine move := by
  constructor
  · rintro ⟨side, hwon⟩
    obtain ⟨rfl, hline⟩ := (result_play_eq_won_iff h).mp hwon
    exact hline
  · intro hline
    exact ⟨position.sideToMove, (result_play_eq_won_iff h).mpr ⟨rfl, hline⟩⟩

end Position

end SelfPlay.TicTacToe
