import SelfPlay.Match.EvalMarks
import SelfPlay.Match.Resignation
import SelfPlay.Proofs.Numeric.Order

/-!
# What the marks of a game tell about resignation

An evaluation that would end a game by resignation leaves its trace in the marks, and later
evaluations do not cover it. So if at the end of a game the worst evaluation has stayed within the
limit, resignation could only have given the result that the game had anyway.
-/

namespace SelfPlay

open SelfPlay.Numeric

namespace EvalMarks

section

variable {R : Type} [Scalar R]

theorem greatestWin_update (marks : EvalMarks R) (side winner : Color) (eval : BestEval R) :
    (marks.update side eval).greatestWin.get winner =
      Scalar.max (marks.greatestWin.get winner)
        (if winner = side then eval.odds.win else eval.odds.loss) := by
  cases side <;> cases winner <;> rfl

theorem greatestDraw_update (marks : EvalMarks R) (side : Color) (eval : BestEval R) :
    (marks.update side eval).greatestDraw = Scalar.max marks.greatestDraw eval.odds.draw := rfl

theorem leastWinRate_update (marks : EvalMarks R) (side : Color) (eval : BestEval R) :
    (marks.update side eval).leastWinRate.get side =
      Scalar.min (marks.leastWinRate.get side) eval.winRate :=
  PerSide.get_set_self ..

theorem leastWinRate_update_of_ne (marks : EvalMarks R) {side other : Color} (h : other ≠ side)
    (eval : BestEval R) :
    (marks.update side eval).leastWinRate.get other = marks.leastWinRate.get other :=
  PerSide.get_set_of_ne _ _ h

/-- By odds the winner's worst evaluation is that of a draw or of a loss. -/
theorem worst_wdl_won (marks : EvalMarks R) (winner : Color) :
    marks.worst true (.won winner) =
      Scalar.max marks.greatestDraw (marks.greatestWin.get winner.opponent) := rfl

theorem worst_wdl_draw (marks : EvalMarks R) :
    marks.worst true .draw = Scalar.max marks.greatestWin.black marks.greatestWin.white := rfl

theorem worst_rate_won (marks : EvalMarks R) (winner : Color) :
    marks.worst false (.won winner) = marks.leastWinRate.get winner := rfl

theorem worst_rate_draw (marks : EvalMarks R) :
    marks.worst false .draw = Scalar.min marks.leastWinRate.white marks.leastWinRate.black := rfl

end

/-- The marks hold an evaluation that passed the limit for giving up a game with the result. -/
def Tell (marks : EvalMarks Binary32) (fraction : Binary32) : Bool → GameResult → Prop
  | true, .won winner => (Scalar.one - fraction).lt (marks.greatestWin.get winner) = true
  | true, .draw => (Scalar.one - fraction).lt marks.greatestDraw = true
  | false, .won winner => (marks.leastWinRate.get winner.opponent).lt fraction = true
  | _, _ => False

/-- The worst evaluation of a game has stayed within the limit for giving it up. -/
def Within (worst fraction : Binary32) : Bool → Prop
  | true => worst.le (Scalar.one - fraction) = true
  | false => fraction.le worst = true

variable {marks : EvalMarks Binary32} {fraction : Binary32}

/-- A trace is never covered. -/
theorem tell_update {wdlStyle : Bool} {result : GameResult}
    (h : marks.Tell fraction wdlStyle result) (side : Color) (eval : BestEval Binary32) :
    (marks.update side eval).Tell fraction wdlStyle result := by
  cases wdlStyle with
  | true =>
    cases result with
    | undecided => exact h
    | draw =>
      simp only [Tell] at h ⊢
      rw [greatestDraw_update]
      exact Scalar.lt_max_left h
    | won winner =>
      simp only [Tell] at h ⊢
      rw [greatestWin_update]
      exact Scalar.lt_max_left h
  | false =>
    cases result with
    | undecided => exact h
    | draw => exact h
    | won winner =>
      simp only [Tell] at h ⊢
      by_cases hside : winner.opponent = side
      · rw [hside] at h ⊢
        rw [leastWinRate_update]
        exact Scalar.min_lt_left h
      · rw [leastWinRate_update_of_ne marks hside]
        exact h

end EvalMarks

/-- A verdict by odds is that of the probability that has passed the limit. -/
theorem verdictByOdds_cases {limit : Binary32} {side : Color} {odds : Odds Binary32}
    {result : GameResult} (h : verdictByOdds limit side odds = some result) :
    (result = .won side ∧ limit.lt odds.win = true) ∨
    (result = .won side.opponent ∧ limit.lt odds.loss = true) ∨
    (result = .draw ∧ limit.lt odds.draw = true) := by
  unfold verdictByOdds at h
  split at h
  · rename_i hwin
    exact Or.inl ⟨(Option.some.inj h).symm, hwin⟩
  · split at h
    · rename_i hloss
      exact Or.inr (Or.inl ⟨(Option.some.inj h).symm, hloss⟩)
    · split at h
      · rename_i hdraw
        exact Or.inr (Or.inr ⟨(Option.some.inj h).symm, hdraw⟩)
      · cases h

namespace EvalMarks

variable {marks : EvalMarks Binary32} {fraction : Binary32}

/-- An evaluation that would end the game leaves its trace. -/
theorem tell_of_verdict {options : SelfPlayOptions Binary32} {side : Color} {moveNumber : Nat}
    {eval : BestEval Binary32} {result : GameResult}
    (h : options.verdict side moveNumber eval = some result) (marks : EvalMarks Binary32) :
    (marks.update side eval).Tell options.resignFraction options.resignWdlStyle result := by
  unfold SelfPlayOptions.verdict at h
  split at h
  · cases h
  · split at h
    · rename_i hstyle
      rw [hstyle]
      rcases verdictByOdds_cases h with ⟨rfl, hwin⟩ | ⟨rfl, hloss⟩ | ⟨rfl, hdraw⟩
      · simp only [Tell]
        rw [greatestWin_update, if_pos rfl]
        exact Scalar.lt_max_right hwin
      · simp only [Tell]
        rw [greatestWin_update, if_neg (Color.opponent_ne side)]
        exact Scalar.lt_max_right hloss
      · simp only [Tell]
        rw [greatestDraw_update]
        exact Scalar.lt_max_right hdraw
    · rename_i hstyle
      rw [Bool.eq_false_iff.mpr hstyle]
      split at h
      · rename_i hrate
        obtain rfl := Option.some.inj h
        simp only [GameResult.lost, Tell]
        rw [Color.opponent_opponent, leastWinRate_update]
        exact Scalar.min_lt_right hrate
      · cases h

/-- Marks within the limit tell of no result but that of the game. -/
theorem eq_of_tell {wdlStyle : Bool} {result told : GameResult} (hover : result.isTerminal = true)
    (hwithin : Within (marks.worst wdlStyle result) fraction wdlStyle)
    (h : marks.Tell fraction wdlStyle told) : told = result := by
  cases wdlStyle with
  | true =>
    have hlimit := Binary32.not_lt_of_le hwithin
    cases result with
    | undecided => cases hover
    | draw =>
      rw [worst_wdl_draw] at hlimit
      cases told with
      | undecided => cases h
      | draw => rfl
      | won winner =>
        simp only [Tell] at h
        cases winner with
        | white => exact absurd (Scalar.lt_max_right h) hlimit
        | black => exact absurd (Scalar.lt_max_left h) hlimit
    | won winner =>
      rw [worst_wdl_won] at hlimit
      cases told with
      | undecided => cases h
      | draw =>
        simp only [Tell] at h
        exact absurd (Scalar.lt_max_left h) hlimit
      | won other =>
        rcases Color.eq_or_eq_opponent other winner with rfl | rfl
        · rfl
        · simp only [Tell] at h
          exact absurd (Scalar.lt_max_right h) hlimit
  | false =>
    have hlimit := Binary32.not_lt_of_le hwithin
    cases told with
    | undecided => cases h
    | draw => cases h
    | won other =>
      simp only [Tell] at h
      cases result with
      | undecided => cases hover
      | draw =>
        rw [worst_rate_draw] at hlimit
        cases other with
        | white => exact absurd (Scalar.min_lt_right h) hlimit
        | black => exact absurd (Scalar.min_lt_left h) hlimit
      | won winner =>
        rw [worst_rate_won] at hlimit
        rcases Color.eq_or_eq_opponent other winner with rfl | rfl
        · rfl
        · rw [Color.opponent_opponent] at h
          exact absurd h hlimit

end EvalMarks

end SelfPlay
