import Mathlib.Data.List.Find
import Mathlib.Tactic.Ring
import SelfPlay.Proofs.Match.Thresholds

/-!
# Verdicts by outcome probabilities

The odds of a valid evaluation are probabilities, so at most one result is more probable than a
limit of one half. The verdict names that result, in whatever order the results are looked at, and
it is the same when the other side reports the evaluation as it sees it.

Below one half two results may be above the limit. The two sides then disagree just if these are
the two wins, of which each side looks at its own first.

All of this is about exact numbers.
-/

namespace SelfPlay

open SelfPlay.Numeric

/-- The probability of a result, by the odds that `side` gives. -/
def Odds.chance (odds : Odds Rat) (side : Color) : GameResult → Rat
  | .won winner => if winner = side then odds.win else odds.loss
  | .draw => odds.draw
  | .undecided => 0

namespace Odds

variable {odds : Odds Rat} {side : Color}

@[simp] theorem chance_won (odds : Odds Rat) (side : Color) :
    odds.chance side (.won side) = odds.win := if_pos rfl

@[simp] theorem chance_lost (odds : Odds Rat) (side : Color) :
    odds.chance side (.lost side) = odds.loss := by
  cases side <;> rfl

@[simp] theorem chance_draw (odds : Odds Rat) (side : Color) :
    odds.chance side .draw = odds.draw := rfl

/-- Two results share what is certain. -/
theorem AreProbabilities.chance_add_le (h : odds.AreProbabilities) (side : Color)
    {result other : GameResult} (hne : result ≠ other) :
    odds.chance side result + odds.chance side other ≤ 1 := by
  obtain ⟨hwin, hdraw, hloss, htotal⟩ := h
  cases side <;> rcases result with _ | ⟨⟨⟩⟩ | _ <;> rcases other with _ | ⟨⟨⟩⟩ | _ <;>
    first
    | exact absurd rfl hne
    | (simp only [chance, reduceCtorEq, if_true, if_false]; linarith)

/-- Above one half there is one result at most. -/
theorem AreProbabilities.eq_of_lt (h : odds.AreProbabilities) {limit : Rat}
    (hlimit : 1 / 2 ≤ limit) {result other : GameResult}
    (hresult : limit < odds.chance side result) (hother : limit < odds.chance side other) :
    result = other := by
  by_contra hne
  have hshare := h.chance_add_le side hne
  linarith

end Odds

namespace BestEval

variable {eval other : BestEval Rat}

theorem odds_win_sub_loss (eval : BestEval Rat) : eval.odds.win - eval.odds.loss = eval.wl := by
  rw [odds_win, odds_loss, sub_sub_cancel]

/-- What the one side calls winning the other calls losing. -/
structure IsReverseOf (other eval : BestEval Rat) : Prop where
  wl : other.wl = -eval.wl
  d : other.d = eval.d

theorem IsReverseOf.odds (h : other.IsReverseOf eval) :
    other.odds = ⟨eval.odds.loss, eval.odds.draw, eval.odds.win⟩ := by
  have hwin : other.odds.win = eval.odds.loss := by
    rw [odds_win, odds_loss, h.wl, h.d]
    ring
  have hloss : other.odds.loss = eval.odds.win := by
    rw [odds_win, odds_loss, h.wl, h.d]
    ring
  rw [← hwin, ← hloss, odds_draw, ← h.d]
  rfl

/-- A result is as probable for the one side as for the other. -/
theorem IsReverseOf.chance (h : other.IsReverseOf eval) (side : Color) (result : GameResult) :
    other.odds.chance side.opponent result = eval.odds.chance side result := by
  rw [h.odds]
  cases side <;> rcases result with _ | ⟨⟨⟩⟩ | _ <;> rfl

end BestEval

section

variable {limit : Rat} {side : Color} {odds : Odds Rat}

/-- A side looks at its win first, then at its loss and at the draw. -/
def resultsFor (side : Color) : List GameResult :=
  [.won side, .lost side, .draw]

theorem resultsFor_perm (side side' : Color) : (resultsFor side).Perm (resultsFor side') := by
  cases side <;> cases side' <;> decide

theorem mem_resultsFor {result : GameResult} (h : result ≠ .undecided) :
    result ∈ resultsFor side := by
  cases side <;> rcases result with _ | ⟨⟨⟩⟩ | _ <;> first | exact absurd rfl h | decide

/-- The verdict is the first result that is more probable than the limit. -/
theorem verdictByOdds_eq_find (limit : Rat) (side : Color) (odds : Odds Rat) :
    verdictByOdds limit side odds =
      (resultsFor side).find? fun result => limit < odds.chance side result := by
  unfold verdictByOdds resultsFor
  simp only [Scalar.lt_rat, List.find?_cons, List.find?_nil, Odds.chance_won, Odds.chance_lost,
    Odds.chance_draw]
  by_cases hwin : limit < odds.win
  · simp [hwin]
  · by_cases hloss : limit < odds.loss
    · simp [hwin, hloss]
    · by_cases hdraw : limit < odds.draw
      · simp [hwin, hloss, hdraw]
      · simp [hwin, hloss, hdraw]

/-- Any order in which to look gives the same verdict if no two results are above the limit. -/
theorem verdictByOdds_eq_find_perm (hodds : odds.AreProbabilities) (hlimit : 1 / 2 ≤ limit)
    {order : List GameResult} (horder : order.Perm (resultsFor side)) :
    verdictByOdds limit side odds = order.find? fun result => limit < odds.chance side result := by
  rw [verdictByOdds_eq_find]
  refine (List.find?_eq_find?_of_perm horder fun result hresult other hother => ?_).symm
  exact hodds.eq_of_lt hlimit (of_decide_eq_true hresult.2) (of_decide_eq_true hother.2)

/-- The verdict is the result that is more probable than the limit. -/
theorem verdictByOdds_eq_some_iff (hodds : odds.AreProbabilities) (hlimit : 1 / 2 ≤ limit)
    {result : GameResult} :
    verdictByOdds limit side odds = some result ↔ limit < odds.chance side result := by
  have hfound {found : GameResult} (h : verdictByOdds limit side odds = some found) :
      limit < odds.chance side found := by
    rw [verdictByOdds_eq_find] at h
    have habove := List.find?_some h
    exact of_decide_eq_true habove
  refine ⟨hfound, fun habove => ?_⟩
  cases hverdict : verdictByOdds limit side odds with
  | some found => rw [hodds.eq_of_lt hlimit (hfound hverdict) habove]
  | none =>
    have hmem : result ∈ resultsFor side := by
      apply mem_resultsFor
      rintro rfl
      have hnone : limit < 0 := habove
      linarith
    rw [verdictByOdds_eq_find, List.find?_eq_none] at hverdict
    exact absurd (decide_eq_true habove) (hverdict result hmem)

/-- The sides disagree just if either of them wins by what it looks at first. -/
theorem verdictByOdds_agree_iff {eval other : BestEval Rat} (hreverse : other.IsReverseOf eval) :
    verdictByOdds limit side eval.odds = verdictByOdds limit side.opponent other.odds ↔
      ¬(limit < eval.odds.win ∧ limit < eval.odds.loss) := by
  have hside : GameResult.won side ≠ .won side.opponent := by cases side <;> decide
  have hback : GameResult.lost side.opponent = .won side := by cases side <;> rfl
  have hlost : GameResult.lost side = .won side.opponent := rfl
  unfold verdictByOdds
  rw [hreverse.odds, hback, hlost]
  simp only [Scalar.lt_rat, decide_eq_true_eq]
  by_cases hwin : limit < eval.odds.win
  · by_cases hloss : limit < eval.odds.loss
    · simp [hwin, hloss, hside]
    · simp [hwin, hloss]
  · by_cases hloss : limit < eval.odds.loss
    · simp [hwin, hloss]
    · simp [hwin, hloss]

end

/-- What a probability has to exceed, by the percentage at which a side gives up. -/
def oddsLimit (percentage : Rat) : Rat := 1 - percentage / 100

theorem half_le_oddsLimit {percentage : Rat} (h : percentage ≤ 50) :
    1 / 2 ≤ oddsLimit percentage := by
  unfold oddsLimit
  linarith

/-- From the earliest move on there is a verdict by odds. -/
theorem SelfPlayOptions.verdict_of_late {options : SelfPlayOptions Rat} {number : Nat}
    (hstyle : options.resignWdlStyle = true) (hlate : options.resignEarliestMove ≤ number)
    (side : Color) (eval : BestEval Rat) :
    options.verdict side number eval =
      verdictByOdds (oddsLimit options.resignPercentage) side eval.odds := by
  unfold verdict
  rw [if_neg (Nat.not_lt.mpr hlate), if_pos hstyle]
  rfl

variable {ω P M : Type}

/-- Both sides may give the game up, by odds and at the same percentage. -/
structure Game.IsJudgedByOdds (game : Game ω P M Rat) (percentage : Rat) : Prop where
  style : ∀ side, (game.options.get side).resignWdlStyle = true
  percentage : ∀ side, (game.options.get side).resignPercentage = percentage
  late : ∀ side, (game.options.get side).resignEarliestMove ≤ game.moveNumber side

theorem Game.IsJudgedByOdds.verdict {game : Game ω P M Rat} {percentage : Rat}
    (h : game.IsJudgedByOdds percentage) (side : Color) (eval : BestEval Rat) :
    game.verdict side eval = verdictByOdds (oddsLimit percentage) side eval.odds := by
  rw [← h.percentage side]
  exact SelfPlayOptions.verdict_of_late (h.style side) (h.late side) side eval

/-- **Both sides come to the same verdict by odds.** A valid evaluation is split into three
probabilities. With a percentage of at most fifty no two of them are above the limit, so the order
in which they are looked at does not matter. In a game in which both sides may give up, the verdict
on an evaluation is then that of the opponent on the reverse evaluation: the result whose
probability is above the limit. With higher percentages the two verdicts differ just if both wins
are above the limit. -/
theorem odds_verdict_is_common {eval : BestEval Rat} (hvalid : eval.IsValid) :
    ((0 ≤ eval.odds.win ∧ eval.odds.win ≤ 1) ∧ (0 ≤ eval.odds.draw ∧ eval.odds.draw ≤ 1) ∧
      (0 ≤ eval.odds.loss ∧ eval.odds.loss ≤ 1) ∧
      eval.odds.win + eval.odds.draw + eval.odds.loss = 1 ∧
      eval.odds.win - eval.odds.loss = eval.wl) ∧
    (∀ options : SelfPlayOptions Rat, options.resignPercentage ≤ 50 →
      ¬(oddsLimit options.resignPercentage < eval.odds.win ∧
        oddsLimit options.resignPercentage < eval.odds.loss) ∧
      ¬(oddsLimit options.resignPercentage < eval.odds.win ∧
        oddsLimit options.resignPercentage < eval.odds.draw) ∧
      ¬(oddsLimit options.resignPercentage < eval.odds.loss ∧
        oddsLimit options.resignPercentage < eval.odds.draw) ∧
      ∀ (side : Color) (number : Nat) (order : List GameResult),
        options.resignWdlStyle = true → options.resignEarliestMove ≤ number →
        order.Perm [.won side, .lost side, .draw] →
        options.verdict side number eval = order.find? fun result =>
          oddsLimit options.resignPercentage < eval.odds.chance side result) ∧
    ∀ (game : Game ω P M Rat) (percentage : Rat) (other : BestEval Rat) (side : Color),
      game.IsJudgedByOdds percentage → other.IsReverseOf eval →
      (percentage ≤ 50 →
        game.verdict side eval = game.verdict side.opponent other ∧
        ∀ result, game.verdict side eval = some result ↔
          oddsLimit percentage < eval.odds.chance side result) ∧
      (game.verdict side eval = game.verdict side.opponent other ↔
        ¬(oddsLimit percentage < eval.odds.win ∧ oddsLimit percentage < eval.odds.loss)) := by
  have hodds := hvalid.areProbabilities
  obtain ⟨hwin, hloss, hdraw⟩ := hodds.le_one
  refine ⟨⟨⟨hodds.win, hwin⟩, ⟨hodds.draw, hdraw⟩, ⟨hodds.loss, hloss⟩, hodds.total,
    eval.odds_win_sub_loss⟩, fun options hpercentage => ?_, ?_⟩
  · have hlimit := half_le_oddsLimit hpercentage
    have hexclusive (result other : GameResult) (hne : result ≠ other) :
        ¬(oddsLimit options.resignPercentage < eval.odds.chance .white result ∧
          oddsLimit options.resignPercentage < eval.odds.chance .white other) :=
      fun habove => hne (hodds.eq_of_lt hlimit habove.1 habove.2)
    refine ⟨hexclusive (.won .white) (.won .black) (by decide),
      hexclusive (.won .white) .draw (by decide), hexclusive (.won .black) .draw (by decide), ?_⟩
    intro side number order hstyle hlate horder
    rw [SelfPlayOptions.verdict_of_late hstyle hlate]
    exact verdictByOdds_eq_find_perm hodds hlimit horder
  · intro game percentage other side hjudged hreverse
    rw [hjudged.verdict, hjudged.verdict]
    refine ⟨fun hpercentage => ?_, verdictByOdds_agree_iff hreverse⟩
    have hlimit := half_le_oddsLimit hpercentage
    refine ⟨?_, fun result => verdictByOdds_eq_some_iff hodds hlimit⟩
    rw [verdictByOdds_eq_find_perm hodds hlimit (resultsFor_perm side.opponent side),
      verdictByOdds_eq_find]
    simp only [hreverse.chance]

namespace TicTacToe

/-- A game at its beginning that both sides may give up by odds. -/
def oddsGame (percentage : Rat) : Game Unit Position Square Rat :=
  let options : SelfPlayOptions Rat :=
    { (.default : SelfPlayOptions Rat) with resignWdlStyle := true, resignPercentage := percentage }
  { exactGame ⟨percentage, percentage⟩ with options := ⟨options, options⟩ }

theorem oddsGame_isJudgedByOdds (percentage : Rat) :
    (oddsGame percentage).IsJudgedByOdds percentage := by
  refine ⟨fun side => ?_, fun side => ?_, fun side => ?_⟩
  · cases side <;> rfl
  · cases side <;> rfl
  · cases side <;> exact Nat.zero_le _

end TicTacToe

open TicTacToe in
/-- At forty percent both sides see that white has won, at seventy percent each of them takes an
even game for its own win. -/
theorem odds_verdict_at_forty_percent :
    (oddsGame 40).verdict .white ⟨3 / 5, 3 / 10, 0⟩ = some (.won .white) ∧
    (oddsGame 40).verdict .black ⟨-3 / 5, 3 / 10, 5⟩ = some (.won .white) ∧
    (oddsGame 70).verdict .white ⟨0, 1 / 5, 0⟩ ≠ (oddsGame 70).verdict .black ⟨0, 1 / 5, 0⟩ := by
  have hwl : |(3 / 5 : Rat)| = 3 / 5 := abs_of_pos (by norm_num)
  have hclear : (⟨3 / 5, 3 / 10, 0⟩ : BestEval Rat).IsValid :=
    ⟨by rw [hwl]; norm_num, by norm_num, by rw [hwl]; norm_num⟩
  have heven : (⟨0, 1 / 5, 0⟩ : BestEval Rat).IsValid :=
    ⟨by rw [abs_zero]; norm_num, by norm_num, by rw [abs_zero]; norm_num⟩
  obtain ⟨-, -, hforty⟩ := @odds_verdict_is_common Unit Position Square _ hclear
  obtain ⟨-, -, hseventy⟩ := @odds_verdict_is_common Unit Position Square _ heven
  obtain ⟨hcommon, -⟩ := hforty (oddsGame 40) 40 ⟨-3 / 5, 3 / 10, 5⟩ .white
    (oddsGame_isJudgedByOdds 40) ⟨by norm_num, rfl⟩
  obtain ⟨hsame, hverdict⟩ := hcommon (by norm_num)
  obtain ⟨-, hagree⟩ := hseventy (oddsGame 70) 70 ⟨0, 1 / 5, 0⟩ .white
    (oddsGame_isJudgedByOdds 70) ⟨neg_zero.symm, rfl⟩
  have hwhite := (hverdict (.won .white)).mpr (by decide +kernel)
  refine ⟨hwhite, hsame.symm.trans hwhite, fun heq => ?_⟩
  exact hagree.mp heq (by decide +kernel)

end SelfPlay
