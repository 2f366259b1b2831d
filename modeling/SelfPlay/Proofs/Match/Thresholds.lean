import Mathlib.Algebra.Order.Field.Rat
import Mathlib.Tactic.Linarith
import Mathlib.Tactic.Ring
import SelfPlay.Proofs.Match.Notation
import SelfPlay.Proofs.Match.Resumption

/-!
# Resignation thresholds

An evaluation gives a game up when it passes a threshold, so raising the thresholds gives games up
no later. As long as neither of two games is given up they make the same moves, and the one with the
raised thresholds stops at the same move as the other or at an earlier one. At thresholds of zero no
valid evaluation passes, and allowing sides to resign changes nothing.

All of this is about exact numbers.
-/

namespace SelfPlay

open SelfPlay.Numeric

/-- The odds are those of three outcomes that exclude each other. -/
structure Odds.AreProbabilities (odds : Odds Rat) : Prop where
  win : 0 ≤ odds.win
  draw : 0 ≤ odds.draw
  loss : 0 ≤ odds.loss
  total : odds.win + odds.draw + odds.loss = 1

/-- No outcome is more probable than certain. -/
theorem Odds.AreProbabilities.le_one {odds : Odds Rat} (h : odds.AreProbabilities) :
    odds.win ≤ 1 ∧ odds.loss ≤ 1 ∧ odds.draw ≤ 1 := by
  obtain ⟨hwin, hdraw, hloss, htotal⟩ := h
  refine ⟨?_, ?_, ?_⟩ <;> linarith

namespace BestEval

theorem odds_win (eval : BestEval Rat) : eval.odds.win = (eval.wl + 1 - eval.d) / 2 := rfl

theorem odds_draw (eval : BestEval Rat) : eval.odds.draw = eval.d := rfl

theorem odds_loss (eval : BestEval Rat) :
    eval.odds.loss = (eval.wl + 1 - eval.d) / 2 - eval.wl := rfl

/-- An evaluation made of probabilities. -/
structure IsValid (eval : BestEval Rat) : Prop where
  wl : |eval.wl| ≤ 1
  draw_nonneg : 0 ≤ eval.d
  draw_le : eval.d ≤ 1 - |eval.wl|

theorem IsValid.areProbabilities {eval : BestEval Rat} (h : eval.IsValid) :
    eval.odds.AreProbabilities := by
  have hbelow := neg_abs_le eval.wl
  have habove := le_abs_self eval.wl
  have hrest := h.draw_le
  refine ⟨?_, h.draw_nonneg, ?_, ?_⟩
  · rw [odds_win]
    linarith
  · rw [odds_loss]
    linarith
  · rw [odds_win, odds_draw, odds_loss]
    ring

theorem IsValid.winRate_nonneg {eval : BestEval Rat} (h : eval.IsValid) : 0 ≤ eval.winRate := by
  have hrate : eval.winRate = (eval.wl + 1) / 2 := rfl
  obtain ⟨hlow, -⟩ := abs_le.mp h.wl
  linarith

end BestEval

namespace SelfPlayOptions

variable {options : SelfPlayOptions Rat} {side : Color} {number : Nat} {eval : BestEval Rat}

/-- The same options with another threshold, in percent. -/
def withThreshold (options : SelfPlayOptions Rat) (threshold : Rat) : SelfPlayOptions Rat :=
  { options with resignPercentage := threshold }

def withThresholds (options : PerSide (SelfPlayOptions Rat)) (thresholds : PerSide Rat) :
    PerSide (SelfPlayOptions Rat) :=
  ⟨options.white.withThreshold thresholds.white, options.black.withThreshold thresholds.black⟩

/-- The evaluation does not pass the threshold. -/
def Spares (options : SelfPlayOptions Rat) (eval : BestEval Rat) : Prop :=
  if options.resignWdlStyle then
    eval.odds.win ≤ 1 - options.resignFraction ∧ eval.odds.loss ≤ 1 - options.resignFraction ∧
      eval.odds.draw ≤ 1 - options.resignFraction
  else options.resignFraction ≤ eval.winRate

theorem verdictByOdds_eq_none_iff {limit : Rat} {odds : Odds Rat} :
    verdictByOdds limit side odds = none ↔
      odds.win ≤ limit ∧ odds.loss ≤ limit ∧ odds.draw ≤ limit := by
  unfold verdictByOdds
  simp only [Scalar.lt_rat, decide_eq_true_eq]
  split
  · simp [not_le.mpr, *]
  · split
    · simp [not_le.mpr, *]
    · split
      · simp [not_le.mpr, *]
      · simp [not_lt.mp, *]

theorem verdict_eq_none_iff :
    options.verdict side number eval = none ↔
      number < options.resignEarliestMove ∨ options.Spares eval := by
  unfold verdict Spares
  by_cases hearly : number < options.resignEarliestMove
  · simp [hearly]
  · cases hstyle : options.resignWdlStyle with
    | true => simp [hearly, verdictByOdds_eq_none_iff, Scalar.one_rat]
    | false => simp [hearly, Scalar.lt_rat]

theorem resignFraction_eq (options : SelfPlayOptions Rat) :
    options.resignFraction = options.resignPercentage / 100 := rfl

/-- What a threshold spares a lower one spares too. -/
theorem Spares.of_le {threshold : Rat} (h : (options.withThreshold threshold).Spares eval)
    (hle : options.resignPercentage ≤ threshold) : options.Spares eval := by
  have hfraction : options.resignFraction ≤ (options.withThreshold threshold).resignFraction := by
    rw [resignFraction_eq, resignFraction_eq]
    exact div_le_div_of_nonneg_right hle (by norm_num)
  have hstyle : (options.withThreshold threshold).resignWdlStyle = options.resignWdlStyle := rfl
  unfold Spares at h ⊢
  rw [hstyle] at h
  split
  · rename_i hodds
    rw [if_pos hodds] at h
    obtain ⟨hwin, hloss, hdraw⟩ := h
    exact ⟨by linarith, by linarith, by linarith⟩
  · rename_i hrate
    rw [if_neg hrate] at h
    exact hfraction.trans h

theorem verdict_ne_none_of_le {threshold : Rat} (hle : options.resignPercentage ≤ threshold)
    (h : options.verdict side number eval ≠ none) :
    (options.withThreshold threshold).verdict side number eval ≠ none := by
  intro hnone
  apply h
  rw [verdict_eq_none_iff] at hnone ⊢
  rcases hnone with hearly | hspares
  · exact .inl hearly
  · exact .inr (hspares.of_le hle)

/-- At a threshold of zero a valid evaluation is spared. -/
theorem verdict_of_zero (hzero : options.resignPercentage = 0) (hvalid : eval.IsValid)
    (side : Color) (number : Nat) : options.verdict side number eval = none := by
  have hfraction : options.resignFraction = 0 := by
    rw [resignFraction_eq, hzero]
    norm_num
  rw [verdict_eq_none_iff]
  right
  unfold Spares
  rw [hfraction, sub_zero]
  split
  · exact hvalid.areProbabilities.le_one
  · exact hvalid.winRate_nonneg

end SelfPlayOptions

variable {ω P M : Type}

namespace Game

section

variable {R : Type} [BoardMove M] [Board P M] {game after : Game ω P M R}

/-- The second game has the moves of the first one, perhaps more, and no fewer searches. -/
structure IsBehind (game other : Game ω P M R) : Prop where
  moves : game.moves <+: other.moves
  moveCount : game.moveCount ≤ other.moveCount

theorem IsBehind.refl (game : Game ω P M R) : game.IsBehind game :=
  ⟨List.prefix_rfl, Nat.le_refl _⟩

theorem IsBehind.trans {last : Game ω P M R} (h : game.IsBehind after) (h' : after.IsBehind last) :
    game.IsBehind last :=
  ⟨List.IsPrefix.trans h.moves h'.moves, h.moveCount.trans h'.moveCount⟩

variable [DecidableEq M] [Scalar R] {setup : MatchSetup ω P M R} {request : PlayRequest}

/-- A round keeps the moves, and adds none when play comes to rest. -/
theorem moves_of_progress {number : Nat} {ending : Option PlayEnd} {entries : Journal ω P M R}
    (h : game.Progress setup request number ending after entries) :
    game.moves <+: after.moves ∧ (ending ≠ none → after.moves = game.moves) := by
  have hchess960 : after.chess960 = game.chess960 :=
    congrArg Settings.chess960 (settings_of_progress h)
  rcases records_of_progress h with hsame | ⟨rfl, move, hplayed⟩
  · have hmoves := moves_congr hchess960 (hsame .white)
    rw [hmoves]
    exact ⟨List.prefix_rfl, fun _ => rfl⟩
  · refine ⟨?_, fun hnone => absurd rfl hnone⟩
    unfold moves
    rw [hchess960, hplayed .white, GameRecord.moves_play]
    exact List.prefix_append _ _

/-- A round counts one search, or there was none to count. -/
theorem moveCount_of_progress {number : Nat} {ending : Option PlayEnd} {entries : Journal ω P M R}
    (h : game.Progress setup request number ending after entries) :
    after.moveCount = game.moveCount + 1 ∨
      after.moveCount = game.moveCount ∧ (game.rulesResult.isTerminal = true ∨
        game.abort.requested = true ∨ ∃ error, ending = some (.failed error)) := by
  cases h with
  | decided hover => exact .inr ⟨rfl, .inl hover⟩
  | stopped _ hrequested =>
    rw [prepareTree_eq]
    exact .inr ⟨rfl, .inr (.inl hrequested)⟩
  | refused =>
    rw [prepareTree_eq]
    exact .inr ⟨rfl, .inr (.inr ⟨_, rfl⟩)⟩
  | searched _ _ _ _ _ _ _ hlanding =>
    rw [prepareTree_eq] at hlanding
    cases hlanding with
    | failed => exact .inr ⟨rfl, .inr (.inr ⟨_, rfl⟩)⟩
    | halted => exact .inl rfl
    | resigned =>
      rw [searched_eq]
      exact .inl rfl
    | moved =>
      rw [searched_eq]
      exact .inl rfl

theorem isBehind_of_round {ending : Option PlayEnd} {world last : ω}
    (hround : game.round setup request world = (ending, after, last)) : game.IsBehind after := by
  obtain ⟨entries, hprogress, -⟩ := round_journaled setup request world [] hround
  refine ⟨(moves_of_progress hprogress).1, ?_⟩
  rcases moveCount_of_progress hprogress with hmore | ⟨hsame, -⟩
  · exact (Nat.le_succ _).trans hmore.ge
  · exact hsame.ge

theorem chess960_of_round {ending : Option PlayEnd} {world last : ω}
    (hround : game.round setup request world = (ending, after, last)) :
    after.chess960 = game.chess960 := by
  obtain ⟨entries, hprogress, -⟩ := round_journaled setup request world [] hround
  exact congrArg Settings.chess960 (settings_of_progress hprogress)

theorem isBehind_roundsFor (setup : MatchSetup ω P M R) (request : PlayRequest) (rounds : Nat)
    (game : Game ω P M R) (world : ω) :
    game.IsBehind (roundsFor setup request rounds game world).2.1 := by
  induction rounds generalizing game world with
  | zero => exact .refl game
  | succ rounds ih =>
    obtain ⟨ending, next, now, hround⟩ : ∃ ending next now,
        game.round setup request world = (ending, next, now) := ⟨_, _, _, rfl⟩
    cases ending with
    | some ending =>
      rw [roundsFor_of_round_eq_some rounds hround]
      exact isBehind_of_round hround
    | none =>
      rw [roundsFor_of_round_eq_none rounds hround]
      exact (isBehind_of_round hround).trans (ih next now)

/-- The game after the first round is behind the one after all of them. -/
theorem isBehind_of_first {ending : Option PlayEnd} {world last : ω} (rounds : Nat)
    (hround : game.round setup request world = (ending, after, last)) :
    after.IsBehind (roundsFor setup request (rounds + 1) game world).2.1 := by
  cases ending with
  | some ending =>
    rw [roundsFor_of_round_eq_some rounds hround]
    exact .refl after
  | none =>
    rw [roundsFor_of_round_eq_none rounds hround]
    exact isBehind_roundsFor setup request rounds after last

/-- In a determined set-up a round of an open game counts one search. -/
theorem moveCount_of_round {answer : Color → GameTree P M → SearchAnswer M R}
    (hdetermined : setup.IsDetermined request.threads answer)
    (hopen : game.rulesResult = .undecided) (hrun : game.abort.requested = false)
    {ending : Option PlayEnd} {world last : ω}
    (hround : game.round setup request world = (ending, after, last)) :
    after.moveCount = game.moveCount + 1 := by
  obtain ⟨entries, hprogress, -⟩ := round_journaled setup request world [] hround
  rcases moveCount_of_progress hprogress with hmore | ⟨-, hover | hrequested | ⟨error, hfailed⟩⟩
  · exact hmore
  · rw [hopen] at hover
    cases hover
  · rw [hrun] at hrequested
    cases hrequested
  · obtain rfl : ending = some (.failed error) := hfailed
    cases turn_of_round_eq hdetermined hrun hround

end

variable {setup setup' : MatchSetup ω P M Rat} {request : PlayRequest}
  {answer : Color → GameTree P M → SearchAnswer M Rat} {game other : Game ω P M Rat}

/-- Two games are at the same point of the same course, and the other one has raised thresholds. -/
structure Raised (game other : Game ω P M Rat) : Prop where
  trees : other.trees = game.trees
  chess960 : other.chess960 = game.chess960
  moveCount : other.moveCount = game.moveCount
  options : ∀ side, ∃ threshold, (game.options.get side).resignPercentage ≤ threshold ∧
    other.options.get side = (game.options.get side).withThreshold threshold
  goesOn : game.abort.requested = false
  otherGoesOn : other.abort.requested = false

theorem Raised.alike (h : game.Raised other) : game.Alike other := by
  refine ⟨h.trees, fun side => ?_, fun side => ?_⟩
  · obtain ⟨threshold, -, hoptions⟩ := h.options side
    rw [hoptions]
    rfl
  · obtain ⟨threshold, -, hoptions⟩ := h.options side
    rw [hoptions]
    rfl

variable [Board P M]

/-- If the one game is given up, so is the other one. -/
theorem Raised.nextVerdict (h : game.Raised other) (hgiven : game.nextVerdict answer ≠ none) :
    other.nextVerdict answer ≠ none := by
  obtain ⟨threshold, hle, hoptions⟩ := h.options game.sideToMove
  have hnumber : other.moveNumber game.sideToMove = game.moveNumber game.sideToMove := by
    unfold moveNumber
    rw [h.trees]
  unfold Game.nextVerdict verdict at hgiven ⊢
  rw [h.alike.nextAnswer, h.alike.sideToMove, hoptions, hnumber]
  exact SelfPlayOptions.verdict_ne_none_of_le hle hgiven

/-- At thresholds of zero no valid evaluation gives a game up. -/
theorem nextVerdict_of_zero
    (hvalid : ∀ side (tree : GameTree P M), tree.record.history.result = .undecided →
      (answer side tree).eval.IsValid)
    (hzero : ∀ side, (game.options.get side).resignPercentage = 0)
    (hopen : game.rulesResult = .undecided) : game.nextVerdict answer = none := by
  apply SelfPlayOptions.verdict_of_zero (hzero _)
  apply hvalid
  rw [readyTrees, record_prepareTree]
  exact hopen

variable [BoardMove M]

theorem Raised.moves (h : game.Raised other) : other.moves = game.moves :=
  moves_congr h.chess960 (by rw [h.trees])

variable [DecidableEq M]

/-- Games that both move on are at the same point again. -/
theorem Raised.moved (h : game.Raised other) {next after : Game ω P M Rat}
    (hnext : game.Turn answer request.resignation next none)
    (hafter : other.Turn answer request.resignation after none)
    (hchess960 : after.chess960 = next.chess960) (hcount : after.moveCount = next.moveCount) :
    next.Raised after := by
  cases hnext with
  | moved _ _ _ hnextOptions hnextAbort hnextTrees =>
    cases hafter with
    | moved _ _ _ hafterOptions hafterAbort hafterTrees =>
      refine ⟨?_, hchess960, hcount, ?_, hnextAbort.trans h.goesOn,
        hafterAbort.trans h.otherGoesOn⟩
      · rw [hafterTrees, hnextTrees, h.alike.searchedTrees, h.alike.nextMove]
      · rw [hnextOptions, hafterOptions]
        exact h.options

/-- Where the game with raised thresholds comes to its end the other one is not behind. -/
theorem Raised.ended (h : game.Raised other)
    (hdetermined : setup.IsDetermined request.threads answer)
    (hdetermined' : setup'.IsDetermined request.threads answer) (rounds : Nat)
    (world : ω) {world' last' : ω} {ending' : PlayEnd} {after : Game ω P M Rat}
    (hround' : other.round setup' request world' = (some ending', after, last')) :
    after.IsBehind (roundsFor setup request (rounds + 1) game world).2.1 ∧ ending' = .finished := by
  obtain ⟨entries, hprogress', -⟩ := round_journaled setup' request world' [] hround'
  have hmoves : after.moves = game.moves :=
    ((moves_of_progress hprogress').2 (Option.some_ne_none _)).trans h.moves
  have hbehind := isBehind_roundsFor setup request (rounds + 1) game world
  have hturn' := turn_of_round_eq hdetermined' h.otherGoesOn hround'
  have hextends := hbehind.moves
  rw [← hmoves] at hextends
  cases hturn' with
  | ended hrules hafter =>
    have hcount : after.moveCount = game.moveCount := by
      rw [hafter]
      exact h.moveCount
    exact ⟨⟨hextends, hcount.le.trans hbehind.moveCount⟩, rfl⟩
  | resigned hopen' =>
    have hopen : game.rulesResult = .undecided := h.alike.rulesResult.symm.trans hopen'
    obtain ⟨ending, next, now, hround⟩ : ∃ ending next now,
        game.round setup request world = (ending, next, now) := ⟨_, _, _, rfl⟩
    have hcount := moveCount_of_round hdetermined hopen h.goesOn hround
    have hcount' := moveCount_of_round hdetermined' hopen' h.otherGoesOn hround'
    have hmore := (isBehind_of_first rounds hround).moveCount
    rw [h.moveCount] at hcount'
    exact ⟨⟨hextends, by omega⟩, rfl⟩

/-- **Raised thresholds make a game shorter.** -/
theorem Raised.roundsFor (hdetermined : setup.IsDetermined request.threads answer)
    (hdetermined' : setup'.IsDetermined request.threads answer) {rounds : Nat}
    (h : game.Raised other) {world world' last last' : ω} {ending ending' : PlayEnd}
    {final final' : Game ω P M Rat}
    (hplay : Game.roundsFor setup request rounds game world = (ending, final, last))
    (hplay' : Game.roundsFor setup' request rounds other world' = (ending', final', last')) :
    final'.IsBehind final ∧ (ending = .finished → ending' = .finished) := by
  induction rounds generalizing game other world world' with
  | zero =>
    cases hplay
    cases hplay'
    have hmoves : final'.moves <+: final.moves := ⟨[], by rw [List.append_nil, h.moves]⟩
    exact ⟨⟨hmoves, h.moveCount.le⟩, fun hfinished => by cases hfinished⟩
  | succ rounds ih =>
    obtain ⟨first', after, now', hround'⟩ : ∃ ending after now,
        other.round setup' request world' = (ending, after, now) := ⟨_, _, _, rfl⟩
    cases first' with
    | some first' =>
      rw [roundsFor_of_round_eq_some rounds hround'] at hplay'
      cases hplay'
      obtain ⟨hbehind, hfinished⟩ := h.ended hdetermined hdetermined' rounds world hround'
      rw [hplay] at hbehind
      exact ⟨hbehind, fun _ => hfinished⟩
    | none =>
      obtain ⟨first, next, now, hround⟩ : ∃ ending next now,
          game.round setup request world = (ending, next, now) := ⟨_, _, _, rfl⟩
      have hturn := turn_of_round_eq hdetermined h.goesOn hround
      have hturn' := turn_of_round_eq hdetermined' h.otherGoesOn hround'
      rw [roundsFor_of_round_eq_none rounds hround'] at hplay'
      obtain ⟨hopen', hspared⟩ : other.rulesResult = .undecided ∧
          (request.resignation = true → other.nextVerdict answer = none) := by
        cases hturn' with
        | moved hopen' hspared => exact ⟨hopen', hspared⟩
      have hopen : game.rulesResult = .undecided := h.alike.rulesResult.symm.trans hopen'
      cases first with
      | some first =>
        -- It was neither ended by the rules nor given up, for then the other one was so too.
        cases hturn with
        | ended hrules =>
          rw [hopen] at hrules
          cases hrules
        | resigned _ hresigns hgiven =>
          refine absurd (hspared hresigns) (h.nextVerdict ?_)
          rw [hgiven]
          exact Option.some_ne_none _
      | none =>
        rw [roundsFor_of_round_eq_none rounds hround] at hplay
        have hchess960 : after.chess960 = next.chess960 :=
          (chess960_of_round hround').trans (h.chess960.trans (chess960_of_round hround).symm)
        have hcount := moveCount_of_round hdetermined hopen h.goesOn hround
        have hcount' := moveCount_of_round hdetermined' hopen' h.otherGoesOn hround'
        rw [h.moveCount] at hcount'
        exact ih (h.moved hturn hturn' hchess960 (hcount'.trans hcount.symm)) hplay hplay'

section

variable {R : Type} [Scalar R] {setup : MatchSetup ω P M R} {request : PlayRequest}
  {game : Game ω P M R} {side : Color} {engine : SearchEngine ω M R} {world : ω}

/-- Where an evaluation gives no verdict, it does not matter whether it may. -/
theorem conclude_of_spared (hspared : game.verdict side (engine.bestEval world) = none) :
    game.conclude setup { request with resignation := true } side engine world =
      game.conclude setup { request with resignation := false } side engine world := by
  obtain ⟨sampled, hsampled⟩ : ∃ sampled, (if request.training then
      game.addSample setup side (engine.historyFill world) (engine.bestEval world)
    else game) = sampled := ⟨_, rfl⟩
  have hnoted : (sampled.note side (engine.bestEval world)).verdict side
      (engine.bestEval world) = none := by
    refine (verdict_congr ?_ ?_ _).trans hspared
    · rw [← hsampled]
      split <;> rfl
    · rw [← hsampled]
      split <;> rfl
  unfold conclude
  simp only [if_true, Bool.false_eq_true, if_false]
  rw [hsampled, hnoted]

theorem runEngine_of_spared {found : SearchAnswer M R}
    (hgives : engine.Gives (setup.players.get side).callbacks
      (game.search setup side engine (max 1 (request.threads.get side)) world) found)
    (hspared : game.verdict side found.eval = none) :
    game.runEngine setup { request with resignation := true } side engine world =
      game.runEngine setup { request with resignation := false } side engine world := by
  unfold runEngine
  generalize game.search setup side engine (max 1 (request.threads.get side)) world = outcome
    at hgives ⊢
  have hlanded : ((game.land side outcome).count (engine.playouts outcome.world)).verdict side
      (engine.bestEval outcome.world) = none := by
    rw [hgives.eval, ← hspared]
    refine verdict_congr ?_ ?_ _
    · rfl
    · exact record_land_get game side side outcome
  simp only
  rw [hgives.succeeds]
  simp only
  rw [conclude_of_spared hlanded]

theorem round_of_spared {answer : Color → GameTree P M → SearchAnswer M R}
    (hdetermined : setup.IsDetermined request.threads answer) (hrun : game.abort.requested = false)
    (hspared : game.rulesResult = .undecided → game.nextVerdict answer = none) (world : ω) :
    game.round setup { request with resignation := true } world =
      game.round setup { request with resignation := false } world := by
  by_cases hrules : game.rulesResult.isTerminal = true
  · rw [round_of_isTerminal _ _ hrules, round_of_isTerminal _ _ hrules]
  · have hopen := GameResult.eq_undecided_of_not_isTerminal hrules
    have hready : (game.prepareTree game.sideToMove).abort.requested = false := by
      rw [abort_prepareTree, hrun]
    have hstill : ((game.prepareTree game.sideToMove).trees.get
        game.sideToMove).record.history.result = .undecided := by
      rw [record_prepareTree]
      exact hopen
    obtain ⟨engine, launched, hcreate, hgives⟩ :=
      hdetermined (game.prepareTree game.sideToMove) game.sideToMove world hready hstill
    rw [round_of_create hopen hrun hcreate, round_of_create hopen hrun hcreate]
    refine runEngine_of_spared hgives ((verdict_congr ?_ ?_ _).trans (hspared hopen))
    · rw [prepareTree_eq]
    · exact record_prepareTree game game.sideToMove

/-- Two determined and repeatable runs of one game are the same in any two worlds. -/
theorem roundsFor_agrees {answer : Color → GameTree P M → SearchAnswer M R}
    (hdetermined : setup.IsDetermined request.threads answer)
    (hrepeatable : setup.IsRepeatable request.threads) (rounds : Nat)
    (hrun : game.abort.requested = false) (world world' : ω) :
    (roundsFor setup request rounds game world').1 = (roundsFor setup request rounds game world).1 ∧
      (roundsFor setup request rounds game world').2.1 =
        (roundsFor setup request rounds game world).2.1 := by
  induction rounds generalizing game world world' with
  | zero => exact ⟨rfl, rfl⟩
  | succ rounds ih =>
    obtain ⟨ending, next, now, hround⟩ : ∃ ending next now,
        game.round setup request world = (ending, next, now) := ⟨_, _, _, rfl⟩
    obtain ⟨ending', next', now', hround'⟩ : ∃ ending next now,
        game.round setup request world' = (ending, next, now) := ⟨_, _, _, rfl⟩
    have hturn := turn_of_round_eq hdetermined hrun hround
    have hturn' := turn_of_round_eq hdetermined hrun hround'
    have hsound : ∀ error, ending ≠ some (.failed error) := by
      rintro error rfl
      cases hturn
    have hsound' : ∀ error, ending' ≠ some (.failed error) := by
      rintro error rfl
      cases hturn'
    obtain ⟨rfl, rfl⟩ := round_agrees hrepeatable hround hround' hsound hsound'
    cases ending' with
    | some ending =>
      rw [roundsFor_of_round_eq_some rounds hround, roundsFor_of_round_eq_some rounds hround']
      exact ⟨rfl, rfl⟩
    | none =>
      rw [roundsFor_of_round_eq_none rounds hround, roundsFor_of_round_eq_none rounds hround']
      have hstill : next'.abort.requested = false := by
        cases hturn with
        | moved _ _ _ _ habort => exact habort.trans hrun
      exact ih hstill now now'

end

/-- **At thresholds of zero resignation is off.** -/
theorem roundsFor_of_zero (hdetermined : setup.IsDetermined request.threads answer)
    (hvalid : ∀ side (tree : GameTree P M), tree.record.history.result = .undecided →
      (answer side tree).eval.IsValid) (rounds : Nat)
    (hzero : ∀ side, (game.options.get side).resignPercentage = 0)
    (hrun : game.abort.requested = false) (world : ω) :
    roundsFor setup { request with resignation := true } rounds game world =
      roundsFor setup { request with resignation := false } rounds game world := by
  induction rounds generalizing game world with
  | zero => rfl
  | succ rounds ih =>
    have hsame := round_of_spared hdetermined hrun (nextVerdict_of_zero hvalid hzero) world
    obtain ⟨ending, next, now, hround⟩ : ∃ ending next now, game.round setup
      { request with resignation := false } world = (ending, next, now) := ⟨_, _, _, rfl⟩
    rw [hround] at hsame
    cases ending with
    | some ending =>
      rw [roundsFor_of_round_eq_some rounds hsame, roundsFor_of_round_eq_some rounds hround]
    | none =>
      rw [roundsFor_of_round_eq_none rounds hsame, roundsFor_of_round_eq_none rounds hround]
      have hquiet : setup.IsDetermined ({ request with resignation := false } : PlayRequest).threads
        answer := hdetermined
      cases turn_of_round_eq hquiet hrun hround with
      | moved _ _ _ hoptions habort =>
        exact ih (fun side => by rw [hoptions]; exact hzero side) (habort.trans hrun) now

theorem exists_raised_of_begin {options : PerSide (SelfPlayOptions Rat)} {shared : Bool}
    {opening : Opening M} (hbegin : begin options shared opening = .ok game)
    {thresholds : PerSide Rat}
    (hle : ∀ side, (options.get side).resignPercentage ≤ thresholds.get side) :
    ∃ other : Game ω P M Rat, begin (SelfPlayOptions.withThresholds options thresholds) shared
      opening = .ok other ∧ game.Raised other := by
  obtain ⟨hstyle, record, hrecord, rfl⟩ := begin_eq_ok_iff.mp hbegin
  refine ⟨_, begin_eq_ok_iff.mpr ⟨hstyle, record, hrecord, rfl⟩, rfl, rfl, rfl,
    fun side => ⟨thresholds.get side, hle side, ?_⟩, rfl, rfl⟩
  cases side <;> rfl

end Game

variable [BoardMove M] [DecidableEq M] [Board P M]

/-- **Resignation grows with the threshold and is off at zero.** Let searches depend on the game
alone. A game that is begun with thresholds at least as high makes part of the moves, by no more
searches, and is over when the first game is. With thresholds of zero and valid evaluations, it
makes no difference to a game whether sides may resign, also not in another world if searches are
repeatable. -/
theorem resignation_grows_from_zero {setup setup' : MatchSetup ω P M Rat} {request : PlayRequest}
    {answer : Color → GameTree P M → SearchAnswer M Rat}
    (hdetermined : setup.IsDetermined request.threads answer)
    (hdetermined' : setup'.IsDetermined request.threads answer)
    (hvalid : ∀ side (tree : GameTree P M), tree.record.history.result = .undecided →
      (answer side tree).eval.IsValid)
    {options : PerSide (SelfPlayOptions Rat)} {shared : Bool} {opening : Opening M}
    {game : Game ω P M Rat} (hbegin : Game.begin options shared opening = .ok game) :
    (∀ thresholds : PerSide Rat,
      (∀ side, (options.get side).resignPercentage ≤ thresholds.get side) →
      ∃ other : Game ω P M Rat, Game.begin (SelfPlayOptions.withThresholds options thresholds)
        shared opening = .ok other ∧
      ∀ rounds world world' ending final last ending' final' last',
        Game.playFor setup request rounds game world = (ending, final, last) →
        Game.playFor setup' request rounds other world' = (ending', final', last') →
        final'.moves <+: final.moves ∧ final'.moveCount ≤ final.moveCount ∧
          (ending = .finished → ending' = .finished)) ∧
    ((∀ side, (options.get side).resignPercentage = 0) → ∀ rounds,
      (∀ world, Game.playFor setup { request with resignation := true } rounds game world =
        Game.playFor setup { request with resignation := false } rounds game world) ∧
      (setup.IsRepeatable request.threads →
        ∀ world world' ending final last ending' final' last',
        Game.playFor setup { request with resignation := true } rounds game world =
          (ending, final, last) →
        Game.playFor setup { request with resignation := false } rounds game world' =
          (ending', final', last') → ending' = ending ∧ final' = final)) := by
  obtain ⟨hfresh, -⟩ := Game.fresh_of_begin hbegin
  have hoptions : game.options = options := by
    obtain ⟨-, record, -, rfl⟩ := Game.begin_eq_ok_iff.mp hbegin
    rfl
  have hrun : game.abort.requested = false := by
    rw [hfresh.idle]
    rfl
  refine ⟨fun thresholds hle => ?_, fun hzero rounds => ?_⟩
  · obtain ⟨other, hother, hraised⟩ := Game.exists_raised_of_begin hbegin hle
    obtain ⟨hfresh', -⟩ := Game.fresh_of_begin hother
    refine ⟨other, hother, ?_⟩
    intro rounds world world' ending final last ending' final' last' hplay hplay'
    rw [Game.playFor_of_undecided hfresh.undecided] at hplay
    rw [Game.playFor_of_undecided hfresh'.undecided] at hplay'
    obtain ⟨hbehind, hfinished⟩ := hraised.roundsFor hdetermined hdetermined' hplay hplay'
    exact ⟨hbehind.moves, hbehind.moveCount, hfinished⟩
  · rw [← hoptions] at hzero
    have hsame := Game.roundsFor_of_zero hdetermined hvalid rounds hzero hrun
    simp only [Game.playFor_of_undecided hfresh.undecided]
    refine ⟨hsame, fun hrepeatable world world' ending final last ending' final' last' hloud
      hquiet => ?_⟩
    rw [hsame] at hloud
    have hnever : setup.IsDetermined ({ request with resignation := false } : PlayRequest).threads
      answer := hdetermined
    obtain ⟨hending, hfinal⟩ := Game.roundsFor_agrees hnever hrepeatable rounds hrun world world'
    rw [hloud, hquiet] at hending hfinal
    exact ⟨hending, hfinal⟩

namespace TicTacToe

/-- The engine that offers the first legal move, with its evaluations as exact numbers. -/
def exactEngine (tree : GameTree Position Square) : SearchEngine Unit Square Rat where
  run := (firstMoveEngine tree).run
  bestMove := (firstMoveEngine tree).bestMove
  bestEval _ := ⟨if tree.sideToMove.isBlack then -1 / 2 else 1 / 2, 0, 0⟩
  playouts := (firstMoveEngine tree).playouts
  abort := (firstMoveEngine tree).abort
  resetBestMove := (firstMoveEngine tree).resetBestMove
  historyFill := (firstMoveEngine tree).historyFill

def exactSetup : MatchSetup Unit Position Square Rat where
  players := firstMoveSetup.players
  factory := ⟨fun _ => [], fun context world => (.ok (exactEngine context.tree), world)⟩

def exactAnswer (tree : GameTree Position Square) : SearchAnswer Square Rat where
  head := tree.expand.head
  eval := (exactEngine tree).bestEval ()
  best _ := (exactEngine tree).bestMove ()

theorem exactAnswer_isValid (tree : GameTree Position Square) :
    (exactAnswer tree).eval.IsValid := by
  have heval : (exactAnswer tree).eval =
      ⟨if tree.sideToMove.isBlack then -1 / 2 else 1 / 2, 0, 0⟩ := rfl
  rw [heval]
  split
  · have habs : |(-1 / 2 : Rat)| = 1 / 2 := by
      rw [abs_of_neg (by norm_num)]
      norm_num
    exact ⟨by rw [habs]; norm_num, le_refl 0, by rw [habs]; norm_num⟩
  · have habs : |(1 / 2 : Rat)| = 1 / 2 := abs_of_pos (by norm_num)
    exact ⟨by rw [habs]; norm_num, le_refl 0, by rw [habs]; norm_num⟩

theorem search_exactEngine (game : Game Unit Position Square Rat) (side : Color) (threads : Nat)
    (world : Unit) :
    game.search exactSetup side (exactEngine (game.trees.get side)) threads world =
      ⟨none, (game.trees.get side).expand.head, game.abort.launch id, world⟩ := by
  unfold Game.search
  split <;> rfl

theorem exactSetup_isDetermined (threads : PerSide Nat) :
    exactSetup.IsDetermined threads fun _ => exactAnswer := by
  intro game side world hrun _
  refine ⟨exactEngine (game.trees.get side), world, rfl, ?_⟩
  rw [search_exactEngine]
  refine ⟨rfl, hrun, rfl, rfl, fun _ _ _ => rfl, ?_⟩
  intro _ _ _ _
  cases side <;> rfl

theorem exactSetup_isRepeatable (threads : PerSide Nat) : exactSetup.IsRepeatable threads := by
  intro game side engine engine' world world' launched launched' _ _ hcreate hcreate' _ _
  cases hcreate
  cases hcreate'
  exact ⟨rfl, rfl, rfl, rfl, rfl, fun _ _ _ _ _ => rfl, fun _ _ _ _ _ _ => rfl⟩

/-- Default options but for the thresholds. -/
def exactOptions (thresholds : PerSide Rat) : PerSide (SelfPlayOptions Rat) :=
  SelfPlayOptions.withThresholds ⟨.default, .default⟩ thresholds

/-- A game at its beginning. -/
def exactGame (thresholds : PerSide Rat) : Game Unit Position Square Rat where
  options := exactOptions thresholds
  opening := ⟨".../.../...", []⟩
  trees := .shared ⟨⟨⟨0, 0, 0⟩, []⟩, .empty⟩
  chess960 := false
  result := .undecided
  abort := .idle
  samples := []
  moveCount := 0
  totalNodes := 0
  marks := .start

theorem begin_exactGame (thresholds : PerSide Rat) :
    Game.begin (exactOptions thresholds) true ⟨".../.../...", []⟩ = .ok (exactGame thresholds) :=
  Game.begin_eq_ok_iff.mpr ⟨rfl, _, ofOpening_empty, rfl⟩

end TicTacToe

open TicTacToe in
/-- With thresholds of zero black plays on in a game that it thinks lost, whether it may give up or
not. With thresholds of thirty percent it gives up after one move of the same game. -/
theorem exact_resignation_grows_from_zero :
    Game.begin (exactOptions ⟨0, 0⟩) true ⟨".../.../...", []⟩ = .ok (exactGame ⟨0, 0⟩) ∧
    Game.begin (exactOptions ⟨30, 30⟩) true ⟨".../.../...", []⟩ = .ok (exactGame ⟨30, 30⟩) ∧
    exactSetup.IsRepeatable ⟨1, 1⟩ ∧
    ∃ final final' : Game Unit Position Square Rat,
      Game.playFor exactSetup ⟨⟨1, 1⟩, true, true⟩ 10 (exactGame ⟨0, 0⟩) () =
        (.finished, final, ()) ∧
      Game.playFor exactSetup ⟨⟨1, 1⟩, true, true⟩ 10 (exactGame ⟨30, 30⟩) () =
        (.finished, final', ()) ∧
      final.moveCount = 7 ∧ final'.moveCount = 2 ∧ final'.moves <+: final.moves ∧
      Game.playFor exactSetup ⟨⟨1, 1⟩, true, false⟩ 10 (exactGame ⟨0, 0⟩) () =
        (.finished, final, ()) := by
  have hfacts : (Game.playFor exactSetup ⟨⟨1, 1⟩, true, true⟩ 10 (exactGame ⟨0, 0⟩) ()).1 =
        .finished ∧
      (Game.playFor exactSetup ⟨⟨1, 1⟩, true, true⟩ 10 (exactGame ⟨0, 0⟩) ()).2.1.moveCount = 7 := by
    decide +kernel
  have hcount' : (Game.playFor exactSetup ⟨⟨1, 1⟩, true, true⟩ 10 (exactGame ⟨30, 30⟩)
    ()).2.1.moveCount = 2 := by decide +kernel
  have hzero : ∀ side, ((exactOptions ⟨0, 0⟩).get side).resignPercentage = 0 := by
    intro side
    cases side <;> rfl
  have hle : ∀ side, ((exactOptions ⟨0, 0⟩).get side).resignPercentage ≤
      (⟨30, 30⟩ : PerSide Rat).get side := by
    intro side
    rw [hzero]
    cases side <;> decide
  obtain ⟨hraised, hoff⟩ := @resignation_grows_from_zero Unit Position Square _ _ _ exactSetup
    exactSetup ⟨⟨1, 1⟩, true, true⟩ (fun _ => exactAnswer) (exactSetup_isDetermined _)
    (exactSetup_isDetermined _) (fun _ tree _ => exactAnswer_isValid tree) _ true _ _
    (begin_exactGame ⟨0, 0⟩)
  obtain ⟨other, hother, hshorter⟩ := hraised ⟨30, 30⟩ hle
  obtain rfl : exactGame ⟨30, 30⟩ = other :=
    Except.ok.inj ((begin_exactGame ⟨30, 30⟩).symm.trans hother)
  obtain ⟨hsame, -⟩ := hoff hzero 10
  generalize hplay : Game.playFor exactSetup ⟨⟨1, 1⟩, true, true⟩ 10 (exactGame ⟨0, 0⟩) () = run
    at hfacts
  generalize hplay' : Game.playFor exactSetup ⟨⟨1, 1⟩, true, true⟩ 10 (exactGame ⟨30, 30⟩) () = run'
    at hcount'
  obtain ⟨ending, final, ⟨⟩⟩ := run
  obtain ⟨ending', final', ⟨⟩⟩ := run'
  obtain ⟨rfl, hcount⟩ := hfacts
  obtain ⟨hmoves, -, hfinished⟩ := hshorter 10 () () _ _ _ _ _ _ hplay hplay'
  obtain rfl := hfinished rfl
  exact ⟨begin_exactGame _, begin_exactGame _, exactSetup_isRepeatable _, final, final',
    rfl, rfl, hcount, hcount', hmoves, (hsame ()).symm.trans hplay⟩

end SelfPlay
