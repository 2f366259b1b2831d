import SelfPlay.Proofs.Match.Determined
import SelfPlay.Proofs.Match.Marks
import SelfPlay.TicTacToe.Game
import SelfPlay.TicTacToe.Heuristic

/-!
# The false-positive statistic of resignation

A game that was played to its end without resignation tells by its worst evaluation whether
resignation would have falsified it. Both runs are taken round by round: as long as the second one
has not been given up it has the trees of the first, and when it is given up the evaluation that did
it is also in the marks of the first.
-/

namespace SelfPlay

open SelfPlay.Numeric

variable {ω P M R : Type}

namespace Game

/-- Two games have the same trees, and their sides search and choose moves in the same way. -/
structure Alike (game other : Game ω P M R) : Prop where
  trees : other.trees = game.trees
  reuseTree : ∀ side, (other.options.get side).reuseTree = (game.options.get side).reuseTree
  minimumAllowedVisits : ∀ side, (other.options.get side).minimumAllowedVisits =
    (game.options.get side).minimumAllowedVisits

/-- Two games are at the same point of the same course. -/
structure Beside (game other : Game ω P M R) : Prop where
  trees : other.trees = game.trees
  options : other.options = game.options
  goesOn : game.abort.requested = false
  otherGoesOn : other.abort.requested = false

section

variable {game other : Game ω P M R} {answer : Color → GameTree P M → SearchAnswer M R}

theorem Beside.alike (h : game.Beside other) : game.Alike other := by
  refine ⟨h.trees, fun side => ?_, fun side => ?_⟩ <;> rw [h.options]

variable [Board P M]

theorem readyTrees_eq (game : Game ω P M R) :
    game.readyTrees = if (game.options.get game.sideToMove).reuseTree then game.trees
      else game.trees.modify game.sideToMove GameTree.trim := by
  unfold readyTrees prepareTree
  split <;> rfl

theorem Alike.sideToMove (h : game.Alike other) : other.sideToMove = game.sideToMove := by
  unfold Game.sideToMove
  rw [h.trees]

theorem Alike.rulesResult (h : game.Alike other) : other.rulesResult = game.rulesResult := by
  unfold Game.rulesResult
  rw [h.sideToMove, h.trees]

theorem Alike.nextAnswer (h : game.Alike other) :
    other.nextAnswer answer = game.nextAnswer answer := by
  unfold Game.nextAnswer
  rw [readyTrees_eq, readyTrees_eq, h.sideToMove, h.trees, h.reuseTree]

theorem Alike.searchedTrees (h : game.Alike other) :
    other.searchedTrees answer = game.searchedTrees answer := by
  unfold Game.searchedTrees
  rw [h.nextAnswer, readyTrees_eq, readyTrees_eq, h.sideToMove, h.trees, h.reuseTree]

theorem Beside.nextVerdict [Scalar R] (h : game.Beside other) :
    other.nextVerdict answer = game.nextVerdict answer := by
  unfold Game.nextVerdict
  rw [h.alike.nextAnswer, h.alike.sideToMove]
  exact verdict_congr h.options (by rw [h.trees]) _

variable [BoardMove M] [DecidableEq M]

theorem Alike.nextMove (h : game.Alike other) :
    other.nextMove answer = game.nextMove answer := by
  unfold Game.nextMove
  rw [h.searchedTrees, h.nextAnswer, h.sideToMove, h.minimumAllowedVisits]

variable [Scalar R]

/-- Games that are at the same point and both move on are at the same point again. -/
theorem Beside.moved (h : game.Beside other) {resigns resigns' : Bool}
    {next after : Game ω P M R} (hnext : game.Turn answer resigns next none)
    (hafter : other.Turn answer resigns' after none) : next.Beside after := by
  cases hnext with
  | moved _ _ _ hnextOptions hnextAbort hnextTrees =>
    cases hafter with
    | moved _ _ _ hafterOptions hafterAbort hafterTrees =>
      refine ⟨?_, ?_, hnextAbort.trans h.goesOn, hafterAbort.trans h.otherGoesOn⟩
      · rw [hafterTrees, hnextTrees, h.alike.searchedTrees, h.alike.nextMove]
      · rw [hafterOptions, hnextOptions, h.options]

end

/-- Both sides resign in the style and at the threshold given. -/
def Resigns [Scalar R] (wdlStyle : Bool) (fraction : R) (game : Game ω P M R) : Prop :=
  ∀ side, (game.options.get side).resignWdlStyle = wdlStyle ∧
    (game.options.get side).resignFraction = fraction

variable [BoardMove M] [DecidableEq M] [Board P M]
  {setup : MatchSetup ω P M Binary32} {answer : Color → GameTree P M → SearchAnswer M Binary32}
  {request : PlayRequest}

/-- Without resignation the options stay, and no trace in the marks is lost. -/
theorem tell_roundsFor (hdetermined : setup.IsDetermined request.threads answer)
    (hplayed : request.resignation = false) {rounds : Nat} {game final : Game ω P M Binary32}
    {world last : ω} {ending : PlayEnd} (hrun : game.abort.requested = false)
    (hplay : roundsFor setup request rounds game world = (ending, final, last)) :
    final.options = game.options ∧ ∀ fraction wdlStyle told,
      game.marks.Tell fraction wdlStyle told → final.marks.Tell fraction wdlStyle told := by
  induction rounds generalizing game world with
  | zero =>
    cases hplay
    exact ⟨rfl, fun _ _ _ h => h⟩
  | succ rounds ih =>
    obtain ⟨ending, next, now, hround⟩ : ∃ ending next now,
        game.round setup request world = (ending, next, now) := ⟨_, _, _, rfl⟩
    have hturn := turn_of_round_eq hdetermined hrun hround
    rw [hplayed] at hturn
    cases hturn with
    | ended hover hafter =>
      rw [roundsFor_of_round_eq_some rounds hround] at hplay
      cases hplay
      rw [hafter]
      exact ⟨rfl, fun _ _ _ h => h⟩
    | resigned hopen hresigns => cases hresigns
    | moved hopen hnone hresult hoptions habort htrees hmarks =>
      rw [roundsFor_of_round_eq_none rounds hround] at hplay
      obtain ⟨hstay, htell⟩ := ih (habort.trans hrun) hplay
      refine ⟨hstay.trans hoptions, ?_⟩
      intro fraction wdlStyle told h
      apply htell
      rw [hmarks]
      exact EvalMarks.tell_update h _ _

/-- A game that is given up beside one that is not: the other one's marks tell of it. -/
theorem tell_of_resigned {game other next after : Game ω P M Binary32} (h : game.Beside other)
    {wdlStyle : Bool} {fraction : Binary32} (hresigns : game.Resigns wdlStyle fraction)
    (hnext : game.Turn answer false next none)
    (hafter : other.Turn answer true after (some .finished)) :
    next.marks.Tell fraction wdlStyle after.result := by
  cases hnext with
  | moved hopen _ _ _ _ _ hmarks =>
    cases hafter with
    | ended hrules =>
      rw [h.alike.rulesResult, hopen] at hrules
      cases hrules
    | resigned _ _ hgiven hresult =>
      rw [h.nextVerdict] at hgiven
      rw [hresult, hmarks, ← (hresigns game.sideToMove).1, ← (hresigns game.sideToMove).2]
      exact EvalMarks.tell_of_verdict hgiven game.marks

/-- If the worst evaluation stays within the limit, a game with resignation ends beside the one
without with the same result. -/
theorem result_of_roundsFor {quiet loud : PlayRequest}
    (hquiet : setup.IsDetermined quiet.threads answer) (hnever : quiet.resignation = false)
    (hloud : setup.IsDetermined loud.threads answer) (hmay : loud.resignation = true)
    {wdlStyle : Bool} {fraction : Binary32} {rounds : Nat} {game other final : Game ω P M Binary32}
    {world last : ω} (hbeside : game.Beside other) (hresigns : game.Resigns wdlStyle fraction)
    (hplay : roundsFor setup quiet rounds game world = (.finished, final, last))
    (hover : final.result.isTerminal = true)
    (hwithin : EvalMarks.Within (final.marks.worst wdlStyle final.result) fraction wdlStyle)
    (world' : ω) :
    ∃ rounds' after last', roundsFor setup loud rounds' other world' = (.finished, after, last') ∧
      after.result = final.result := by
  induction rounds generalizing game other world world' with
  | zero => cases hplay
  | succ rounds ih =>
    obtain ⟨ending, next, now, hround⟩ : ∃ ending next now,
        game.round setup quiet world = (ending, next, now) := ⟨_, _, _, rfl⟩
    obtain ⟨ending', after, last', hround'⟩ : ∃ ending after last',
        other.round setup loud world' = (ending, after, last') := ⟨_, _, _, rfl⟩
    have hturn := turn_of_round_eq hquiet hbeside.goesOn hround
    have hturn' := turn_of_round_eq hloud hbeside.otherGoesOn hround'
    rw [hnever] at hturn
    rw [hmay] at hturn'
    cases ending with
    | some ending =>
      rw [roundsFor_of_round_eq_some rounds hround] at hplay
      cases hplay
      cases hturn with
      | ended hrules hafter =>
        have hrules' : other.rulesResult.isTerminal = true := by
          rw [hbeside.alike.rulesResult, hrules]
        refine ⟨1, _, world',
          roundsFor_of_round_eq_some 0 (round_of_isTerminal setup loud hrules' world'), ?_⟩
        rw [hafter]
        exact hbeside.alike.rulesResult
      | resigned _ hresigned => cases hresigned
    | none =>
      rw [roundsFor_of_round_eq_none rounds hround] at hplay
      cases ending' with
      | some ending' =>
        obtain rfl : ending' = .finished := by cases hturn' <;> rfl
        have hgoesOn : next.abort.requested = false := by
          cases hturn with
          | moved _ _ _ _ habort => exact habort.trans hbeside.goesOn
        obtain ⟨-, htell⟩ := tell_roundsFor hquiet hnever hgoesOn hplay
        have htold := htell _ _ _ (tell_of_resigned hbeside hresigns hturn hturn')
        exact ⟨1, after, last', roundsFor_of_round_eq_some 0 hround',
          EvalMarks.eq_of_tell hover hwithin htold⟩
      | none =>
        have hnextResigns : next.Resigns wdlStyle fraction := by
          cases hturn with
          | moved _ _ _ hoptions =>
            intro side
            rw [hoptions]
            exact hresigns side
        obtain ⟨rounds', finish, last'', hfinish, hsame⟩ :=
          ih (hbeside.moved hturn hturn') hnextResigns hplay last'
        refine ⟨rounds' + 1, finish, last'', ?_, hsame⟩
        rw [roundsFor_of_round_eq_none rounds' hround', hfinish]

end Game

variable [BoardMove M] [DecidableEq M] [Board P M]

/-- **The false-positive statistic is sound.** Let searches depend on the game alone, and let both
sides resign in one style at one threshold. If a game played without resignation ends with its worst
evaluation within the limit, the same game with resignation ends with the same result, whatever the
evaluations were and from whatever move number on resignation was allowed. -/
theorem resignation_keeps_result {setup : MatchSetup ω P M Binary32} {request : PlayRequest}
    {answer : Color → GameTree P M → SearchAnswer M Binary32}
    (hdetermined : setup.IsDetermined request.threads answer) {game final : Game ω P M Binary32}
    (hrun : game.abort.requested = false)
    (hstyle : game.options.white.resignWdlStyle = game.options.black.resignWdlStyle)
    (hpercentage : game.options.white.resignPercentage = game.options.black.resignPercentage)
    {rounds : Nat} {world last : ω}
    (hplay : Game.playFor setup { request with resignation := false } rounds game world =
      (.finished, final, last))
    (hover : final.result.isTerminal = true)
    (hwithin : if game.options.white.resignWdlStyle then
        final.worstEval.le (Scalar.one - game.options.white.resignFraction) = true
      else game.options.white.resignFraction.le final.worstEval = true) (world' : ω) :
    ∃ rounds' after last',
      Game.playFor setup { request with resignation := true } rounds' game world' =
        (.finished, after, last') ∧ after.result = final.result := by
  unfold Game.playFor at hplay ⊢
  by_cases hbefore : game.result.isTerminal = true
  · rw [if_pos hbefore] at hplay
    cases hplay
    exact ⟨0, game, world', if_pos hbefore, rfl⟩
  · rw [if_neg hbefore] at hplay
    have hresigns : game.Resigns game.options.white.resignWdlStyle
        game.options.white.resignFraction := by
      intro side
      cases side with
      | white => exact ⟨rfl, rfl⟩
      | black =>
        refine ⟨hstyle.symm, ?_⟩
        unfold SelfPlayOptions.resignFraction
        exact congrArg (· / Scalar.ofNat 100) hpercentage.symm
    let quiet : PlayRequest := { request with resignation := false }
    let loud : PlayRequest := { request with resignation := true }
    have hquiet : setup.IsDetermined quiet.threads answer := hdetermined
    have hloud : setup.IsDetermined loud.threads answer := hdetermined
    have hnever : quiet.resignation = false := rfl
    have hmay : loud.resignation = true := rfl
    obtain ⟨hoptions, -⟩ := Game.tell_roundsFor hquiet hnever hrun hplay
    have hworst : EvalMarks.Within (final.marks.worst game.options.white.resignWdlStyle final.result)
        game.options.white.resignFraction game.options.white.resignWdlStyle := by
      unfold Game.worstEval at hwithin
      rw [hoptions] at hwithin
      cases hodds : game.options.white.resignWdlStyle with
      | true =>
        rw [hodds, if_pos rfl] at hwithin
        exact hwithin
      | false =>
        rw [hodds, if_neg Bool.false_ne_true] at hwithin
        exact hwithin
    have hbeside : game.Beside game := ⟨rfl, rfl, hrun, hrun⟩
    obtain ⟨rounds', after, last', hfinish, hsame⟩ := Game.result_of_roundsFor hquiet hnever hloud
      hmay hbeside hresigns hplay hover hworst world'
    exact ⟨rounds', after, last', (if_neg hbefore).trans hfinish, hsame⟩

namespace TicTacToe

/-- An engine that offers the first legal move and takes white to be ahead. -/
def firstMoveEngine (tree : GameTree Position Square) : SearchEngine Unit Square Binary32 where
  run _ := .finish none tree.expand.head
  bestMove _ :=
    BoardMove.relativeTo ((Board.legalMoves tree.record.head).headD default) tree.sideToMove
  bestEval _ := ⟨if tree.sideToMove.isBlack then -1 / 2 else 1 / 2, 0, 0⟩
  playouts _ := 1
  abort world := world
  resetBestMove world := world
  historyFill _ := .no

/-- Both sides play by these engines. -/
def firstMoveSetup : MatchSetup Unit Position Square Binary32 where
  players := ⟨.ofNetwork (heuristicNetwork Unit), .ofNetwork (heuristicNetwork Unit)⟩
  factory := ⟨fun _ => [], fun context world => (.ok (firstMoveEngine context.tree), world)⟩

/-- What such an engine finds out. -/
def firstMoveAnswer (tree : GameTree Position Square) : SearchAnswer Square Binary32 where
  head := tree.expand.head
  eval := (firstMoveEngine tree).bestEval ()
  best _ := (firstMoveEngine tree).bestMove ()

theorem firstMoveSetup_isDetermined (threads : PerSide Nat) :
    firstMoveSetup.IsDetermined threads fun _ => firstMoveAnswer := by
  intro game side world hrun _
  refine ⟨firstMoveEngine (game.trees.get side), world, rfl, ?_⟩
  have hsearch : game.search firstMoveSetup side (firstMoveEngine (game.trees.get side))
      (max 1 (threads.get side)) world =
        ⟨none, (game.trees.get side).expand.head, game.abort.launch id, world⟩ := by
    unfold Game.search
    split <;> rfl
  rw [hsearch]
  refine ⟨rfl, hrun, rfl, rfl, fun _ _ _ => rfl, ?_⟩
  intro _ _ _ _
  cases side <;> rfl

/-- A side resigns when its win rate falls below three tenths. -/
def resigning : SelfPlayOptions Binary32 :=
  { (SelfPlayOptions.default : SelfPlayOptions Binary32) with resignPercentage := 30 }

/-- A game at its beginning. -/
def firstMoveGame : Game Unit Position Square Binary32 where
  options := ⟨resigning, resigning⟩
  opening := ⟨".../.../...", []⟩
  trees := .shared ⟨⟨⟨0, 0, 0⟩, []⟩, .empty⟩
  chess960 := false
  result := .undecided
  abort := .idle
  samples := []
  moveCount := 0
  totalNodes := 0
  marks := .start

/-- One thread for each side, and training samples are taken. -/
def firstMoveRequest : PlayRequest := ⟨⟨1, 1⟩, true, false⟩

theorem ofOpening_empty :
    GameRecord.ofOpening ".../.../..." ([] : List Square) =
      .ok (.ofStart (⟨0, 0, 0⟩ : Position)) := by
  have hstart : Board.ofFen ".../.../..." = .ok (⟨0, 0, 0⟩ : Position) := rfl
  unfold GameRecord.ofOpening
  rw [hstart]
  rfl

theorem begin_firstMoveGame :
    Game.begin ⟨resigning, resigning⟩ true ⟨".../.../...", []⟩ = .ok firstMoveGame := by
  unfold Game.begin GameTrees.ofOpening GameTree.ofOpening
  rw [if_neg (by decide), ofOpening_empty]
  rfl

end TicTacToe

open TicTacToe in
/-- White wins by first moves alone, and also if black may give up a game that it thinks lost. -/
theorem firstMove_resignation_keeps_result :
    Game.begin ⟨resigning, resigning⟩ true ⟨".../.../...", []⟩ = .ok firstMoveGame ∧
    ∃ (final after : Game Unit Position Square Binary32) (rounds : Nat),
      Game.playFor firstMoveSetup { firstMoveRequest with resignation := false } 10 firstMoveGame
        () = (.finished, final, ()) ∧
      Game.playFor firstMoveSetup { firstMoveRequest with resignation := true } rounds firstMoveGame
        () = (.finished, after, ()) ∧
      final.result = .won .white ∧ after.result = .won .white := by
  have hfacts : (Game.playFor firstMoveSetup { firstMoveRequest with resignation := false } 10
        firstMoveGame ()).1 = .finished ∧
      (Game.playFor firstMoveSetup { firstMoveRequest with resignation := false } 10
        firstMoveGame ()).2.1.result = .won .white ∧
      resigning.resignFraction.le (Game.playFor firstMoveSetup
        { firstMoveRequest with resignation := false } 10 firstMoveGame ()).2.1.worstEval =
          true := by decide +kernel
  generalize hplay : Game.playFor firstMoveSetup { firstMoveRequest with resignation := false } 10
    firstMoveGame () = run at hfacts
  obtain ⟨ending, final, ⟨⟩⟩ := run
  obtain ⟨hfinished, hresult, hwithin⟩ := hfacts
  simp only at hfinished hresult hwithin
  subst hfinished
  have hdetermined : firstMoveSetup.IsDetermined firstMoveRequest.threads fun _ => firstMoveAnswer :=
    firstMoveSetup_isDetermined _
  have hover : final.result.isTerminal = true := by rw [hresult]; rfl
  have hrun : firstMoveGame.abort.requested = false := rfl
  have hstyle : firstMoveGame.options.white.resignWdlStyle =
      firstMoveGame.options.black.resignWdlStyle := rfl
  have hpercentage : firstMoveGame.options.white.resignPercentage =
      firstMoveGame.options.black.resignPercentage := rfl
  have hlimit : if firstMoveGame.options.white.resignWdlStyle then
        final.worstEval.le (Scalar.one - firstMoveGame.options.white.resignFraction) = true
      else firstMoveGame.options.white.resignFraction.le final.worstEval = true := hwithin
  obtain ⟨rounds, after, ⟨⟩, hloud, hsame⟩ :=
    @resignation_keeps_result Unit Position Square _ _ _ firstMoveSetup firstMoveRequest
      (fun _ => firstMoveAnswer) hdetermined firstMoveGame final hrun hstyle hpercentage 10 () ()
      hplay hover hlimit ()
  exact ⟨begin_firstMoveGame, final, after, rounds, rfl, hloud, hresult, hsame.trans hresult⟩

end SelfPlay
