import SelfPlay.Match.Game

/-!
# Matches whose searches depend on the game alone

`MatchSetup.IsDetermined` says that every search succeeds, that nobody asks for a stop, and that
what a search finds out is a function of the tree it starts from, whatever the world is like. Then a
round is one of the three `Game.Turn`s: the rules end the game, an evaluation ends it, or a move is
made that the game alone determines.
-/

namespace SelfPlay

open SelfPlay.Numeric

variable {ω P M R : Type}

/-- What a search finds out. -/
structure SearchAnswer (M R : Type) where
  head : Node M
  eval : BestEval R
  /-- The best move once so many have been given up. -/
  best : Nat → M

/-- A world that comes after one in which a search has ended: so many best moves have been given up,
and reports of them were received. -/
inductive SearchEngine.GivenUp (engine : SearchEngine ω M R)
    (discarded : DiscardedMove M → ω → ω × Bool) (world : ω) : Nat → ω → Prop
  | start : GivenUp engine discarded world 0 world
  | tell {given : Nat} {now : ω} (message : DiscardedMove M) :
      GivenUp engine discarded world given now →
      GivenUp engine discarded world given (discarded message now).1
  | reset {given : Nat} {now : ω} : GivenUp engine discarded world given now →
      GivenUp engine discarded world (given + 1) (engine.resetBestMove now)

/-- An engine gives an answer in the world that its search has left, and in those that come after it
when best moves are given up; nobody asks for a stop. -/
structure SearchEngine.Gives (engine : SearchEngine ω M R) (callbacks : Callbacks ω M)
    (outcome : SearchOutcome ω M) (answer : SearchAnswer M R) : Prop where
  succeeds : outcome.fault = none
  goesOn : outcome.abort.requested = false
  head : outcome.head = answer.head
  eval : engine.bestEval outcome.world = answer.eval
  best : ∀ given now, engine.GivenUp callbacks.discarded outcome.world given now →
    engine.bestMove now = answer.best given
  silent : ∀ given now message, engine.GivenUp callbacks.discarded outcome.world given now →
    (callbacks.discarded message now).2 = false

namespace Game

theorem record_prepareTree (game : Game ω P M R) (side : Color) :
    ((game.prepareTree side).trees.get side).record = (game.trees.get side).record := by
  unfold prepareTree
  split
  · rfl
  · simp only [GameTrees.modify, GameTrees.get_set_self]
    rfl

theorem abort_prepareTree (game : Game ω P M R) (side : Color) :
    (game.prepareTree side).abort = game.abort := by
  unfold prepareTree
  split <;> rfl

/-- Preparing the tree touches nothing but the trees. -/
theorem prepareTree_eq (game : Game ω P M R) (side : Color) :
    game.prepareTree side = { game with trees := (game.prepareTree side).trees } := by
  unfold prepareTree
  split <;> rfl

theorem verdict_congr [Scalar R] {game other : Game ω P M R} {side : Color}
    (hoptions : other.options = game.options)
    (hrecord : (other.trees.get side).record = (game.trees.get side).record)
    (eval : BestEval R) : other.verdict side eval = game.verdict side eval := by
  unfold verdict moveNumber
  rw [hoptions, hrecord]

end Game

variable [BoardMove M] [DecidableEq M] [Board P M]

/-- The move that is played by the best moves that a search offers one after the other. -/
def GameTree.choice (tree : GameTree P M) (minimum : Nat) (best : Nat → M) : Nat → Nat → M
  | 0, given =>
    if tree.accepts minimum (best given) then best given
    else tree.mostVisited?.getD (best given)
  | retries + 1, given =>
    if tree.accepts minimum (best given) then best given
    else tree.choice minimum best retries (given + 1)

/-- Choosing a move depends on the best moves that are offered, not on what the world makes of
them. -/
theorem retrieveMove_of_gives {engine : SearchEngine ω M R} {callbacks : Callbacks ω M}
    {outcome : SearchOutcome ω M} {answer : SearchAnswer M R}
    (h : engine.Gives callbacks outcome answer) (tree : GameTree P M) (minimum : Nat)
    {discard : M → ω → ω × Bool} {message : M → DiscardedMove M}
    (hdiscard : ∀ move now, discard move now = callbacks.discarded (message move) now)
    (abort : AbortState ω) (retries : Nat) {given : Nat} {now : ω}
    (hnow : engine.GivenUp callbacks.discarded outcome.world given now) :
    ∃ last, retrieveMove engine tree minimum discard retries abort now =
      ⟨tree.choice minimum answer.best retries given, abort, last⟩ := by
  induction retries generalizing given now with
  | zero =>
    unfold retrieveMove GameTree.choice
    rw [h.best given now hnow]
    simp only
    split
    · exact ⟨now, rfl⟩
    · exact ⟨now, rfl⟩
  | succ retries ih =>
    unfold retrieveMove GameTree.choice
    rw [h.best given now hnow]
    simp only
    split
    · exact ⟨now, rfl⟩
    · split
      · exact ih hnow.reset
      · rw [hdiscard, h.silent given now _ hnow]
        exact ih (hnow.tell _).reset

variable [Scalar R]

/-- Every search of an open game that nobody has asked to stop succeeds, and what it finds out
depends on the side and its tree only. -/
def MatchSetup.IsDetermined (setup : MatchSetup ω P M R) (threads : PerSide Nat)
    (answer : Color → GameTree P M → SearchAnswer M R) : Prop :=
  ∀ (game : Game ω P M R) (side : Color) (world : ω), game.abort.requested = false →
    (game.trees.get side).record.history.result = .undecided →
    ∃ engine launched, setup.factory.create (game.context setup side) world = (.ok engine, launched) ∧
      engine.Gives (setup.players.get side).callbacks
        (game.search setup side engine (max 1 (threads.get side)) launched)
        (answer side (game.trees.get side))

namespace Game

variable (answer : Color → GameTree P M → SearchAnswer M R) (game : Game ω P M R)

/-- The rules' verdict on the game of the side to move. -/
def rulesResult : GameResult := (game.trees.get game.sideToMove).record.history.result

/-- The trees before the next search. -/
def readyTrees : GameTrees P M := (game.prepareTree game.sideToMove).trees

/-- What the next search finds out. -/
def nextAnswer : SearchAnswer M R := answer game.sideToMove (game.readyTrees.get game.sideToMove)

/-- The trees after the next search. -/
def searchedTrees : GameTrees P M :=
  game.readyTrees.modify game.sideToMove fun tree =>
    { tree with head := (game.nextAnswer answer).head }

/-- The next move. -/
def nextMove : M :=
  let tree := (game.searchedTrees answer).get game.sideToMove
  tree.choice (game.options.get game.sideToMove).minimumAllowedVisits
    (game.nextAnswer answer).best tree.head.edges.length 0

/-- The result that the next evaluation gives to the game, if it gives one. -/
def nextVerdict : Option GameResult := game.verdict game.sideToMove (game.nextAnswer answer).eval

/-- What a round makes of a game. -/
inductive Turn (resigns : Bool) (after : Game ω P M R) : Option PlayEnd → Prop
  | ended : game.rulesResult.isTerminal = true →
      after = { game with result := game.rulesResult } → Turn resigns after (some .finished)
  | resigned {result : GameResult} : game.rulesResult = .undecided → resigns = true →
      game.nextVerdict answer = some result → after.result = result →
      Turn resigns after (some .finished)
  | moved : game.rulesResult = .undecided → (resigns = true → game.nextVerdict answer = none) →
      after.result = game.result → after.options = game.options →
      after.abort.requested = game.abort.requested →
      after.trees = (game.searchedTrees answer).play (game.nextMove answer) →
      after.marks = game.marks.update game.sideToMove (game.nextAnswer answer).eval →
      Turn resigns after none

variable {answer game}

/-- The rest of a round ends the game by the evaluation, or plays the move that the answer
determines. -/
theorem conclude_of_gives {setup : MatchSetup ω P M R} {request : PlayRequest} {side : Color}
    {engine : SearchEngine ω M R} {outcome : SearchOutcome ω M} {found : SearchAnswer M R}
    (h : engine.Gives (setup.players.get side).callbacks outcome found) (game : Game ω P M R) :
    (∃ result after, request.resignation = true ∧ game.verdict side found.eval = some result ∧
      game.conclude setup request side engine outcome.world =
        (some .finished, after, outcome.world) ∧ after.result = result) ∨
    ∃ after last, (request.resignation = true → game.verdict side found.eval = none) ∧
      game.conclude setup request side engine outcome.world = (none, after, last) ∧
      after.result = game.result ∧ after.options = game.options ∧ after.abort = game.abort ∧
      after.trees = game.trees.play ((game.trees.get side).choice
        (game.options.get side).minimumAllowedVisits found.best
        (game.trees.get side).head.edges.length 0) ∧
      after.marks = game.marks.update side found.eval := by
  have hsampled : ∃ samples, (if request.training then
      game.addSample setup side (engine.historyFill outcome.world)
        (engine.bestEval outcome.world) else game) = { game with samples := samples } := by
    split
    · exact ⟨_, rfl⟩
    · exact ⟨game.samples, rfl⟩
  obtain ⟨samples, hsampled⟩ := hsampled
  let noted := ({ game with samples := samples } : Game ω P M R).note side found.eval
  let move := (game.trees.get side).choice (game.options.get side).minimumAllowedVisits found.best
    (game.trees.get side).head.edges.length 0
  obtain ⟨last, hmove⟩ : ∃ last, noted.chooseMove setup side engine outcome.world =
      ⟨move, game.abort, last⟩ :=
    retrieveMove_of_gives h _ _ (fun _ _ => rfl) _ _ .start
  unfold conclude
  simp only
  rw [hsampled, h.eval]
  cases hgiven : (if request.resignation then noted.verdict side found.eval else none) with
  | some result =>
    rw [Option.ite_none_right_eq_some] at hgiven
    exact Or.inl ⟨result, _, hgiven.1, hgiven.2, rfl, rfl⟩
  | none =>
    have hnone : request.resignation = true → game.verdict side found.eval = none := by
      intro hresigns
      rw [if_pos hresigns] at hgiven
      exact hgiven
    refine Or.inr ⟨{ noted with trees := game.trees.play move, abort := game.abort }, last, hnone,
      ?_, rfl, rfl, rfl, rfl, rfl⟩
    rw [hmove]
    rfl

/-- A search that succeeds puts what it has found into the side's tree and goes on. -/
theorem runEngine_of_gives {setup : MatchSetup ω P M R} {request : PlayRequest} {side : Color}
    {engine : SearchEngine ω M R} {found : SearchAnswer M R} {world : ω} {game : Game ω P M R}
    (h : engine.Gives (setup.players.get side).callbacks
      (game.search setup side engine (max 1 (request.threads.get side)) world) found) :
    ∃ landed : Game ω P M R, landed.options = game.options ∧ landed.result = game.result ∧
      landed.abort.requested = false ∧ landed.marks = game.marks ∧
      landed.trees = game.trees.modify side (fun tree => { tree with head := found.head }) ∧
      game.runEngine setup request side engine world = landed.conclude setup request side engine
        (game.search setup side engine (max 1 (request.threads.get side)) world).world := by
  unfold runEngine
  generalize game.search setup side engine (max 1 (request.threads.get side)) world = outcome at h ⊢
  have hgoesOn : ((game.land side outcome).count (engine.playouts outcome.world)).abort.requested =
      false := h.goesOn
  have htrees : (game.land side outcome).trees =
      game.trees.modify side (fun tree => { tree with head := found.head }) := by
    rw [← h.head]
    rfl
  refine ⟨(game.land side outcome).count (engine.playouts outcome.world), rfl, rfl, hgoesOn, rfl,
    htrees, ?_⟩
  simp only
  rw [h.succeeds]
  simp only
  rw [if_neg (Bool.eq_false_iff.mp hgoesOn)]

/-- A game that the rules have decided is asked about nothing else. -/
theorem round_of_isTerminal (setup : MatchSetup ω P M R) (request : PlayRequest)
    {game : Game ω P M R} (h : game.rulesResult.isTerminal = true) (world : ω) :
    game.round setup request world =
      (some .finished, { game with result := game.rulesResult }, world) := if_pos h

/-- The round of a game that goes on is that of its engine. -/
theorem round_of_create {setup : MatchSetup ω P M R} {request : PlayRequest}
    {game : Game ω P M R} (hopen : game.rulesResult = .undecided)
    (hrun : game.abort.requested = false) {engine : SearchEngine ω M R} {world launched : ω}
    (hcreate : setup.factory.create
      ((game.prepareTree game.sideToMove).context setup game.sideToMove) world =
        (.ok engine, launched)) :
    game.round setup request world =
      (game.prepareTree game.sideToMove).runEngine setup request game.sideToMove engine launched := by
  have hrules : (game.trees.get game.sideToMove).record.history.result = .undecided := hopen
  have hready : (game.prepareTree game.sideToMove).abort.requested = false := by
    rw [abort_prepareTree, hrun]
  unfold round
  simp only
  rw [hrules, if_neg (by decide), hready, if_neg Bool.false_ne_true, hcreate]

/-- A determined set-up takes each round one of the three ways. -/
theorem turn_round {setup : MatchSetup ω P M R} {request : PlayRequest}
    (hdetermined : setup.IsDetermined request.threads answer) {game : Game ω P M R}
    (hrun : game.abort.requested = false) (world : ω) :
    game.Turn answer request.resignation (game.round setup request world).2.1
      (game.round setup request world).1 := by
  by_cases hrules : game.rulesResult.isTerminal = true
  · rw [round_of_isTerminal setup request hrules]
    exact .ended hrules rfl
  · have hopen : game.rulesResult = .undecided := GameResult.eq_undecided_of_not_isTerminal hrules
    have hready : (game.prepareTree game.sideToMove).abort.requested = false := by
      rw [abort_prepareTree, hrun]
    have hstill : ((game.prepareTree game.sideToMove).trees.get
        game.sideToMove).record.history.result = .undecided := by
      rw [record_prepareTree]
      exact hopen
    obtain ⟨engine, launched, hcreate, hgives⟩ :=
      hdetermined (game.prepareTree game.sideToMove) game.sideToMove world hready hstill
    obtain ⟨landed, hoptions, hresult, habort, hmarks, htrees, hrest⟩ := runEngine_of_gives hgives
    have hsearched : landed.trees = game.searchedTrees answer := htrees
    rw [prepareTree_eq] at hoptions hresult hmarks
    have hsame : landed.options = game.options := hoptions
    have hverdict : landed.verdict game.sideToMove (game.nextAnswer answer).eval =
        game.nextVerdict answer := by
      refine verdict_congr hsame ?_ _
      rw [htrees, GameTrees.modify, GameTrees.get_set_self]
      exact record_prepareTree game game.sideToMove
    rw [round_of_create hopen hrun hcreate, hrest]
    rcases conclude_of_gives hgives landed with
      ⟨result, after, hresigns, hgiven, hconclude, hafter⟩ |
      ⟨after, last, hnone, hconclude, hafter, hoptions', habort', htrees', hmarks'⟩
    · rw [hconclude]
      exact .resigned hopen hresigns (hverdict.symm.trans hgiven) hafter
    · rw [hconclude]
      refine .moved hopen ?_ (hafter.trans hresult) (hoptions'.trans hsame) ?_ ?_ ?_
      · intro hresigns
        exact hverdict.symm.trans (hnone hresigns)
      · rw [habort', habort, hrun]
      · rw [htrees', hsearched, hsame]
        rfl
      · rw [hmarks', hmarks]
        rfl

theorem turn_of_round_eq {setup : MatchSetup ω P M R} {request : PlayRequest}
    (hdetermined : setup.IsDetermined request.threads answer) {game after : Game ω P M R}
    (hrun : game.abort.requested = false) {world last : ω} {ending : Option PlayEnd}
    (h : game.round setup request world = (ending, after, last)) :
    game.Turn answer request.resignation after ending := by
  have hturn := turn_round hdetermined hrun world
  rw [h] at hturn
  exact hturn

theorem roundsFor_of_round_eq_some {setup : MatchSetup ω P M R} {request : PlayRequest}
    {game after : Game ω P M R} {world last : ω} {ending : PlayEnd} (rounds : Nat)
    (h : game.round setup request world = (some ending, after, last)) :
    roundsFor setup request (rounds + 1) game world = (ending, after, last) := by
  rw [roundsFor, h]

theorem roundsFor_of_round_eq_none {setup : MatchSetup ω P M R} {request : PlayRequest}
    {game after : Game ω P M R} {world last : ω} (rounds : Nat)
    (h : game.round setup request world = (none, after, last)) :
    roundsFor setup request (rounds + 1) game world =
      roundsFor setup request rounds after last := by
  rw [roundsFor, h]

end Game

end SelfPlay
