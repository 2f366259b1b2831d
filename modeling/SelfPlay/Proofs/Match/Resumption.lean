import SelfPlay.Proofs.Match.Reach
import SelfPlay.Proofs.Match.Statistic
import SelfPlay.Proofs.Repetition

/-!
# A failed search leaves the game resumable

A search fails when its engine is not made or when its run ends with a fault. Either way the round
comes to its end before anything is noted about the game (`resumable_of_searchFails`); only the
searched tree may have grown. A side that does not reuse its tree throws that away at the next
attempt, so the next round is the one that failed (`round_of_resumable`), and play goes on as if
nothing had happened, provided that what a search finds out depends on the game alone.

A stop that was asked for during the failed search is remembered, so that such a game is not
searched again; the second part does not speak of it.
-/

namespace SelfPlay

open SelfPlay.Numeric

variable {ω P M R : Type}

/-- Two searches have found out the same: they leave the same tree, the same wish to stop and the
same answers, also when best moves are given up. -/
structure SearchEngine.FoundSame (discarded : DiscardedMove M → ω → ω × Bool)
    (engine engine' : SearchEngine ω M R) (outcome outcome' : SearchOutcome ω M) : Prop where
  head : outcome'.head = outcome.head
  requested : outcome'.abort.requested = outcome.abort.requested
  eval : engine'.bestEval outcome'.world = engine.bestEval outcome.world
  playouts : engine'.playouts outcome'.world = engine.playouts outcome.world
  fill : engine'.historyFill outcome'.world = engine.historyFill outcome.world
  best : ∀ given now now', engine.GivenUp discarded outcome.world given now →
    engine'.GivenUp discarded outcome'.world given now' → engine'.bestMove now' = engine.bestMove now
  asks : ∀ given now now' message, engine.GivenUp discarded outcome.world given now →
    engine'.GivenUp discarded outcome'.world given now' →
    (discarded message now').2 = (discarded message now).2

namespace GameTrees

theorem modify_modify (trees : GameTrees P M) (side : Color) (f g : GameTree P M → GameTree P M) :
    (trees.modify side f).modify side g = trees.modify side (g ∘ f) := by
  cases trees with
  | shared => rfl
  | independent trees => cases side <;> rfl

theorem modify_head_self (trees : GameTrees P M) (side : Color) :
    (trees.modify side fun tree => { tree with head := (trees.get side).head }) = trees := by
  cases trees with
  | shared => rfl
  | independent trees => cases side <;> rfl

end GameTrees

namespace Game

theorem exists_head_prepareTree (game : Game ω P M R) (side : Color) :
    ∃ head, (game.prepareTree side).trees =
      game.trees.modify side fun tree => { tree with head := head } := by
  unfold prepareTree
  split
  · exact ⟨_, (GameTrees.modify_head_self game.trees side).symm⟩
  · exact ⟨.empty, rfl⟩

/-- A search wipes out what preparing its tree did. -/
theorem land_prepareTree (game : Game ω P M R) (side : Color) (outcome : SearchOutcome ω M) :
    (game.prepareTree side).land side outcome = { game with
      trees := game.trees.modify side fun tree => { tree with head := outcome.head }
      abort := outcome.abort.land } := by
  obtain ⟨head, htrees⟩ := exists_head_prepareTree game side
  rw [prepareTree_eq, htrees, land, GameTrees.modify_modify]
  rfl

section

variable {side : Color} {engine engine' : SearchEngine ω M R} {outcome outcome' : SearchOutcome ω M}
  {discarded : DiscardedMove M → ω → ω × Bool}

theorem land_of_foundSame (h : engine.FoundSame discarded engine' outcome outcome')
    (game : Game ω P M R) : game.land side outcome' = game.land side outcome := by
  unfold land AbortState.land
  rw [h.head, h.requested]

theorem searched_of_foundSame [BoardMove M] [Board P M] [Scalar R] {setup : MatchSetup ω P M R}
    {request : PlayRequest} (h : engine.FoundSame discarded engine' outcome outcome')
    (game : Game ω P M R) :
    game.searched setup request side engine' outcome' =
      game.searched setup request side engine outcome := by
  rw [searched_eq, searched_eq, land_of_foundSame h, h.playouts, h.fill, h.eval]

end

variable [BoardMove M] [Board P M] {setup : MatchSetup ω P M R} {request : PlayRequest}

/-- The next search of a game fails, its engine being refused or its run ending with a fault. -/
inductive SearchFails (setup : MatchSetup ω P M R) (request : PlayRequest) (game : Game ω P M R)
    (world : ω) (fault : Fault) : Prop
  | refused {last : ω} : game.rulesResult = .undecided → game.abort.requested = false →
      setup.factory.create ((game.prepareTree game.sideToMove).context setup game.sideToMove)
        world = (.error fault, last) → SearchFails setup request game world fault
  | broken {engine : SearchEngine ω M R} {launched : ω} :
      game.rulesResult = .undecided → game.abort.requested = false →
      setup.factory.create ((game.prepareTree game.sideToMove).context setup game.sideToMove)
        world = (.ok engine, launched) →
      ((game.prepareTree game.sideToMove).search setup game.sideToMove engine
        (max 1 (request.threads.get game.sideToMove)) launched).fault = some fault →
      SearchFails setup request game world fault

theorem SearchFails.begun {game : Game ω P M R} {world : ω} {fault : Fault}
    (h : game.SearchFails setup request world fault) :
    game.rulesResult = .undecided ∧ game.abort.requested = false := by
  cases h with
  | refused hopen hrun => exact ⟨hopen, hrun⟩
  | broken hopen hrun => exact ⟨hopen, hrun⟩

/-- What a failed search leaves: the game as it was, but for the tree of the side that searched. -/
structure Resumable (game after : Game ω P M R) : Prop where
  settings : after.settings = game.settings
  result : after.result = game.result
  moves : after.moves = game.moves
  records : ∀ side, (after.trees.get side).record = (game.trees.get side).record
  trees : ∃ head, after.trees =
    game.trees.modify game.sideToMove fun tree => { tree with head := head }
  samples : after.samples = game.samples
  moveCount : after.moveCount = game.moveCount
  totalNodes : after.totalNodes = game.totalNodes
  marks : after.marks = game.marks
  landed : after.abort.inFlight = none

theorem resumable_of_eq {game after : Game ω P M R} {head : Node M} {abort : AbortState ω}
    (hafter : after = { game with
      trees := game.trees.modify game.sideToMove fun tree => { tree with head := head }
      abort := abort }) (hlanded : abort.inFlight = none) : game.Resumable after := by
  subst hafter
  have hrecords (side : Color) : ((game.trees.modify game.sideToMove fun tree =>
      { tree with head := head }).get side).record = (game.trees.get side).record :=
    GameTrees.record_get_modify _ _ _ fun _ => rfl
  exact ⟨rfl, rfl, moves_congr rfl (hrecords .white), hrecords, ⟨head, rfl⟩, rfl, rfl, rfl, rfl,
    hlanded⟩

theorem Resumable.eq {game after : Game ω P M R} (h : game.Resumable after) :
    after = { game with trees := after.trees, abort := after.abort } := by
  obtain ⟨hsettings, hresult, -, -, -, hsamples, hmoveCount, htotalNodes, hmarks, -⟩ := h
  cases after
  cases game
  cases hsettings
  cases hresult
  cases hsamples
  cases hmoveCount
  cases htotalNodes
  cases hmarks
  rfl

theorem Resumable.sideToMove {game after : Game ω P M R} (h : game.Resumable after) :
    after.sideToMove = game.sideToMove :=
  congrArg GameRecord.sideToMove (h.records .white)

/-- What a failed search has left in its tree is thrown away before the next one. -/
theorem Resumable.prepareTree {game after : Game ω P M R} (h : game.Resumable after)
    (habort : after.abort = game.abort)
    (hforgets : (game.options.get game.sideToMove).reuseTree = false) :
    after.prepareTree game.sideToMove = game.prepareTree game.sideToMove := by
  obtain ⟨head, htrees⟩ := h.trees
  have hafter := h.eq
  rw [htrees, habort] at hafter
  have hneg : ¬(game.options.get game.sideToMove).reuseTree = true := Bool.eq_false_iff.mp hforgets
  rw [hafter]
  unfold Game.prepareTree
  rw [if_neg hneg, if_neg hneg, GameTrees.modify_modify]
  rfl

end Game

variable [BoardMove M] [DecidableEq M] [Board P M]

/-- Searches of one game that succeed find out the same, in whatever worlds they begin. -/
def MatchSetup.IsRepeatable (setup : MatchSetup ω P M R) (threads : PerSide Nat) : Prop :=
  ∀ (game : Game ω P M R) (side : Color) (engine engine' : SearchEngine ω M R)
    (world world' launched launched' : ω), game.abort.requested = false →
    (game.trees.get side).record.history.result = .undecided →
    setup.factory.create (game.context setup side) world = (.ok engine, launched) →
    setup.factory.create (game.context setup side) world' = (.ok engine', launched') →
    (game.search setup side engine (max 1 (threads.get side)) launched).fault = none →
    (game.search setup side engine' (max 1 (threads.get side)) launched').fault = none →
    engine.FoundSame (setup.players.get side).callbacks.discarded engine'
      (game.search setup side engine (max 1 (threads.get side)) launched)
      (game.search setup side engine' (max 1 (threads.get side)) launched')

/-- What two searches have found alike leads to the same move. -/
theorem retrieveMove_of_foundSame {callbacks : Callbacks ω M} {engine engine' : SearchEngine ω M R}
    {outcome outcome' : SearchOutcome ω M}
    (h : engine.FoundSame callbacks.discarded engine' outcome outcome') (tree : GameTree P M)
    (minimum : Nat) {discard : M → ω → ω × Bool} {message : M → DiscardedMove M}
    (hdiscard : ∀ move now, discard move now = callbacks.discarded (message move) now)
    (retries : Nat) (asked : Bool) {given : Nat} {now now' : ω}
    (hnow : engine.GivenUp callbacks.discarded outcome.world given now)
    (hnow' : engine'.GivenUp callbacks.discarded outcome'.world given now') :
    ∃ move requested last last',
      retrieveMove engine tree minimum discard retries ⟨asked, none⟩ now =
        ⟨move, ⟨requested, none⟩, last⟩ ∧
      retrieveMove engine' tree minimum discard retries ⟨asked, none⟩ now' =
        ⟨move, ⟨requested, none⟩, last'⟩ := by
  induction retries generalizing asked given now now' with
  | zero =>
    have hbest := h.best given now now' hnow hnow'
    cases haccepts : tree.accepts minimum (engine.bestMove now) with
    | true =>
      rw [retrieveMove_of_accepts haccepts, retrieveMove_of_accepts (hbest ▸ haccepts), hbest]
      exact ⟨_, _, _, _, rfl, rfl⟩
    | false =>
      rw [retrieveMove_zero haccepts, retrieveMove_zero (hbest ▸ haccepts), hbest]
      exact ⟨_, _, _, _, rfl, rfl⟩
  | succ retries ih =>
    have hbest := h.best given now now' hnow hnow'
    cases haccepts : tree.accepts minimum (engine.bestMove now) with
    | true =>
      rw [retrieveMove_of_accepts haccepts, retrieveMove_of_accepts (hbest ▸ haccepts), hbest]
      exact ⟨_, _, _, _, rfl, rfl⟩
    | false =>
      cases hended : tree.isEndedBy (engine.bestMove now) with
      | true =>
        rw [retrieveMove_of_isEndedBy haccepts hended,
          retrieveMove_of_isEndedBy (hbest ▸ haccepts) (hbest ▸ hended)]
        exact ih asked hnow.reset hnow'.reset
      | false =>
        have hasks := h.asks given now now' (message (engine.bestMove now)) hnow hnow'
        rw [retrieveMove_of_not_isEndedBy haccepts hended,
          retrieveMove_of_not_isEndedBy (hbest ▸ haccepts) (hbest ▸ hended), hbest]
        simp only [hdiscard, AbortState.requestIf_none, hasks]
        exact ih _ (hnow.tell _).reset (hnow'.tell _).reset

namespace Game

variable [Scalar R] {setup : MatchSetup ω P M R} {request : PlayRequest}

/-- A failed search gives the engine's error and leaves the game resumable. -/
theorem resumable_of_searchFails {game : Game ω P M R} {world : ω} {fault : Fault}
    (h : game.SearchFails setup request world fault) (hidle : game.abort.inFlight = none) :
    ∃ after last, game.round setup request world = (some (.failed (.engine fault)), after, last) ∧
      game.Resumable after := by
  cases h with
  | @refused last hopen hrun hcreate =>
    obtain ⟨head, htrees⟩ := exists_head_prepareTree game game.sideToMove
    have hafter : game.prepareTree game.sideToMove = { game with
        trees := game.trees.modify game.sideToMove fun tree => { tree with head := head }
        abort := game.abort } := by
      rw [prepareTree_eq, htrees]
    exact ⟨_, last, round_of_create_error request hopen hrun hcreate, resumable_of_eq hafter hidle⟩
  | @broken engine launched hopen hrun hcreate hfault =>
    have hround : game.round setup request world = _ := round_of_create hopen hrun hcreate
    unfold runEngine at hround
    simp only [hfault] at hround
    exact ⟨_, _, hround, resumable_of_eq (land_prepareTree game _ _) rfl⟩

/-- Unless its side reuses its tree, what a failed search leaves makes the round that failed. -/
theorem round_of_resumable {game after : Game ω P M R} (h : game.Resumable after)
    (hopen : game.rulesResult = .undecided) (hrun : game.abort.requested = false)
    (habort : after.abort = game.abort)
    (hforgets : (game.options.get game.sideToMove).reuseTree = false) (world : ω) :
    after.round setup request world = game.round setup request world := by
  have hside := h.sideToMove
  have hopen' : after.rulesResult = .undecided := by
    unfold rulesResult
    rw [hside, h.records]
    exact hopen
  have hrun' : after.abort.requested = false := by rw [habort, hrun]
  have hready := h.prepareTree habort hforgets
  obtain ⟨made, launched, hcreate⟩ : ∃ made launched, setup.factory.create
    ((game.prepareTree game.sideToMove).context setup game.sideToMove) world =
      (made, launched) := ⟨_, _, rfl⟩
  have hcreate' : setup.factory.create
      ((after.prepareTree after.sideToMove).context setup after.sideToMove) world =
        (made, launched) := by
    rw [hside, hready, hcreate]
  cases made with
  | error fault =>
    rw [round_of_create_error request hopen hrun hcreate,
      round_of_create_error request hopen' hrun' hcreate', hside, hready]
  | ok engine =>
    rw [round_of_create hopen hrun hcreate, round_of_create hopen' hrun' hcreate', hside, hready]

section

variable {side : Color} {engine engine' : SearchEngine ω M R} {outcome outcome' : SearchOutcome ω M}

/-- Searches that have found the same lead to the same move, or to the same end. -/
theorem conclude_of_foundSame (request : PlayRequest) (game : Game ω P M R)
    (h : engine.FoundSame (setup.players.get side).callbacks.discarded engine' outcome outcome') :
    ∃ ending next last last',
      ((game.land side outcome).count (engine.playouts outcome.world)).conclude setup request side
        engine outcome.world = (ending, next, last) ∧
      ((game.land side outcome').count (engine'.playouts outcome'.world)).conclude setup request side
        engine' outcome'.world = (ending, next, last') := by
  rw [conclude_eq, conclude_eq, h.eval, searched_of_foundSame h]
  split
  · exact ⟨_, _, _, _, rfl, rfl⟩
  · obtain ⟨requested, habort⟩ : ∃ requested,
        (game.searched setup request side engine outcome).abort = ⟨requested, none⟩ :=
      ⟨outcome.abort.requested, by rw [searched_eq]; rfl⟩
    generalize game.searched setup request side engine outcome = noted at habort ⊢
    let discard (move : M) := (setup.players.get side).callbacks.discarded (noted.discardReport move)
    have hdiscard (move : M) (now : ω) : discard move now =
        (setup.players.get side).callbacks.discarded (noted.discardReport move) now := rfl
    obtain ⟨move, asked, last, last', hchosen, hchosen'⟩ := retrieveMove_of_foundSame h
      (noted.trees.get side) (noted.options.get side).minimumAllowedVisits hdiscard
      (noted.trees.get side).head.edges.length requested .start .start
    rw [← habort] at hchosen hchosen'
    have hchoose : noted.chooseMove setup side engine outcome.world = _ := hchosen
    have hchoose' : noted.chooseMove setup side engine' outcome'.world = _ := hchosen'
    simp only [hchoose, hchoose']
    exact ⟨_, _, _, _, rfl, rfl⟩

theorem runEngine_of_foundSame (request : PlayRequest) {game : Game ω P M R} {launched launched' : ω}
    (houtcome : game.search setup side engine (max 1 (request.threads.get side)) launched = outcome)
    (houtcome' : game.search setup side engine' (max 1 (request.threads.get side)) launched' =
      outcome')
    (h : engine.FoundSame (setup.players.get side).callbacks.discarded engine' outcome outcome')
    (hfault : outcome.fault = none) (hfault' : outcome'.fault = none) :
    ∃ ending next last last',
      game.runEngine setup request side engine launched = (ending, next, last) ∧
      game.runEngine setup request side engine' launched' = (ending, next, last') := by
  have hland : (game.land side outcome').count (engine'.playouts outcome'.world) =
      (game.land side outcome).count (engine.playouts outcome.world) := by
    rw [land_of_foundSame h, h.playouts]
  obtain ⟨ending, next, last, last', hconclude, hconclude'⟩ :=
    conclude_of_foundSame request game h
  unfold runEngine
  simp only [houtcome, houtcome', hfault, hfault', hconclude, hconclude']
  rw [hland]
  split
  · exact ⟨_, _, _, _, rfl, rfl⟩
  · exact ⟨ending, next, last, last', rfl, rfl⟩

end

/-- A round whose search has not failed. -/
theorem exists_search_of_round {game next : Game ω P M R} {world last : ω}
    {ending : Option PlayEnd} (hopen : game.rulesResult = .undecided)
    (hrun : game.abort.requested = false)
    (hround : game.round setup request world = (ending, next, last))
    (hsound : ∀ error, ending ≠ some (.failed error)) :
    ∃ engine launched,
      setup.factory.create ((game.prepareTree game.sideToMove).context setup game.sideToMove)
        world = (.ok engine, launched) ∧
      ((game.prepareTree game.sideToMove).search setup game.sideToMove engine
        (max 1 (request.threads.get game.sideToMove)) launched).fault = none ∧
      (game.prepareTree game.sideToMove).runEngine setup request game.sideToMove engine launched =
        (ending, next, last) := by
  obtain ⟨made, launched, hcreate⟩ : ∃ made launched, setup.factory.create
    ((game.prepareTree game.sideToMove).context setup game.sideToMove) world =
      (made, launched) := ⟨_, _, rfl⟩
  cases made with
  | error fault =>
    rw [round_of_create_error request hopen hrun hcreate] at hround
    cases hround
    exact absurd rfl (hsound _)
  | ok engine =>
    rw [round_of_create hopen hrun hcreate] at hround
    refine ⟨engine, launched, hcreate, ?_, hround⟩
    rw [Option.eq_none_iff_forall_ne_some]
    intro fault hfault
    unfold runEngine at hround
    simp only [hfault] at hround
    cases hround
    exact hsound _ rfl

/-- Rounds of repeatable searches are repeatable. -/
theorem round_agrees (hrepeatable : setup.IsRepeatable request.threads)
    {game next next' : Game ω P M R} {world world' last last' : ω} {ending ending' : Option PlayEnd}
    (hround : game.round setup request world = (ending, next, last))
    (hround' : game.round setup request world' = (ending', next', last'))
    (hsound : ∀ error, ending ≠ some (.failed error))
    (hsound' : ∀ error, ending' ≠ some (.failed error)) : ending' = ending ∧ next' = next := by
  by_cases hover : game.rulesResult.isTerminal = true
  · rw [round_of_isTerminal setup request hover] at hround hround'
    cases hround
    cases hround'
    exact ⟨rfl, rfl⟩
  · have hopen := GameResult.eq_undecided_of_not_isTerminal hover
    cases hrun : game.abort.requested with
    | true =>
      rw [round_of_requested setup request hopen hrun] at hround hround'
      cases hround
      cases hround'
      exact ⟨rfl, rfl⟩
    | false =>
      have hready : (game.prepareTree game.sideToMove).abort.requested = false := by
        rw [abort_prepareTree, hrun]
      have hstill : ((game.prepareTree game.sideToMove).trees.get
          game.sideToMove).record.history.result = .undecided := by
        rw [record_prepareTree]
        exact hopen
      obtain ⟨engine, launched, hcreate, hfault, hengine⟩ :=
        exists_search_of_round hopen hrun hround hsound
      obtain ⟨engine', launched', hcreate', hfault', hengine'⟩ :=
        exists_search_of_round hopen hrun hround' hsound'
      have hsame := hrepeatable _ _ engine engine' world world' launched launched' hready hstill
        hcreate hcreate' hfault hfault'
      obtain ⟨both, after, then₁, then₂, hone, htwo⟩ :=
        runEngine_of_foundSame request rfl rfl hsame hfault hfault'
      rw [hone] at hengine
      rw [htwo] at hengine'
      cases hengine
      cases hengine'
      exact ⟨rfl, rfl⟩

theorem roundsFor_eq_runFor (setup : MatchSetup ω P M R) (request : PlayRequest) (rounds : Nat)
    (game : Game ω P M R) (world : ω) :
    roundsFor setup request rounds game world =
      runFor (fun (game : Game ω P M R) world => game.round setup request world) rounds game
        world := by
  induction rounds generalizing game world with
  | zero => rfl
  | succ rounds ih =>
    unfold roundsFor runFor
    split
    · rename_i hround
      simp only [hround]
    · rename_i hround
      simp only [hround]
      exact ih _ _

theorem ne_cutShort_of_round {game next : Game ω P M R} {world last : ω} {ending : PlayEnd}
    (hround : game.round setup request world = (some ending, next, last)) :
    ending ≠ .cutShort := by
  obtain ⟨entries, hprogress, -⟩ := round_journaled setup request world [] hround
  rintro rfl
  cases hprogress with
  | searched _ _ _ _ _ _ _ hlanding => cases hlanding

theorem repeats_round (hrepeatable : setup.IsRepeatable request.threads) :
    Repeats (fun (game : Game ω P M R) world => game.round setup request world) (fun _ => False)
      (fun game other => ∀ world,
        other.round setup request world = game.round setup request world) where
  refl _ _ := rfl
  rests := by
    rintro state next ending ⟨world, last, hround, -⟩
    exact ne_cutShort_of_round hround
  stays hstopped := hstopped.elim
  agrees := by
    rintro state other next next' ending ending' hsame ⟨world, last, hround, hquiet⟩
      ⟨world', last', hround', hquiet'⟩
    have hsound : ∀ error, ending ≠ some (.failed error) :=
      fun error hfailed => hquiet (.inl ⟨error, hfailed⟩)
    have hsound' : ∀ error, ending' ≠ some (.failed error) :=
      fun error hfailed => hquiet' (.inl ⟨error, hfailed⟩)
    exact round_agrees hrepeatable hround ((hsame world').symm.trans hround') hsound hsound'

/-- Where play was cut short the game is still open, nothing is in flight, and play goes on. -/
theorem roundsFor_of_cutShort {rounds : Nat} {game begun : Game ω P M R} {world now : ω}
    (hopen : game.result = .undecided) (hidle : game.abort.inFlight = none)
    (hplay : roundsFor setup request rounds game world = (.cutShort, begun, now)) :
    (begun.result = .undecided ∧ begun.abort.inFlight = none) ∧
      ∀ more, roundsFor setup request (rounds + more) game world =
        roundsFor setup request more begun now := by
  simp only [roundsFor_eq_runFor] at hplay ⊢
  refine runFor_of_cutShort
    (fun game : Game ω P M R => game.result = .undecided ∧ game.abort.inFlight = none)
    ne_cutShort_of_round ?_ hplay ⟨hopen, hidle⟩
  rintro state next world last hround ⟨hopen, hidle⟩
  obtain ⟨entries, hprogress, -⟩ := round_journaled setup request world [] hround
  exact ⟨(result_of_progress hprogress).trans hopen, inFlight_of_progress hidle hprogress⟩

theorem playFor_of_undecided {game : Game ω P M R} (h : game.result = .undecided) (rounds : Nat)
    (world : ω) :
    playFor setup request rounds game world = roundsFor setup request rounds game world := by
  unfold playFor
  rw [h]
  exact if_neg (by decide)

theorem undecided_of_cutShort {rounds : Nat} {game begun : Game ω P M R} {world now : ω}
    (h : playFor setup request rounds game world = (.cutShort, begun, now)) :
    game.result = .undecided := by
  apply GameResult.eq_undecided_of_not_isTerminal
  intro hover
  unfold playFor at h
  rw [if_pos hover] at h
  cases h

/-- Play from a game that makes the round at which other play was cut short ends as that would end. -/
theorem playFor_of_same (hrepeatable : setup.IsRepeatable request.threads)
    {before rounds again : Nat} {game begun other final : Game ω P M R}
    {world now world' last' : ω}
    (hbefore : playFor setup request before game world = (.cutShort, begun, now))
    (hsame : ∀ world, other.round setup request world = begun.round setup request world)
    (hopen : other.result = .undecided)
    (hplay : playFor setup request rounds game world' = (.finished, final, last'))
    (hle : rounds ≤ again) (world'' : ω) :
    (∃ last'', playFor setup request again other world'' = (.finished, final, last'')) ∨
      ∃ error stuck last'', playFor setup request again other world'' =
        (.failed error, stuck, last'') := by
  have hfirst := undecided_of_cutShort hbefore
  obtain ⟨ending, reached, last'', hagain⟩ : ∃ ending reached last'',
    playFor setup request again other world'' = (ending, reached, last'') := ⟨_, _, _, rfl⟩
  rw [playFor_of_undecided hfirst, roundsFor_eq_runFor] at hbefore hplay
  rw [hagain]
  rw [playFor_of_undecided hopen, roundsFor_eq_runFor] at hagain
  rcases (repeats_round hrepeatable).resumes hbefore not_false hplay not_false hsame hle hagain with
    ⟨rfl, rfl⟩ | ⟨error, hfailed⟩ | hstopped
  · exact .inl ⟨last'', rfl⟩
  · cases hfailed
    exact .inr ⟨error, reached, last'', rfl⟩
  · exact hstopped.elim

end Game

/-- **A failed search leaves the game resumable.** Whatever has been done to a game, when a search
fails, play gives the engine's error and leaves the game as it was when that search was begun, but
for the tree that was searched. If the side does not reuse its tree, nobody has asked to stop, and
searches that succeed in the same game find out the same, then playing on ends as play would have
ended without the failure, unless another search fails. -/
theorem failed_search_resumable [Scalar R] {setup : MatchSetup ω P M R}
    {options : PerSide (SelfPlayOptions R)} {shared : Bool} {opening : Opening M}
    {start game begun : Game ω P M R} {world entered now : ω} {acts : List (Act ω)}
    (hstart : Game.begin options shared opening = .ok start)
    (hgame : start.perform setup world acts = (game, entered)) (request : PlayRequest)
    {before : Nat} (hbefore : Game.playFor setup request before game entered = (.cutShort, begun, now))
    {fault : Fault} (hfails : begun.SearchFails setup request now fault) :
    ∃ after last,
      (∀ rounds, before < rounds → Game.playFor setup request rounds game entered =
        (.failed (.engine fault), after, last)) ∧
      begun.Resumable after ∧
      ((begun.options.get begun.sideToMove).reuseTree = false → after.abort.requested = false →
        setup.IsRepeatable request.threads →
        ∀ rounds world' final last', Game.playFor setup request rounds game world' =
          (.finished, final, last') →
        ∀ again, rounds ≤ again → ∀ world'',
          (∃ last'', Game.playFor setup request again after world'' = (.finished, final, last'')) ∨
          ∃ error stuck last'', Game.playFor setup request again after world'' =
            (.failed error, stuck, last'')) := by
  have hopen := Game.undecided_of_cutShort hbefore
  have hidle : game.abort.inFlight = none := by
    have hstill := Game.inFlight_perform setup world
      (congrArg AbortState.inFlight (Game.fresh_of_begin hstart).1.idle) acts
    rw [hgame] at hstill
    exact hstill
  have hrounds := hbefore
  rw [Game.playFor_of_undecided hopen] at hrounds
  obtain ⟨⟨hstill, hbegun⟩, hadd⟩ := Game.roundsFor_of_cutShort hopen hidle hrounds
  obtain ⟨after, last, hround, hresumable⟩ := Game.resumable_of_searchFails hfails hbegun
  refine ⟨after, last, ?_, hresumable, ?_⟩
  · intro rounds hlt
    obtain ⟨more, rfl⟩ : ∃ more, rounds = before + (more + 1) := ⟨rounds - before - 1, by omega⟩
    rw [Game.playFor_of_undecided hopen, hadd, Game.roundsFor_of_round_eq_some more hround]
  · intro hforgets hquiet hrepeatable rounds world' final last' hplay again hle world''
    obtain ⟨hrules, hrun⟩ := hfails.begun
    -- nobody asked to stop before the search or during it, so both are at rest
    have habort : after.abort = begun.abort := by
      have hone : after.abort = ⟨after.abort.requested, none⟩ := by rw [← hresumable.landed]
      have htwo : begun.abort = ⟨begun.abort.requested, none⟩ := by rw [← hbegun]
      rw [hone, htwo, hquiet, hrun]
    have hsame : ∀ world, after.round setup request world = begun.round setup request world :=
      Game.round_of_resumable hresumable hrules hrun habort hforgets
    exact Game.playFor_of_same hrepeatable hbefore hsame (hresumable.result.trans hstill) hplay hle
      world''

namespace TicTacToe

/-- An engine that offers the first legal move, in a world that counts down to a search that
fails. -/
def flakyEngine (tree : GameTree Position Square) : SearchEngine Nat Square Binary32 where
  run _ := .look fun left => .change (· - 1)
    (.finish (if left = 1 then some (.ofMessage "no memory") else none) tree.expand.head)
  bestMove _ := (firstMoveEngine tree).bestMove ()
  bestEval _ := (firstMoveEngine tree).bestEval ()
  playouts _ := 1
  abort left := left
  resetBestMove left := left
  historyFill _ := .no

def flakySetup : MatchSetup Nat Position Square Binary32 where
  players := ⟨.ofNetwork (heuristicNetwork Nat), .ofNetwork (heuristicNetwork Nat)⟩
  factory := ⟨fun _ => [], fun context left => (.ok (flakyEngine context.tree), left)⟩

theorem begin_flakyGame :
    Game.begin ⟨resigning, resigning⟩ true ⟨".../.../...", []⟩ =
      .ok (firstMoveGame.inWorld Nat) :=
  Game.begin_eq_ok_iff.mpr ⟨rfl, _, ofOpening_empty, rfl⟩

theorem search_flakyEngine (game : Game Nat Position Square Binary32) (side : Color)
    (tree : GameTree Position Square) (threads left : Nat) :
    game.search flakySetup side (flakyEngine tree) threads left =
      ⟨if left = 1 then some (.ofMessage "no memory") else none, tree.expand.head,
        game.abort.launch id, left - 1⟩ := by
  unfold Game.search
  split <;> rfl

theorem flakySetup_isRepeatable (threads : PerSide Nat) : flakySetup.IsRepeatable threads := by
  intro game side engine engine' world world' launched launched' _ _ hcreate hcreate' _ _
  cases hcreate
  cases hcreate'
  rw [search_flakyEngine, search_flakyEngine]
  refine ⟨rfl, rfl, rfl, rfl, rfl, fun _ _ _ _ _ => rfl, ?_⟩
  cases side <;> exact fun _ _ _ _ _ _ => rfl

end TicTacToe

open TicTacToe in
/-- Black's first search fails when it has grown its tree. Taken up again, the game is won by white
as it would have been. -/
theorem flaky_search_resumable :
    ∃ begun after final : Game Nat Position Square Binary32,
      Game.playFor flakySetup firstMoveRequest 1 (firstMoveGame.inWorld Nat) 2 =
        (.cutShort, begun, 1) ∧
      begun.SearchFails flakySetup firstMoveRequest 1 (.ofMessage "no memory") ∧
      Game.playFor flakySetup firstMoveRequest 10 (firstMoveGame.inWorld Nat) 2 =
        (.failed (.engine (.ofMessage "no memory")), after, 0) ∧
      (after.trees.get .black).head.isExpanded = true ∧
      Game.playFor flakySetup firstMoveRequest 10 (firstMoveGame.inWorld Nat) 0 =
        (.finished, final, 0) ∧
      final.result = .won .white ∧
      ∃ last, Game.playFor flakySetup firstMoveRequest 10 after 0 = (.finished, final, last) := by
  have hfirst : (Game.playFor flakySetup firstMoveRequest 1 (firstMoveGame.inWorld Nat) 2).1 =
        .cutShort ∧
      (Game.playFor flakySetup firstMoveRequest 1 (firstMoveGame.inWorld Nat) 2).2.2 = 1 ∧
      (Game.playFor flakySetup firstMoveRequest 1 (firstMoveGame.inWorld Nat) 2).2.1.rulesResult =
        .undecided := by decide +kernel
  have hforgets : ((Game.playFor flakySetup firstMoveRequest 1 (firstMoveGame.inWorld Nat)
        2).2.1.options.get (Game.playFor flakySetup firstMoveRequest 1 (firstMoveGame.inWorld Nat)
          2).2.1.sideToMove).reuseTree = false ∧
      (Game.playFor flakySetup firstMoveRequest 1 (firstMoveGame.inWorld Nat)
        2).2.1.abort.requested = false := by decide +kernel
  have hfail : (Game.playFor flakySetup firstMoveRequest 10 (firstMoveGame.inWorld Nat) 2).2.2 = 0 ∧
      (Game.playFor flakySetup firstMoveRequest 10 (firstMoveGame.inWorld Nat)
        2).2.1.abort.requested = false ∧
      ((Game.playFor flakySetup firstMoveRequest 10 (firstMoveGame.inWorld Nat)
        2).2.1.trees.get .black).head.isExpanded = true ∧
      (Game.playFor flakySetup firstMoveRequest 10 (Game.playFor flakySetup firstMoveRequest 10
        (firstMoveGame.inWorld Nat) 2).2.1 0).1 = .finished := by decide +kernel
  have hwhole : (Game.playFor flakySetup firstMoveRequest 10 (firstMoveGame.inWorld Nat) 0).1 =
        .finished ∧
      (Game.playFor flakySetup firstMoveRequest 10 (firstMoveGame.inWorld Nat) 0).2.2 = 0 ∧
      (Game.playFor flakySetup firstMoveRequest 10 (firstMoveGame.inWorld Nat) 0).2.1.result =
        .won .white := by decide +kernel
  generalize hbefore : Game.playFor flakySetup firstMoveRequest 1 (firstMoveGame.inWorld Nat) 2 =
    run at hfirst hforgets
  generalize hplay : Game.playFor flakySetup firstMoveRequest 10 (firstMoveGame.inWorld Nat) 0 =
    whole at hwhole
  obtain ⟨ending, begun, left⟩ := run
  obtain ⟨ending', final, left'⟩ := whole
  obtain ⟨rfl, rfl, hopen⟩ := hfirst
  obtain ⟨hforgets, hrun⟩ := hforgets
  obtain ⟨rfl, rfl, hwon⟩ := hwhole
  have hfails : begun.SearchFails flakySetup firstMoveRequest 1 (.ofMessage "no memory") :=
    .broken hopen hrun rfl (by rw [search_flakyEngine]; rfl)
  have hgame : (firstMoveGame.inWorld Nat).perform flakySetup 2 [] =
      (firstMoveGame.inWorld Nat, 2) := rfl
  obtain ⟨after, last, hfailed, -, hresumes⟩ :=
    failed_search_resumable begin_flakyGame hgame firstMoveRequest hbefore hfails
  have hten := hfailed 10 (by decide)
  rw [hten] at hfail
  obtain ⟨rfl, hquiet, hgrown, hagain⟩ := hfail
  refine ⟨begun, after, final, rfl, hfails, hten, hgrown, rfl, hwon, ?_⟩
  rcases hresumes hforgets hquiet (flakySetup_isRepeatable _) 10 0 final 0 hplay 10 (Nat.le_refl 10)
    0 with hfinished | ⟨error, stuck, last, hstuck⟩
  · exact hfinished
  · rw [hstuck] at hagain
    cases hagain

end SelfPlay
