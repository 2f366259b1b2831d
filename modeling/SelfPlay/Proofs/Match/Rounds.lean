import SelfPlay.Proofs.Match.Determined
import SelfPlay.Proofs.Match.Journal

/-!
# What a round does

`Game.Progress` lists all that one round does to a game, whatever engines and callbacks do, and what
the journal says of it: it is the only place where a round is taken apart. On the way it is shown
that the game takes no notice of the journal.
-/

namespace SelfPlay

open SelfPlay.Numeric

variable {ω P M R : Type}

theorem AbortState.requestIf_some (stop asked : Bool) (tell : ω → ω) (world : ω) :
    AbortState.requestIf stop ⟨asked, some tell⟩ world =
      (⟨asked || stop, some tell⟩, if stop then tell world else world) := by
  cases stop <;> cases asked <;> rfl

theorem AbortState.requestIf_none (stop asked : Bool) (world : ω) :
    AbortState.requestIf stop ⟨asked, none⟩ world = (⟨asked || stop, none⟩, world) := by
  cases stop <;> cases asked <;> rfl

/-- What is written down when a callback wishes to stop, or does not, while an engine runs. -/
def Launch.relayed (launch : Launch ω P M R) (stop : Bool) : Journal ω P M R :=
  if stop then [.asked, .told launch] else []

/-- The wish to stop is passed on to the engine that runs. -/
theorem Launch.requestIf_noteIf (launch : Launch ω P M R) (stop asked : Bool) (world : ω)
    (journal : Journal ω P M R) :
    AbortState.requestIf stop ⟨asked, some launch.tell⟩
        ((⟨world, journal⟩ : Journaled ω P M R).noteIf stop .asked) =
      (⟨asked || stop, some launch.tell⟩,
        ⟨if stop then launch.engine.abort world else world, journal ++ launch.relayed stop⟩) := by
  rw [AbortState.requestIf_some]
  cases stop <;> simp [Journaled.noteIf, relayed, tell, Journaled.note, Journaled.change]

/-- The journal of a search from its beginning on; best moves are announced as `written`. The flag
tells whether a stop was asked for before. -/
inductive Flight (launch : Launch ω P M R) (written : BestMove M → BestMove M)
    (outcome : SearchOutcome ω M) : Bool → Journal ω P M R → Prop
  | ended : Flight launch written outcome outcome.abort.requested
      [.ended launch outcome.fault outcome.head outcome.world]
  | announced {asked : Bool} {rest : Journal ω P M R} (info : BestMove M) :
      Flight launch written outcome asked rest →
      Flight launch written outcome asked (.offered info :: .announced (written info) :: rest)
  | asked {asked : Bool} {rest : Journal ω P M R} : Flight launch written outcome true rest →
      Flight launch written outcome asked (.asked :: .told launch :: rest)

theorem Flight.relayed {launch : Launch ω P M R} {written : BestMove M → BestMove M}
    {outcome : SearchOutcome ω M} {asked stop : Bool} {rest : Journal ω P M R}
    (h : Flight launch written outcome (asked || stop) rest) :
    Flight launch written outcome asked (launch.relayed stop ++ rest) := by
  cases stop with
  | false =>
    rw [Bool.or_false] at h
    exact h
  | true =>
    rw [Bool.or_true] at h
    exact h.asked

theorem Flight.requested {launch : Launch ω P M R} {written : BestMove M → BestMove M}
    {outcome : SearchOutcome ω M} {asked : Bool} {entries : Journal ω P M R}
    (h : Flight launch written outcome asked entries) (hasked : asked = true) :
    outcome.abort.requested = true := by
  induction h with
  | ended => exact hasked
  | announced _ _ ih => exact ih hasked
  | asked _ ih => exact ih rfl

/-- A search by a journaled engine ends like one by the bare engine. -/
theorem conduct_journaled (callbacks : Callbacks ω M) (written : BestMove M → BestMove M)
    (writtenInfo : ThinkingInfo M → ThinkingInfo M) (launch : Launch ω P M R)
    (run : SearchRun ω M) (asked : Bool) (world : ω) (journal : Journal ω P M R)
    {outcome : SearchOutcome ω M} (houtcome : run.conduct callbacks written writtenInfo
      ⟨asked, some launch.engine.abort⟩ world = outcome) :
    ∃ entries, Flight launch written outcome asked entries ∧
      (run.journaled launch).conduct callbacks.journaled written writtenInfo
          ⟨asked, some launch.tell⟩ ⟨world, journal⟩ =
        ⟨outcome.fault, outcome.head, ⟨outcome.abort.requested, some launch.tell⟩,
          ⟨outcome.world, journal ++ entries⟩⟩ := by
  -- The flag, the world and the journal change from one part of the dialogue to the next.
  induction run generalizing asked world journal with
  | finish fault head =>
    subst houtcome
    exact ⟨_, .ended, rfl⟩
  | bestMove info next ih =>
    unfold SearchRun.conduct at houtcome
    simp only [AbortState.requestIf_some] at houtcome
    obtain ⟨entries, hflight, hrun⟩ := ih _ _ (journal ++ [.offered info] ++
      [.announced (written info)] ++ launch.relayed (callbacks.bestMove (written info) world).2)
      houtcome
    refine ⟨_, hflight.relayed.announced info, ?_⟩
    simp only [SearchRun.journaled, SearchRun.conduct, Journaled.note,
      Callbacks.bestMove_journaled, Launch.requestIf_noteIf]
    rw [hrun]
    simp
  | thinking infos next ih =>
    unfold SearchRun.conduct at houtcome
    simp only [AbortState.requestIf_some] at houtcome
    obtain ⟨entries, hflight, hrun⟩ := ih _ _
      (journal ++ launch.relayed (callbacks.thinking (infos.map writtenInfo) world).2) houtcome
    refine ⟨_, hflight.relayed, ?_⟩
    simp only [SearchRun.journaled, SearchRun.conduct, Callbacks.thinking_journaled,
      Launch.requestIf_noteIf]
    rw [hrun, List.append_assoc]
  | requestStop next ih =>
    unfold SearchRun.conduct at houtcome
    obtain ⟨entries, hflight, hrun⟩ := ih true (launch.engine.abort world)
      (journal ++ [.asked] ++ [.told launch]) houtcome
    refine ⟨_, hflight.asked, ?_⟩
    simp only [SearchRun.journaled, SearchRun.conduct, AbortState.request, Launch.tell,
      Journaled.note, Journaled.change]
    rw [hrun]
    simp
  | change f next ih => exact ih asked (f world) journal houtcome
  | look next ih => exact ih world asked world journal houtcome

section

variable [BoardMove M] [DecidableEq M] [Board P M]

/-- The journal of the choice of a move. The flags tell whether a stop was asked for before and
after it. -/
inductive Choosing (engine : SearchEngine ω M R) (tree : GameTree P M) (minimum : Nat)
    (report : M → DiscardedMove M) : Bool → Bool → Journal ω P M R → Prop
  | chosen {asked : Bool} : Choosing engine tree minimum report asked asked []
  | discarded {asked last : Bool} {rest : Journal ω P M R} (world : ω) :
      tree.accepts minimum (engine.bestMove world) = false →
      tree.isEndedBy (engine.bestMove world) = false →
      Choosing engine tree minimum report asked last rest →
      Choosing engine tree minimum report asked last
        (.discarded (report (engine.bestMove world)) world :: rest)
  | asked {asked last : Bool} {rest : Journal ω P M R} :
      Choosing engine tree minimum report true last rest →
      Choosing engine tree minimum report asked last (.asked :: rest)

theorem Choosing.noted {engine : SearchEngine ω M R} {tree : GameTree P M} {minimum : Nat}
    {report : M → DiscardedMove M} {asked last stop : Bool} {rest : Journal ω P M R}
    (h : Choosing engine tree minimum report (asked || stop) last rest) :
    Choosing engine tree minimum report asked last ((if stop then [.asked] else []) ++ rest) := by
  cases stop with
  | false =>
    rw [Bool.or_false] at h
    exact h
  | true =>
    rw [Bool.or_true] at h
    exact h.asked

/-- A move is chosen with a journaled engine as with the bare one. -/
theorem retrieveMove_journaled (callbacks : Callbacks ω M) (launch : Launch ω P M R)
    (tree : GameTree P M) (minimum : Nat) (report : M → DiscardedMove M) (retries : Nat)
    (asked : Bool) (world : ω) (journal : Journal ω P M R) {chosen : ChosenMove ω M}
    (hchosen : retrieveMove launch.engine tree minimum
      (fun move => callbacks.discarded (report move)) retries ⟨asked, none⟩ world = chosen) :
    ∃ entries, chosen.abort.inFlight = none ∧
      Choosing launch.engine tree minimum report asked chosen.abort.requested entries ∧
      retrieveMove launch.journaled tree minimum
          (fun move => callbacks.journaled.discarded (report move)) retries ⟨asked, none⟩
          ⟨world, journal⟩ =
        ⟨chosen.move, ⟨chosen.abort.requested, none⟩, ⟨chosen.world, journal ++ entries⟩⟩ := by
  -- The journaled engine answers as the bare one, so both take the same way at each retry.
  induction retries generalizing asked world journal with
  | zero =>
    have hbest : launch.journaled.bestMove ⟨world, journal⟩ = launch.engine.bestMove world := rfl
    refine ⟨[], ?_⟩
    cases haccepts : tree.accepts minimum (launch.engine.bestMove world) with
    | true =>
      rw [retrieveMove_of_accepts haccepts] at hchosen
      rw [retrieveMove_of_accepts (hbest ▸ haccepts), hbest, ← hchosen, List.append_nil]
      exact ⟨rfl, .chosen, rfl⟩
    | false =>
      rw [retrieveMove_zero haccepts] at hchosen
      rw [retrieveMove_zero (hbest ▸ haccepts), hbest, ← hchosen, List.append_nil]
      exact ⟨rfl, .chosen, rfl⟩
  | succ retries ih =>
    have hbest : launch.journaled.bestMove ⟨world, journal⟩ = launch.engine.bestMove world := rfl
    cases haccepts : tree.accepts minimum (launch.engine.bestMove world) with
    | true =>
      refine ⟨[], ?_⟩
      rw [retrieveMove_of_accepts haccepts] at hchosen
      rw [retrieveMove_of_accepts (hbest ▸ haccepts), hbest, ← hchosen, List.append_nil]
      exact ⟨rfl, .chosen, rfl⟩
    | false =>
      cases hended : tree.isEndedBy (launch.engine.bestMove world) with
      | true =>
        rw [retrieveMove_of_isEndedBy haccepts hended] at hchosen
        rw [retrieveMove_of_isEndedBy (hbest ▸ haccepts) (hbest ▸ hended)]
        exact ih asked (launch.engine.resetBestMove world) journal hchosen
      | false =>
        rw [retrieveMove_of_not_isEndedBy haccepts hended] at hchosen
        rw [retrieveMove_of_not_isEndedBy (hbest ▸ haccepts) (hbest ▸ hended), hbest]
        generalize hreport : report (launch.engine.bestMove world) = told at hchosen ⊢
        simp only [AbortState.requestIf_none] at hchosen
        simp only [Callbacks.discarded_journaled, AbortState.requestIf_none, Journaled.noteIf_eq]
        obtain ⟨entries, hnone, hchoosing, hretrieve⟩ := ih _ _ (journal ++ [.discarded told world] ++
          if (callbacks.discarded told world).2 then [.asked] else []) hchosen
        refine ⟨_, hnone, hchoosing.noted.discarded world haccepts hended, ?_⟩
        rw [hreport]
        refine Eq.trans hretrieve ?_
        simp

end

/-- What is found out about one tree leaves all records alone. -/
theorem GameTrees.record_get_modify (trees : GameTrees P M) (side other : Color)
    {f : GameTree P M → GameTree P M} (hf : ∀ tree, (f tree).record = tree.record) :
    ((trees.modify side f).get other).record = (trees.get other).record := by
  cases trees with
  | shared tree => exact hf tree
  | independent trees =>
    by_cases hside : other = side
    · subst hside
      rw [modify, get_set_self, hf]
    · simp only [modify, set, get, PerSide.get_set_of_ne _ _ hside]

namespace Game

/-- The moves and positions of the game. -/
def record (game : Game ω P M R) : GameRecord P M := (game.trees.get .white).record

theorem record_prepareTree_get (game : Game ω P M R) (side other : Color) :
    ((game.prepareTree side).trees.get other).record = (game.trees.get other).record := by
  unfold prepareTree
  split
  · rfl
  · exact GameTrees.record_get_modify _ _ _ fun _ => rfl

theorem record_land_get (game : Game ω P M R) (side other : Color) (outcome : SearchOutcome ω M) :
    ((game.land side outcome).trees.get other).record = (game.trees.get other).record :=
  GameTrees.record_get_modify (f := fun tree => { tree with head := outcome.head }) _ _ _
    fun _ => rfl

theorem prepareTree_inWorld (game : Game ω P M R) (side : Color) (ω' : Type) :
    (game.inWorld ω').prepareTree side = (game.prepareTree side).inWorld ω' := by
  unfold prepareTree
  have hoptions : (game.inWorld ω').options = game.options := rfl
  rw [hoptions]
  split <;> rfl

/-- What the next engine is made from does not know of the journal. -/
theorem bare_context (game : Game ω P M R) (setup : MatchSetup ω P M R) (side : Color) :
    ((game.inWorld (Journaled ω P M R)).context setup.journaled side).bare =
      game.context setup side := by
  unfold context
  simp only [MatchSetup.journaled, PerSide.get_map]
  rfl

/-- The factory fails with a journal when it fails without. -/
theorem create_journaled_error {setup : MatchSetup ω P M R} {game : Game ω P M R} {side : Color}
    {fault : Fault} {world launched : ω}
    (h : setup.factory.create (game.context setup side) world = (.error fault, launched))
    (journal : Journal ω P M R) :
    setup.journaled.factory.create ((game.inWorld (Journaled ω P M R)).context setup.journaled side)
        ⟨world, journal⟩ =
      (.error fault, ⟨launched, journal ++ [.refused fault]⟩) := by
  have hfactory : setup.journaled.factory = setup.factory.journaled := rfl
  rw [hfactory, SearchFactory.journaled]
  simp only
  rw [bare_context, h]
  rfl

/-- The factory makes the journaled engine when it makes the bare one. -/
theorem create_journaled_ok {setup : MatchSetup ω P M R} {game : Game ω P M R} {side : Color}
    {engine : SearchEngine ω M R} {world launched : ω}
    (h : setup.factory.create (game.context setup side) world = (.ok engine, launched))
    (journal : Journal ω P M R) :
    let launch : Launch ω P M R := ⟨journal.launches, game.trees.get side, engine⟩
    setup.journaled.factory.create ((game.inWorld (Journaled ω P M R)).context setup.journaled side)
        ⟨world, journal⟩ =
      (.ok launch.journaled, ⟨launched, journal ++ [.launched launch]⟩) := by
  have hfactory : setup.journaled.factory = setup.factory.journaled := rfl
  rw [hfactory, SearchFactory.journaled]
  simp only
  rw [bare_context, h]
  rfl

variable [BoardMove M] [Board P M]

/-- A best move as a player is told of it. -/
def announcement (game : Game ω P M R) (side : Color) (info : BestMove M) : BestMove M :=
  if game.chess960 then info else info.toLegacy (game.trees.get side).record.head

/-- What a player is told of a discarded move. -/
def discardReport (game : Game ω P M R) (move : M) : DiscardedMove M :=
  ⟨game.opening.fen, game.moves ++ [move]⟩

/-- A search in a world with a journal ends as it does in the bare world. -/
theorem search_journaled (setup : MatchSetup ω P M R) (side : Color) (launch : Launch ω P M R)
    (threads : Nat) (world : ω) (journal : Journal ω P M R) {game : Game ω P M R}
    {outcome : SearchOutcome ω M}
    (houtcome : game.search setup side launch.engine threads world = outcome) :
    ∃ flight, Flight launch (game.announcement side) outcome game.abort.requested flight ∧
      (game.inWorld (Journaled ω P M R)).search setup.journaled side launch.journaled threads
          ⟨world, journal⟩ =
        ⟨outcome.fault, outcome.head, ⟨outcome.abort.requested, some launch.tell⟩,
          ⟨outcome.world, journal ++ .began launch :: flight⟩⟩ := by
  have hcallbacks : (setup.journaled.players.get side).callbacks =
      (setup.players.get side).callbacks.journaled := by
    rw [MatchSetup.journaled, PerSide.get_map]
    rfl
  have hsame : (game.inWorld (Journaled ω P M R)).chess960 = game.chess960 := rfl
  unfold search at houtcome ⊢
  rw [hcallbacks, hsame]
  cases hchess960 : game.chess960 with
  | true =>
    have hwritten : game.announcement side = id := by
      funext info
      exact if_pos hchess960
    rw [hchess960, if_pos rfl] at houtcome
    rw [if_pos rfl, hwritten]
    obtain ⟨flight, hflight, hrun⟩ := conduct_journaled _ _ _ launch _ _ _
      (journal ++ [.began launch]) houtcome
    refine ⟨flight, hflight, hrun.trans ?_⟩
    simp
  | false =>
    have hwritten : game.announcement side =
        BestMove.toLegacy (game.trees.get side).record.head := by
      funext info
      exact if_neg (Bool.eq_false_iff.mp hchess960)
    rw [hchess960, if_neg Bool.false_ne_true] at houtcome
    rw [if_neg Bool.false_ne_true, hwritten]
    obtain ⟨flight, hflight, hrun⟩ := conduct_journaled _ _ _ launch _ _ _
      (journal ++ [.began launch]) houtcome
    refine ⟨flight, hflight, hrun.trans ?_⟩
    simp

theorem moves_congr {game other : Game ω P M R} (hchess960 : other.chess960 = game.chess960)
    (hrecord : (other.trees.get .white).record = (game.trees.get .white).record) :
    other.moves = game.moves := by
  unfold moves
  rw [hchess960, hrecord]

section

variable [DecidableEq M]

/-- A move is chosen in a world with a journal as in the bare world. -/
theorem chooseMove_journaled (setup : MatchSetup ω P M R) (side : Color) (launch : Launch ω P M R)
    (world : ω) (journal : Journal ω P M R) {game : Game ω P M R}
    (hnone : game.abort.inFlight = none) {chosen : ChosenMove ω M}
    (hchosen : game.chooseMove setup side launch.engine world = chosen) :
    ∃ entries, chosen.abort.inFlight = none ∧
      Choosing launch.engine (game.trees.get side) (game.options.get side).minimumAllowedVisits
        game.discardReport game.abort.requested chosen.abort.requested entries ∧
      (game.inWorld (Journaled ω P M R)).chooseMove setup.journaled side launch.journaled
          ⟨world, journal⟩ =
        ⟨chosen.move, ⟨chosen.abort.requested, none⟩, ⟨chosen.world, journal ++ entries⟩⟩ := by
  have hcallbacks : (setup.journaled.players.get side).callbacks =
      (setup.players.get side).callbacks.journaled := by
    rw [MatchSetup.journaled, PerSide.get_map]
    rfl
  have habort : game.abort = ⟨game.abort.requested, none⟩ := by
    rw [← hnone]
  unfold chooseMove at hchosen ⊢
  rw [habort] at hchosen
  rw [hcallbacks]
  exact retrieveMove_journaled _ launch _ _ game.discardReport _ _ world journal hchosen

end

variable [Scalar R]

/-- The game after a search that succeeded, with all that is noted about it. -/
def searched (game : Game ω P M R) (setup : MatchSetup ω P M R) (request : PlayRequest)
    (side : Color) (engine : SearchEngine ω M R) (outcome : SearchOutcome ω M) : Game ω P M R :=
  let landed := (game.land side outcome).count (engine.playouts outcome.world)
  let sampled :=
    if request.training then
      landed.addSample setup side (engine.historyFill outcome.world) (engine.bestEval outcome.world)
    else landed
  sampled.note side (engine.bestEval outcome.world)

section

variable {setup : MatchSetup ω P M R} {request : PlayRequest} {side : Color}
  {engine : SearchEngine ω M R} {outcome : SearchOutcome ω M}

theorem searched_eq (game : Game ω P M R) :
    game.searched setup request side engine outcome =
      { game.land side outcome with
        moveCount := game.moveCount + 1
        totalNodes := game.totalNodes + engine.playouts outcome.world
        samples := if request.training then
            game.samples ++ [TrainingSample.ofTree
              ((game.land side outcome).trees.get side) (setup.players.get side).network.format
              (engine.historyFill outcome.world) (engine.bestEval outcome.world)]
          else game.samples
        marks := game.marks.update side (engine.bestEval outcome.world) } := by
  unfold searched
  simp only
  split <;> rfl

theorem record_searched_get (game : Game ω P M R) (other : Color) :
    ((game.searched setup request side engine outcome).trees.get other).record =
      (game.trees.get other).record := by
  rw [searched_eq]
  exact record_land_get game side other outcome

theorem verdict_searched (game : Game ω P M R) (eval : BestEval R) :
    (game.searched setup request side engine outcome).verdict side eval =
      game.verdict side eval :=
  verdict_congr (by rw [searched_eq]; rfl) (record_searched_get game side) eval

theorem discardReport_searched (game : Game ω P M R) :
    (game.searched setup request side engine outcome).discardReport = game.discardReport := by
  funext move
  unfold discardReport
  rw [moves_congr (by rw [searched_eq]; rfl) (record_searched_get game .white), searched_eq]
  rfl

/-- What is noted about a search is the same with a journal. -/
theorem searched_journaled (game : Game ω P M R) (launch : Launch ω P M R)
    (journal : Journal ω P M R) {outcome : SearchOutcome ω M} :
    (game.inWorld (Journaled ω P M R)).searched setup.journaled request side launch.journaled
        ⟨outcome.fault, outcome.head, ⟨outcome.abort.requested, some launch.tell⟩,
          ⟨outcome.world, journal⟩⟩ =
      (game.searched setup request side launch.engine outcome).inWorld _ := by
  have hformat : (setup.journaled.players.get side).network.format =
      (setup.players.get side).network.format := by
    rw [MatchSetup.journaled, PerSide.get_map]
    rfl
  rw [searched_eq, searched_eq, hformat]
  rfl

end

variable [DecidableEq M]

/-- What becomes of a game by a search of its prepared tree, with what is written down after the
search. -/
inductive Landing (setup : MatchSetup ω P M R) (request : PlayRequest) (game : Game ω P M R)
    (side : Color) (engine : SearchEngine ω M R) (outcome : SearchOutcome ω M) :
    Option PlayEnd → Game ω P M R → Journal ω P M R → Prop
  | failed {fault : Fault} : outcome.fault = some fault →
      Landing setup request game side engine outcome (some (.failed (.engine fault)))
        (game.land side outcome) []
  | halted : outcome.fault = none → outcome.abort.requested = true →
      Landing setup request game side engine outcome (some .finished)
        ((game.land side outcome).count (engine.playouts outcome.world)) []
  | resigned {result : GameResult} : outcome.fault = none → outcome.abort.requested = false →
      request.resignation = true →
      game.verdict side (engine.bestEval outcome.world) = some result →
      Landing setup request game side engine outcome (some .finished)
        { game.searched setup request side engine outcome with result := result } []
  | moved {chosen : ChosenMove ω M} {entries : Journal ω P M R} :
      outcome.fault = none → outcome.abort.requested = false →
      (request.resignation = true →
        game.verdict side (engine.bestEval outcome.world) = none) →
      (game.searched setup request side engine outcome).chooseMove setup side engine
        outcome.world = chosen →
      chosen.abort.inFlight = none →
      Choosing engine { game.trees.get side with head := outcome.head }
        (game.options.get side).minimumAllowedVisits game.discardReport false
        chosen.abort.requested entries →
      Landing setup request game side engine outcome none
        { game.searched setup request side engine outcome with
          trees := (game.searched setup request side engine outcome).trees.play chosen.move
          abort := chosen.abort } entries

/-- What one round makes of a game, with what is written down meanwhile. The next engine made will
have the given number. -/
inductive Progress (setup : MatchSetup ω P M R) (request : PlayRequest) (number : Nat)
    (game : Game ω P M R) : Option PlayEnd → Game ω P M R → Journal ω P M R → Prop
  | decided : game.rulesResult.isTerminal = true →
      Progress setup request number game (some .finished) { game with result := game.rulesResult } []
  | stopped : game.rulesResult = .undecided → game.abort.requested = true →
      Progress setup request number game (some .finished) (game.prepareTree game.sideToMove) []
  | refused {fault : Fault} : game.rulesResult = .undecided → game.abort.requested = false →
      Progress setup request number game (some (.failed (.engine fault)))
        (game.prepareTree game.sideToMove) [.refused fault]
  | searched {launch : Launch ω P M R} {world launched : ω} {outcome : SearchOutcome ω M}
      {ending : Option PlayEnd} {after : Game ω P M R} {flight rest : Journal ω P M R} :
      game.rulesResult = .undecided → game.abort.requested = false → launch.number = number →
      launch.tree = (game.prepareTree game.sideToMove).trees.get game.sideToMove →
      setup.factory.create ((game.prepareTree game.sideToMove).context setup game.sideToMove)
        world = (.ok launch.engine, launched) →
      (game.prepareTree game.sideToMove).search setup game.sideToMove launch.engine
        (max 1 (request.threads.get game.sideToMove)) launched = outcome →
      Flight launch (game.announcement game.sideToMove) outcome false flight →
      Landing setup request (game.prepareTree game.sideToMove) game.sideToMove launch.engine
        outcome ending after rest →
      Progress setup request number game ending after
        (.launched launch :: .began launch :: flight ++ rest)

/-- The end of a round in terms of the game after the search. -/
theorem conclude_eq (setup : MatchSetup ω P M R) (request : PlayRequest) (side : Color)
    (engine : SearchEngine ω M R) (outcome : SearchOutcome ω M) (game : Game ω P M R) :
    ((game.land side outcome).count (engine.playouts outcome.world)).conclude setup request side
        engine outcome.world =
      match if request.resignation then game.verdict side (engine.bestEval outcome.world)
        else none with
      | some result =>
        (some .finished,
          { game.searched setup request side engine outcome with result := result }, outcome.world)
      | none =>
        let noted := game.searched setup request side engine outcome
        let chosen := noted.chooseMove setup side engine outcome.world
        (none, { noted with trees := noted.trees.play chosen.move, abort := chosen.abort },
          chosen.world) := by
  rw [← verdict_searched]
  rfl

/-- The end of a round is the same with a journal. -/
theorem conclude_journaled (setup : MatchSetup ω P M R) (request : PlayRequest) (side : Color)
    (launch : Launch ω P M R) (journal : Journal ω P M R) {outcome : SearchOutcome ω M}
    (hfault : outcome.fault = none) (hgoesOn : outcome.abort.requested = false)
    (game : Game ω P M R) {result : Option PlayEnd × Game ω P M R × ω}
    (hresult : ((game.land side outcome).count (launch.engine.playouts outcome.world)).conclude
      setup request side launch.engine outcome.world = result) :
    ∃ rest, game.Landing setup request side launch.engine outcome result.1 result.2.1 rest ∧
      (((game.inWorld (Journaled ω P M R)).land side
          ⟨outcome.fault, outcome.head, ⟨outcome.abort.requested, some launch.tell⟩,
            ⟨outcome.world, journal⟩⟩).count (launch.engine.playouts outcome.world)).conclude
          setup.journaled request side launch.journaled ⟨outcome.world, journal⟩ =
        (result.1, result.2.1.inWorld _, ⟨result.2.2, journal ++ rest⟩) := by
  have hverdict : (game.inWorld (Journaled ω P M R)).verdict side
      (launch.journaled.bestEval ⟨outcome.world, journal⟩) =
        game.verdict side (launch.engine.bestEval outcome.world) := rfl
  have hjournaled := conclude_eq setup.journaled request side launch.journaled
    ⟨outcome.fault, outcome.head, ⟨outcome.abort.requested, some launch.tell⟩,
      ⟨outcome.world, journal⟩⟩ (game.inWorld (Journaled ω P M R))
  rw [searched_journaled, hverdict] at hjournaled
  rw [conclude_eq] at hresult
  cases hgiven : (if request.resignation then
      game.verdict side (launch.engine.bestEval outcome.world) else none) with
  | some given =>
    rw [hgiven] at hresult hjournaled
    rw [Option.ite_none_right_eq_some] at hgiven
    subst hresult
    refine ⟨[], .resigned hfault hgoesOn hgiven.1 hgiven.2, ?_⟩
    rw [List.append_nil]
    exact hjournaled
  | none =>
    rw [hgiven] at hresult hjournaled
    have hsearched : game.searched setup request side launch.engine outcome = _ := searched_eq game
    have hnone : (game.searched setup request side launch.engine outcome).abort.inFlight = none := by
      rw [hsearched]
      rfl
    have htree : (game.searched setup request side launch.engine outcome).trees.get side =
        { game.trees.get side with head := outcome.head } := by
      rw [hsearched]
      exact GameTrees.get_set_self _ _ _
    have hoptions : (game.searched setup request side launch.engine outcome).options =
        game.options := by
      rw [hsearched]
      rfl
    have hrequested : (game.searched setup request side launch.engine
        outcome).abort.requested = false := by
      rw [hsearched]
      exact hgoesOn
    obtain ⟨entries, hlast, hchoosing, hchoose⟩ := chooseMove_journaled setup side launch
      outcome.world journal hnone rfl
    rw [htree, hoptions, discardReport_searched, hrequested] at hchoosing
    simp only [hchoose] at hjournaled
    subst hresult
    refine ⟨entries, .moved hfault hgoesOn ?_ rfl hlast hchoosing, hjournaled⟩
    intro hresigns
    rw [if_pos hresigns] at hgiven
    exact hgiven

/-- A search and what follows it are the same with a journal. -/
theorem runEngine_journaled (setup : MatchSetup ω P M R) (request : PlayRequest) (side : Color)
    (launch : Launch ω P M R) (world : ω) (journal : Journal ω P M R) {game : Game ω P M R}
    (hgoesOn : game.abort.requested = false) {result : Option PlayEnd × Game ω P M R × ω}
    (hresult : game.runEngine setup request side launch.engine world = result) :
    ∃ outcome flight rest,
      game.search setup side launch.engine (max 1 (request.threads.get side)) world = outcome ∧
      Flight launch (game.announcement side) outcome false flight ∧
      game.Landing setup request side launch.engine outcome result.1 result.2.1 rest ∧
      (game.inWorld (Journaled ω P M R)).runEngine setup.journaled request side launch.journaled
          ⟨world, journal⟩ =
        (result.1, result.2.1.inWorld _,
          ⟨result.2.2, journal ++ (.began launch :: flight ++ rest)⟩) := by
  obtain ⟨outcome, houtcome⟩ : ∃ outcome,
    game.search setup side launch.engine (max 1 (request.threads.get side)) world = outcome :=
      ⟨_, rfl⟩
  obtain ⟨flight, hflight, hsearch⟩ := search_journaled setup side launch _ world journal houtcome
  rw [hgoesOn] at hflight
  unfold runEngine at hresult ⊢
  have hland (fault : Option Fault) (now : Journaled ω P M R) :
      (game.inWorld (Journaled ω P M R)).land side
          ⟨fault, outcome.head, ⟨outcome.abort.requested, some launch.tell⟩, now⟩ =
        (game.land side outcome).inWorld _ := rfl
  rw [houtcome] at hresult
  rw [hsearch]
  simp only at hresult ⊢
  cases hfault : outcome.fault with
  | some fault =>
    rw [hfault] at hresult
    subst hresult
    refine ⟨outcome, flight, [], houtcome, hflight, .failed hfault, ?_⟩
    rw [List.append_nil]
    rfl
  | none =>
    rw [hfault] at hresult
    simp only at hresult ⊢
    cases hrequested : outcome.abort.requested with
    | true =>
      rw [if_pos (by exact hrequested)] at hresult
      subst hresult
      refine ⟨outcome, flight, [], houtcome, hflight, .halted hfault hrequested, ?_⟩
      rw [List.append_nil, ← hrequested, hland, if_pos (by rfl)]
      rfl
    | false =>
      rw [if_neg (by exact Bool.eq_false_iff.mp hrequested)] at hresult
      obtain ⟨rest, hlanding, hconclude⟩ := conclude_journaled setup request side launch
        (journal ++ .began launch :: flight) hfault hrequested game hresult
      refine ⟨outcome, flight, rest, houtcome, hflight, hlanding, ?_⟩
      rw [hfault, hrequested] at hconclude
      refine (if_neg Bool.false_ne_true).trans (hconclude.trans ?_)
      simp

/-- After a request to stop the factory is not asked. -/
theorem round_of_requested (setup : MatchSetup ω P M R) (request : PlayRequest)
    {game : Game ω P M R} (hopen : game.rulesResult = .undecided)
    (hrequested : game.abort.requested = true) (world : ω) :
    game.round setup request world =
      (some .finished, game.prepareTree game.sideToMove, world) := by
  have hrules : (game.trees.get game.sideToMove).record.history.result = .undecided := hopen
  have hready : (game.prepareTree game.sideToMove).abort.requested = true := by
    rw [abort_prepareTree, hrequested]
  unfold round
  simp only
  rw [hrules, if_neg (by decide), hready, if_pos rfl]

theorem round_of_create_error {setup : MatchSetup ω P M R} (request : PlayRequest)
    {game : Game ω P M R} (hopen : game.rulesResult = .undecided)
    (hrun : game.abort.requested = false) {fault : Fault} {world last : ω}
    (hcreate : setup.factory.create
      ((game.prepareTree game.sideToMove).context setup game.sideToMove) world =
        (.error fault, last)) :
    game.round setup request world =
      (some (.failed (.engine fault)), game.prepareTree game.sideToMove, last) := by
  have hrules : (game.trees.get game.sideToMove).record.history.result = .undecided := hopen
  have hready : (game.prepareTree game.sideToMove).abort.requested = false := by
    rw [abort_prepareTree, hrun]
  unfold round
  simp only
  rw [hrules, if_neg (by decide), hready, if_neg Bool.false_ne_true, hcreate]

/-- **The journal has no influence.** A round in a world with a journal is a round in the bare
world, and what it writes down is what the round does. -/
theorem round_journaled (setup : MatchSetup ω P M R) (request : PlayRequest) (world : ω)
    (journal : Journal ω P M R) {game : Game ω P M R}
    {result : Option PlayEnd × Game ω P M R × ω} (hresult : game.round setup request world = result) :
    ∃ entries, game.Progress setup request journal.launches result.1 result.2.1 entries ∧
      (game.inWorld (Journaled ω P M R)).round setup.journaled request ⟨world, journal⟩ =
        (result.1, result.2.1.inWorld _, ⟨result.2.2, journal ++ entries⟩) := by
  have hrules : (game.inWorld (Journaled ω P M R)).rulesResult = game.rulesResult := rfl
  have hprepare : (game.inWorld (Journaled ω P M R)).prepareTree
      (game.inWorld (Journaled ω P M R)).sideToMove =
        (game.prepareTree game.sideToMove).inWorld _ := prepareTree_inWorld game _ _
  by_cases hover : game.rulesResult.isTerminal = true
  · rw [round_of_isTerminal setup request hover] at hresult
    subst hresult
    refine ⟨[], .decided hover, ?_⟩
    rw [round_of_isTerminal _ _ (by rw [hrules, hover]), List.append_nil]
    rfl
  · have hopen := GameResult.eq_undecided_of_not_isTerminal hover
    cases hrequested : game.abort.requested with
    | true =>
      rw [round_of_requested setup request hopen hrequested] at hresult
      subst hresult
      refine ⟨[], .stopped hopen hrequested, ?_⟩
      have hround := round_of_requested setup.journaled request (hrules.trans hopen) hrequested
        ⟨world, journal⟩
      rw [hround, hprepare, List.append_nil]
    | false =>
      obtain ⟨made, launched, hcreate⟩ : ∃ made launched, setup.factory.create
        ((game.prepareTree game.sideToMove).context setup game.sideToMove) world =
          (made, launched) := ⟨_, _, rfl⟩
      cases made with
      | error fault =>
        have hjournaled := create_journaled_error hcreate journal
        rw [← hprepare] at hjournaled
        have hround := round_of_create_error request (hrules.trans hopen) hrequested hjournaled
        rw [round_of_create_error request hopen hrequested hcreate] at hresult
        subst hresult
        exact ⟨_, .refused hopen hrequested, hround.trans (by rw [hprepare])⟩
      | ok engine =>
        let launch : Launch ω P M R :=
          ⟨journal.launches, (game.prepareTree game.sideToMove).trees.get game.sideToMove, engine⟩
        have hready : (game.prepareTree game.sideToMove).abort.requested = false := by
          rw [abort_prepareTree, hrequested]
        have hannounced : (game.prepareTree game.sideToMove).announcement game.sideToMove =
            game.announcement game.sideToMove := by
          funext info
          unfold announcement
          rw [record_prepareTree, prepareTree_eq]
        have hjournaled := create_journaled_ok hcreate journal
        rw [← hprepare] at hjournaled
        have hround : (game.inWorld (Journaled ω P M R)).round setup.journaled request
            ⟨world, journal⟩ = _ := round_of_create (hrules.trans hopen) hrequested hjournaled
        rw [round_of_create hopen hrequested hcreate] at hresult
        obtain ⟨outcome, flight, rest, houtcome, hflight, hlanding, hrun⟩ :=
          runEngine_journaled setup request game.sideToMove launch launched
            (journal ++ [.launched launch]) hready hresult
        rw [hannounced] at hflight
        refine ⟨_, .searched hopen hrequested rfl rfl hcreate houtcome hflight hlanding, ?_⟩
        rw [hround, hprepare]
        refine Eq.trans hrun ?_
        simp

end Game

end SelfPlay
