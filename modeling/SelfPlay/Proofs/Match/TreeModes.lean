import SelfPlay.Proofs.Match.Statistic
import SelfPlay.Proofs.Match.Reach

/-!
# One tree for both sides, or one each

A game does not say how many trees it has except by what it finds in them. Where no side reuses its
tree, an engine is handed an empty tree of the current game, whichever way the trees are kept, and
what it puts there is dropped before anybody looks at it again. So games that agree on everything
but on what their trees know (`Game.Twin`) are played alike, call by call and entry by entry of the
journal.

The other direction of this is `GameTrees.isShared`, which no round changes: a tree each stays a
tree each, and all moves are made in both.
-/

namespace SelfPlay

open SelfPlay.Numeric

variable {ω P M R : Type}

namespace GameTrees

theorem isShared_modify (trees : GameTrees P M) (side : Color) (f : GameTree P M → GameTree P M) :
    (trees.modify side f).isShared = trees.isShared := by
  cases trees <;> rfl

theorem get_modify_self (trees : GameTrees P M) (side : Color) (f : GameTree P M → GameTree P M) :
    (trees.modify side f).get side = f (trees.get side) :=
  get_set_self trees side _

/-- A tree that both sides have is changed for both. -/
theorem get_modify (trees : GameTrees P M) (side other : Color)
    (f : GameTree P M → GameTree P M) :
    (trees.modify side f).get other =
      if trees.isShared = true ∨ other = side then f (trees.get other) else trees.get other := by
  by_cases hother : other = side
  · rw [if_pos (.inr hother), hother, get_modify_self]
  · cases trees with
    | shared tree => rfl
    | independent trees =>
      have hoff : ¬((independent trees).isShared = true ∨ other = side) :=
        not_or.mpr ⟨Bool.false_ne_true, hother⟩
      rw [if_neg hoff]
      exact PerSide.get_set_of_ne _ _ hother

variable [BoardMove M] [DecidableEq M] [Board P M]

theorem isShared_play (trees : GameTrees P M) (move : M) :
    (trees.play move).isShared = trees.isShared := by
  cases trees <;> rfl

end GameTrees

namespace Game

variable {setup : MatchSetup ω P M R} {request : PlayRequest} {game other : Game ω P M R}

theorem prepareTree_of_forgets {side : Color} (h : (game.options.get side).reuseTree = false) :
    game.prepareTree side = { game with trees := game.trees.modify side GameTree.trim } :=
  if_neg (Bool.eq_false_iff.mp h)

theorem isShared_prepareTree (game : Game ω P M R) (side : Color) :
    (game.prepareTree side).trees.isShared = game.trees.isShared := by
  unfold prepareTree
  split
  · rfl
  · exact GameTrees.isShared_modify _ _ _

/-- Games that differ in what their trees know about the current position and in nothing else, when
no side would look at that. -/
structure Twin (game other : Game ω P M R) : Prop where
  rest : ∃ trees, other = { game with trees := trees }
  records : ∀ side, (other.trees.get side).record = (game.trees.get side).record
  forgets : ∀ side, (game.options.get side).reuseTree = false

namespace Twin

theorem result (h : game.Twin other) : other.result = game.result := by
  obtain ⟨⟨trees, rfl⟩, -, -⟩ := h
  rfl

theorem abort (h : game.Twin other) : other.abort = game.abort := by
  obtain ⟨⟨trees, rfl⟩, -, -⟩ := h
  rfl

theorem prepareTree (h : game.Twin other) (side : Color) :
    (game.prepareTree side).Twin (other.prepareTree side) := by
  obtain ⟨⟨trees, rfl⟩, hrecords, hforgets⟩ := h
  refine ⟨⟨trees.modify side GameTree.trim, ?_⟩, fun other => ?_, fun other => ?_⟩
  · rw [prepareTree_of_forgets (hforgets side)]
    exact prepareTree_of_forgets (hforgets side)
  · rw [record_prepareTree_get, record_prepareTree_get]
    exact hrecords other
  · rw [prepareTree_of_forgets (hforgets side)]
    exact hforgets other

/-- Both sides of a pair of twins search the same tree. -/
theorem get_prepareTree (h : game.Twin other) (side : Color) :
    (other.prepareTree side).trees.get side = (game.prepareTree side).trees.get side := by
  have hforgets : (other.options.get side).reuseTree = false := by
    obtain ⟨⟨trees, rfl⟩, -, hforgets⟩ := h
    exact hforgets side
  rw [prepareTree_of_forgets (h.forgets side), prepareTree_of_forgets hforgets,
    GameTrees.get_modify_self, GameTrees.get_modify_self, GameTree.trim, GameTree.trim, h.records]

theorem land (h : game.Twin other) (side : Color) (outcome : SearchOutcome ω M) :
    (game.land side outcome).Twin (other.land side outcome) := by
  refine ⟨?_, fun _ => ?_, h.forgets⟩
  · obtain ⟨⟨trees, rfl⟩, -, -⟩ := h
    exact ⟨_, rfl⟩
  · rw [record_land_get, record_land_get, h.records]

theorem get_land (h : game.Twin other) (side : Color) (outcome : SearchOutcome ω M) :
    (other.land side outcome).trees.get side = (game.land side outcome).trees.get side := by
  unfold Game.land
  simp only
  rw [GameTrees.get_modify_self, GameTrees.get_modify_self, h.records]

theorem ended (h : game.Twin other) (result : GameResult) :
    Twin { game with result := result } { other with result := result } := by
  obtain ⟨⟨trees, rfl⟩, hrecords, hforgets⟩ := h
  exact ⟨⟨trees, rfl⟩, hrecords, hforgets⟩

theorem inWorld (h : game.Twin other) (ω' : Type) : (game.inWorld ω').Twin (other.inWorld ω') := by
  obtain ⟨⟨trees, rfl⟩, hrecords, hforgets⟩ := h
  exact ⟨⟨trees, rfl⟩, hrecords, hforgets⟩

theorem verdict [Scalar R] (h : game.Twin other) {side : Color} (eval : BestEval R) :
    other.verdict side eval = game.verdict side eval := by
  refine verdict_congr ?_ (h.records side) eval
  obtain ⟨⟨trees, rfl⟩, -, -⟩ := h
  rfl

variable [Board P M]

theorem sideToMove (h : game.Twin other) : other.sideToMove = game.sideToMove :=
  congrArg GameRecord.sideToMove (h.records .white)

theorem rulesResult (h : game.Twin other) : other.rulesResult = game.rulesResult := by
  unfold Game.rulesResult
  rw [h.sideToMove, h.records]

variable [BoardMove M]

theorem moves (h : game.Twin other) : other.moves = game.moves := by
  obtain ⟨⟨trees, rfl⟩, hrecords, -⟩ := h
  exact moves_congr rfl (hrecords .white)

theorem search (h : game.Twin other) (setup : MatchSetup ω P M R) (side : Color)
    (engine : SearchEngine ω M R) (threads : Nat) (world : ω) :
    other.search setup side engine threads world = game.search setup side engine threads world := by
  obtain ⟨⟨trees, rfl⟩, hrecords, -⟩ := h
  unfold Game.search
  simp only
  rw [hrecords]

section

variable [Scalar R] {side : Color} {engine : SearchEngine ω M R} {outcome : SearchOutcome ω M}

theorem searched (h : game.Twin other) :
    (game.searched setup request side engine outcome).Twin
      (other.searched setup request side engine outcome) := by
  refine ⟨?_, fun _ => ?_, fun side => ?_⟩
  · rw [searched_eq, searched_eq, h.get_land]
    obtain ⟨⟨trees, rfl⟩, -, -⟩ := h
    exact ⟨_, rfl⟩
  · rw [record_searched_get, record_searched_get, h.records]
  · rw [searched_eq]
    exact h.forgets side

theorem get_searched (h : game.Twin other) :
    (other.searched setup request side engine outcome).trees.get side =
      (game.searched setup request side engine outcome).trees.get side := by
  rw [searched_eq, searched_eq]
  exact h.get_land side outcome

end

variable [DecidableEq M]

theorem chooseMove (h : game.Twin other) {side : Color} {engine : SearchEngine ω M R}
    (htree : other.trees.get side = game.trees.get side) (world : ω) :
    other.chooseMove setup side engine world = game.chooseMove setup side engine world := by
  have hmoves := h.moves
  obtain ⟨⟨trees, rfl⟩, -, -⟩ := h
  unfold Game.chooseMove
  simp only
  rw [htree, hmoves]

/-- The move is made in all trees of both. -/
theorem played (h : game.Twin other) (move : M) (abort : AbortState ω) :
    Twin { game with trees := game.trees.play move, abort := abort }
      { other with trees := other.trees.play move, abort := abort } := by
  obtain ⟨⟨trees, rfl⟩, hrecords, hforgets⟩ := h
  refine ⟨⟨_, rfl⟩, fun side => ?_, hforgets⟩
  simp only
  rw [GameTrees.get_play, GameTrees.get_play, GameTree.play, GameTree.play]
  exact congrArg (GameRecord.play · move) (hrecords side)

variable [Scalar R]

theorem conclude (h : game.Twin other) (setup : MatchSetup ω P M R) (request : PlayRequest)
    (side : Color) (engine : SearchEngine ω M R) (outcome : SearchOutcome ω M) :
    ∃ ending next next' last,
      ((game.land side outcome).count (engine.playouts outcome.world)).conclude setup request side
        engine outcome.world = (ending, next, last) ∧
      ((other.land side outcome).count (engine.playouts outcome.world)).conclude setup request side
        engine outcome.world = (ending, next', last) ∧ next.Twin next' := by
  have hsearched : (game.searched setup request side engine outcome).Twin
    (other.searched setup request side engine outcome) := h.searched
  have htree : (other.searched setup request side engine outcome).trees.get side =
    (game.searched setup request side engine outcome).trees.get side := h.get_searched
  rw [conclude_eq, conclude_eq, h.verdict]
  generalize game.searched setup request side engine outcome = noted at hsearched htree ⊢
  generalize other.searched setup request side engine outcome = noted' at hsearched htree ⊢
  split
  · exact ⟨_, _, _, _, rfl, rfl, hsearched.ended _⟩
  · simp only
    rw [hsearched.chooseMove htree]
    exact ⟨_, _, _, _, rfl, rfl, hsearched.played _ _⟩

theorem runEngine (h : game.Twin other) (setup : MatchSetup ω P M R) (request : PlayRequest)
    (side : Color) (engine : SearchEngine ω M R) (world : ω) :
    ∃ ending next next' last,
      game.runEngine setup request side engine world = (ending, next, last) ∧
      other.runEngine setup request side engine world = (ending, next', last) ∧
      next.Twin next' := by
  have hsearch := h.search setup side engine (max 1 (request.threads.get side)) world
  unfold Game.runEngine
  simp only
  rw [hsearch]
  generalize game.search setup side engine (max 1 (request.threads.get side)) world = outcome
  have hland := h.land side outcome
  split
  · exact ⟨_, _, _, _, rfl, rfl, hland⟩
  · have habort : ((other.land side outcome).count
        (engine.playouts outcome.world)).abort.requested =
          ((game.land side outcome).count (engine.playouts outcome.world)).abort.requested := rfl
    rw [habort]
    split
    · refine ⟨_, _, _, _, rfl, rfl, ?_⟩
      obtain ⟨⟨trees, hother⟩, hrecords, hforgets⟩ := hland
      rw [hother] at hrecords ⊢
      exact ⟨⟨trees, rfl⟩, hrecords, hforgets⟩
    · exact h.conclude setup request side engine outcome

/-- A round of twins is one round for whoever looks at it, and leaves twins. -/
theorem round (h : game.Twin other) (setup : MatchSetup ω P M R) (request : PlayRequest)
    (world : ω) :
    ∃ ending next next' last, game.round setup request world = (ending, next, last) ∧
      other.round setup request world = (ending, next', last) ∧ next.Twin next' := by
  have hside := h.sideToMove
  have hrules := h.rulesResult
  have hready := h.prepareTree game.sideToMove
  have htree := h.get_prepareTree game.sideToMove
  by_cases hover : game.rulesResult.isTerminal = true
  · have hover' : other.rulesResult.isTerminal = true := by rw [hrules, hover]
    refine ⟨_, _, _, _, round_of_isTerminal setup request hover world,
      round_of_isTerminal setup request hover' world, ?_⟩
    rw [hrules]
    exact h.ended _
  · have hopen := GameResult.eq_undecided_of_not_isTerminal hover
    have hopen' : other.rulesResult = .undecided := hrules.trans hopen
    cases hrun : game.abort.requested with
    | true =>
      have hrun' : other.abort.requested = true := by rw [h.abort, hrun]
      refine ⟨_, _, _, _, round_of_requested setup request hopen hrun world,
        round_of_requested setup request hopen' hrun' world, ?_⟩
      rw [hside]
      exact hready
    | false =>
      have hrun' : other.abort.requested = false := by rw [h.abort, hrun]
      have hcontext : (other.prepareTree other.sideToMove).context setup other.sideToMove =
          (game.prepareTree game.sideToMove).context setup game.sideToMove := by
        unfold Game.context
        rw [hside, htree]
      obtain ⟨made, launched, hcreate⟩ : ∃ made launched, setup.factory.create
        ((game.prepareTree game.sideToMove).context setup game.sideToMove) world =
          (made, launched) := ⟨_, _, rfl⟩
      have hcreate' := hcreate
      rw [← hcontext] at hcreate'
      cases made with
      | error fault =>
        refine ⟨_, _, _, _, round_of_create_error request hopen hrun hcreate,
          round_of_create_error request hopen' hrun' hcreate', ?_⟩
        rw [hside]
        exact hready
      | ok engine =>
        rw [round_of_create hopen hrun hcreate, round_of_create hopen' hrun' hcreate', hside]
        exact hready.runEngine setup request game.sideToMove engine launched

theorem roundsFor (h : game.Twin other) (setup : MatchSetup ω P M R) (request : PlayRequest)
    (rounds : Nat) (world : ω) :
    ∃ ending final final' last, roundsFor setup request rounds game world = (ending, final, last) ∧
      roundsFor setup request rounds other world = (ending, final', last) ∧ final.Twin final' := by
  induction rounds generalizing game other world with
  | zero => exact ⟨_, _, _, _, rfl, rfl, h⟩
  | succ rounds ih =>
    obtain ⟨ending, next, next', now, hround, hround', hnext⟩ := h.round setup request world
    cases ending with
    | some ending =>
      exact ⟨ending, next, next', now, roundsFor_of_round_eq_some rounds hround,
        roundsFor_of_round_eq_some rounds hround', hnext⟩
    | none =>
      rw [roundsFor_of_round_eq_none rounds hround, roundsFor_of_round_eq_none rounds hround']
      exact ih hnext now

theorem playFor (h : game.Twin other) (setup : MatchSetup ω P M R) (request : PlayRequest)
    (rounds : Nat) (world : ω) :
    ∃ ending final final' last, playFor setup request rounds game world = (ending, final, last) ∧
      playFor setup request rounds other world = (ending, final', last) ∧ final.Twin final' := by
  unfold Game.playFor
  rw [h.result]
  split
  · exact ⟨_, _, _, _, rfl, rfl, h⟩
  · exact h.roundsFor setup request rounds world

theorem act (h : game.Twin other) (setup : MatchSetup ω P M R) (world : ω) (next : Act ω) :
    ∃ final final' last, act setup (game, world) next = (final, last) ∧
      act setup (other, world) next = (final', last) ∧ final.Twin final' := by
  cases next with
  | play request rounds =>
    obtain ⟨ending, final, final', last, hplay, hplay', hfinal⟩ :=
      h.playFor setup request rounds world
    exact ⟨final, final', last, congrArg Prod.snd hplay, congrArg Prod.snd hplay', hfinal⟩
  | requestAbort =>
    obtain ⟨⟨trees, rfl⟩, hrecords, hforgets⟩ := h
    exact ⟨_, _, _, rfl, rfl, ⟨⟨trees, rfl⟩, hrecords, hforgets⟩⟩
  | change f => exact ⟨game, other, f world, rfl, rfl, h⟩

/-- Whatever is done to twins, they stay twins in one world. -/
theorem perform (h : game.Twin other) (setup : MatchSetup ω P M R) (world : ω)
    (acts : List (Act ω)) :
    ∃ final final' last, game.perform setup world acts = (final, last) ∧
      other.perform setup world acts = (final', last) ∧ final.Twin final' := by
  induction acts generalizing game other world with
  | nil => exact ⟨game, other, world, rfl, rfl, h⟩
  | cons next acts ih =>
    obtain ⟨final, final', last, hact, hact', hfinal⟩ := h.act setup world next
    unfold Game.perform at ih ⊢
    rw [List.foldl_cons, List.foldl_cons, hact, hact']
    exact ih hfinal last

/-- Nobody who works with twins can tell them from one another. -/
theorem journal (h : game.Twin other) (setup : MatchSetup ω P M R) (world : ω)
    (acts : List (Act ω)) :
    other.journal setup world acts = game.journal setup world acts := by
  obtain ⟨final, final', last, hperform, hperform', -⟩ :=
    (h.inWorld (Journaled ω P M R)).perform setup.journaled ⟨world, []⟩
      (acts.flatMap Act.journaled)
  unfold Game.journal
  rw [hperform, hperform']

end Twin

variable [BoardMove M] [DecidableEq M] [Board P M] [Scalar R]

/-- The same game can be begun with a tree for each side. -/
theorem exists_twin_of_begin {options : PerSide (SelfPlayOptions R)} {opening : Opening M}
    {one : Game ω P M R} (h : begin options true opening = .ok one)
    (hforgets : ∀ side, (options.get side).reuseTree = false) :
    ∃ two, begin options false opening = .ok two ∧ one.Twin two := by
  obtain ⟨hstyle, record, hrecord, rfl⟩ := begin_eq_ok_iff.mp h
  refine ⟨_, begin_eq_ok_iff.mpr ⟨hstyle, record, hrecord, rfl⟩, ⟨_, rfl⟩, fun side => ?_, hforgets⟩
  cases side <;> rfl

theorem isShared_of_begin {options : PerSide (SelfPlayOptions R)} {shared : Bool}
    {opening : Opening M} (h : begin options shared opening = .ok game) :
    game.trees.isShared = shared := by
  obtain ⟨-, record, -, rfl⟩ := begin_eq_ok_iff.mp h
  cases shared <;> rfl

/-- The way in which trees are kept does not change. -/
theorem isShared_of_progress {number : Nat} {game after : Game ω P M R} {ending : Option PlayEnd}
    {entries : Journal ω P M R} (h : game.Progress setup request number ending after entries) :
    after.trees.isShared = game.trees.isShared := by
  cases h with
  | decided => rfl
  | stopped => exact isShared_prepareTree game _
  | refused => exact isShared_prepareTree game _
  | searched _ _ _ _ _ _ _ hlanding =>
    have hprepared := isShared_prepareTree game game.sideToMove
    have hlanded (outcome : SearchOutcome ω M) :
        ((game.prepareTree game.sideToMove).land game.sideToMove outcome).trees.isShared =
          game.trees.isShared :=
      (GameTrees.isShared_modify _ _ fun tree => { tree with head := outcome.head }).trans hprepared
    cases hlanding with
    | failed => exact hlanded _
    | halted => exact hlanded _
    | resigned =>
      rw [searched_eq]
      exact hlanded _
    | moved =>
      rw [searched_eq]
      exact (GameTrees.isShared_play _ _).trans (hlanded _)

theorem isShared_perform (setup : MatchSetup ω P M R) (world : ω)
    (hidle : game.abort.inFlight = none) (acts : List (Act ω)) :
    (game.perform setup world acts).1.trees.isShared = game.trees.isShared :=
  keeps_of_perform (Q := fun now => now.trees.isShared = game.trees.isShared)
    (fun hshared hprogress => (isShared_of_progress hprogress).trans hshared) id world hidle rfl acts

end Game

variable [BoardMove M] [DecidableEq M] [Board P M] [Scalar R]

/-- **Shared and separate trees play the same game when nothing is reused.** Whatever is done to two
games of an opening, one with one tree and one with a tree for each side, they end alike, and all
that passes between them and their engines and players is the same, discarded moves included. With a
tree for each side, reused or not, both trees hold the same moves and positions at all times. -/
theorem tree_modes_agree (setup : MatchSetup ω P M R) (options : PerSide (SelfPlayOptions R))
    (opening : Opening M) (world : ω) (acts : List (Act ω)) :
    (∀ one : Game ω P M R, Game.begin options true opening = .ok one →
      (∀ side, (options.get side).reuseTree = false) →
      ∃ two, Game.begin options false opening = .ok two ∧
        ∃ final final' last, one.perform setup world acts = (final, last) ∧
          two.perform setup world acts = (final', last) ∧
          final'.result = final.result ∧ final'.moves = final.moves ∧
          final'.samples = final.samples ∧ final'.moveCount = final.moveCount ∧
          final'.totalNodes = final.totalNodes ∧ final'.marks = final.marks ∧
          two.journal setup world acts = one.journal setup world acts ∧
          ∀ request rounds, (Game.playFor setup request rounds final' last).1 =
            (Game.playFor setup request rounds final last).1) ∧
    ∀ two : Game ω P M R, Game.begin options false opening = .ok two →
      ∃ trees, (two.perform setup world acts).1.trees = .independent trees ∧
        trees.white.record = trees.black.record := by
  constructor
  · intro one hone hforgets
    obtain ⟨two, htwo, htwin⟩ := Game.exists_twin_of_begin hone hforgets
    obtain ⟨final, final', last, hperform, hperform', hfinal⟩ := htwin.perform setup world acts
    refine ⟨two, htwo, final, final', last, hperform, hperform', hfinal.result, hfinal.moves, ?_⟩
    have hplay (request : PlayRequest) (rounds : Nat) :
        (Game.playFor setup request rounds final' last).1 =
          (Game.playFor setup request rounds final last).1 := by
      obtain ⟨ending, after, after', now, hafter, hafter', -⟩ :=
        hfinal.playFor setup request rounds last
      rw [hafter, hafter']
    have hjournal := htwin.journal setup world acts
    obtain ⟨⟨trees, rfl⟩, -, -⟩ := hfinal
    exact ⟨rfl, rfl, rfl, rfl, hjournal, hplay⟩
  · intro two htwo
    obtain ⟨hfresh, -⟩ := Game.fresh_of_begin htwo
    have hidle : two.abort.inFlight = none := congrArg AbortState.inFlight hfresh.idle
    have hshared := (Game.isShared_perform setup world hidle acts).trans
      (Game.isShared_of_begin htwo)
    have hstep := Game.inStep_perform setup world hidle hfresh.inStep acts
    generalize (two.perform setup world acts).1 = final at hshared hstep
    cases htrees : final.trees with
    | shared tree =>
      rw [htrees] at hshared
      cases hshared
    | independent trees =>
      have hwhite := hstep .white
      have hblack := hstep .black
      rw [htrees] at hwhite hblack
      exact ⟨trees, rfl, hwhite.trans hblack.symm⟩

open TicTacToe in
/-- With a tree each, the game that first moves alone make is the same, and white wins it. -/
theorem firstMove_tree_modes_agree :
    ∃ two final final' : Game Unit Position Square Binary32,
      Game.begin ⟨resigning, resigning⟩ true ⟨".../.../...", []⟩ = .ok firstMoveGame ∧
      Game.begin ⟨resigning, resigning⟩ false ⟨".../.../...", []⟩ = .ok two ∧
      firstMoveGame.perform firstMoveSetup () [.play firstMoveRequest 10] = (final, ()) ∧
      two.perform firstMoveSetup () [.play firstMoveRequest 10] = (final', ()) ∧
      final.result = .won .white ∧ final'.result = .won .white ∧
      final'.samples = final.samples ∧ final'.moves = final.moves ∧
      ∃ trees, final'.trees = .independent trees ∧ trees.white.record = trees.black.record := by
  have hwon : (firstMoveGame.perform firstMoveSetup ()
      [.play firstMoveRequest 10]).1.result = .won .white := by decide +kernel
  have hforgets : ∀ side, ((⟨resigning, resigning⟩ :
      PerSide (SelfPlayOptions Binary32)).get side).reuseTree = false := by
    intro side
    cases side <;> rfl
  obtain ⟨hsame, hseparate⟩ := tree_modes_agree firstMoveSetup ⟨resigning, resigning⟩
    ⟨".../.../...", []⟩ () [.play firstMoveRequest 10]
  obtain ⟨two, htwo, final, final', ⟨⟩, hperform, hperform', hresult, hmoves, hsamples, -⟩ :=
    hsame firstMoveGame begin_firstMoveGame hforgets
  have htrees := hseparate two htwo
  rw [hperform] at hwon
  rw [hperform'] at htrees
  exact ⟨two, final, final', begin_firstMoveGame, htwo, hperform, hperform', hwon,
    hresult.trans hwon, hsamples, hmoves, htrees⟩

end SelfPlay
