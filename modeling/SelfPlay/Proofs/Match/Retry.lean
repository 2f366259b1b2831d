import Mathlib.Data.Nat.Find
import SelfPlay.Proofs.Match.Rounds
import SelfPlay.TicTacToe.Game
import SelfPlay.TicTacToe.Heuristic

/-!
# Best moves given up

The best moves of an engine are taken one after the other until one has enough visits, at most one
more of them than there are edges. All that matters of an engine is which move it offers after so
many resets. What else happens is said by the calls that are made meanwhile: one reset for each move
given up, and before it the report to the player unless the move ends the game. The last best move
that is looked at before a most visited edge is taken is neither reported nor reset.
-/

namespace SelfPlay

open SelfPlay.Numeric

namespace Node

variable {M : Type}

/-- No edge before this one has as many visits, and none behind it has more. -/
def IsFirstMostVisited (node : Node M) (edge : Edge M (Node M)) : Prop :=
  ∃ before after, node.edges = before ++ edge :: after ∧
    (∀ other ∈ before, other.visits < edge.visits) ∧ ∀ other ∈ after, other.visits ≤ edge.visits

theorem foldl_max_spec (visits : List Nat) (least : Nat) :
    least ≤ visits.foldl max least ∧ (∀ n ∈ visits, n ≤ visits.foldl max least) ∧
      (visits.foldl max least = least ∨ visits.foldl max least ∈ visits) := by
  induction visits generalizing least with
  | nil => exact ⟨Nat.le_refl _, (by rintro n ⟨⟩), .inl rfl⟩
  | cons first rest ih =>
    obtain ⟨hleast, hrest, hattained⟩ := ih (max least first)
    rw [List.foldl_cons]
    refine ⟨by omega, ?_, ?_⟩
    · intro n hmem
      rcases List.mem_cons.mp hmem with rfl | hn
      · omega
      · exact hrest n hn
    · rcases hattained with hsame | hmem
      · rcases Nat.le_total least first with hle | hle
        · exact .inr (by rw [hsame, Nat.max_eq_right hle]; exact List.mem_cons_self)
        · exact .inl (by rw [hsame, Nat.max_eq_left hle])
      · exact .inr (List.mem_cons_of_mem _ hmem)

theorem visits_le_maxVisits {node : Node M} {edge : Edge M (Node M)} (h : edge ∈ node.edges) :
    edge.visits ≤ node.maxVisits :=
  (foldl_max_spec _ 0).2.1 _ (List.mem_map_of_mem h)

theorem exists_visits_eq_maxVisits {node : Node M} (h : node.edges ≠ []) :
    ∃ edge ∈ node.edges, edge.visits = node.maxVisits := by
  rcases (foldl_max_spec (node.edges.map (·.visits)) 0).2.2 with hzero | hmem
  · -- without visits every edge is a most visited one
    obtain ⟨edge, rest, hedges⟩ := List.exists_cons_of_ne_nil h
    have hmem : edge ∈ node.edges := by rw [hedges]; exact List.mem_cons_self
    have hle := visits_le_maxVisits hmem
    have hmax : node.maxVisits = 0 := hzero
    exact ⟨edge, hmem, by omega⟩
  · exact List.mem_map.mp hmem

/-- The edge that is found by its visits is the first of those with the most. -/
theorem isFirstMostVisited_of_find? {node : Node M} {edge : Edge M (Node M)}
    (h : node.edges.find? (fun edge => edge.visits == node.maxVisits) = some edge) :
    node.IsFirstMostVisited edge := by
  obtain ⟨hmost, before, after, hedges, hbefore⟩ := List.find?_eq_some_iff_append.mp h
  have hmax : edge.visits = node.maxVisits := by simpa using hmost
  have hle : ∀ other ∈ node.edges, other.visits ≤ edge.visits := fun other hmem =>
    hmax ▸ visits_le_maxVisits hmem
  refine ⟨before, after, hedges, fun other hmem => ?_, fun other hmem => hle other ?_⟩
  · have hless : other.visits ≠ node.maxVisits := by simpa using hbefore other hmem
    have hmost := hle other (by rw [hedges]; exact List.mem_append_left _ hmem)
    omega
  · rw [hedges]
    exact List.mem_append_right _ (List.mem_cons_of_mem _ hmem)

theorem IsFirstMostVisited.mem {node : Node M} {edge : Edge M (Node M)}
    (h : node.IsFirstMostVisited edge) : edge ∈ node.edges := by
  obtain ⟨before, after, hedges, -⟩ := h
  rw [hedges]
  exact List.mem_append_right _ List.mem_cons_self

theorem IsFirstMostVisited.visits_eq {node : Node M} {edge : Edge M (Node M)}
    (h : node.IsFirstMostVisited edge) : edge.visits = node.maxVisits := by
  obtain ⟨most, hmost, hvisits⟩ := node.exists_visits_eq_maxVisits (List.ne_nil_of_mem h.mem)
  have hle := visits_le_maxVisits h.mem
  obtain ⟨before, after, hedges, hbefore, hafter⟩ := h
  rw [hedges, List.mem_append, List.mem_cons] at hmost
  rcases hmost with hmem | rfl | hmem
  · have hless := hbefore most hmem
    omega
  · exact hvisits
  · have hno := hafter most hmem
    omega

end Node

variable {ω P M R : Type}

/-- What others are asked to do while a move is chosen. -/
inductive RetryCall (M : Type) where
  /-- A player is told of a move that is given up. -/
  | discarded (report : DiscardedMove M)
  /-- The engine is asked for the next best move. -/
  | reset

/-- The world after calls, in order. -/
def SearchEngine.afterCalls (engine : SearchEngine ω M R) (callbacks : Callbacks ω M)
    (calls : List (RetryCall M)) (world : ω) : ω :=
  calls.foldl (fun world call =>
    match call with
    | .discarded report => (callbacks.discarded report world).1
    | .reset => engine.resetBestMove world) world

theorem SearchEngine.afterCalls_append (engine : SearchEngine ω M R) (callbacks : Callbacks ω M)
    (calls more : List (RetryCall M)) (world : ω) :
    engine.afterCalls callbacks (calls ++ more) world =
      engine.afterCalls callbacks more (engine.afterCalls callbacks calls world) := by
  unfold afterCalls
  rw [List.foldl_append]

/-- The engine offers these moves, one after each reset, at least until so many resets. -/
def SearchEngine.Offers (engine : SearchEngine ω M R) (callbacks : Callbacks ω M) (world : ω)
    (last : Nat) (best : Nat → M) : Prop :=
  ∀ resets now, resets ≤ last → engine.GivenUp callbacks.discarded world resets now →
    engine.bestMove now = best resets

variable [BoardMove M] [Board P M]

/-- The calls by which moves are given up: each is reported unless it ends the game, and then the
engine is asked for the next one. -/
def GameTree.retryCalls (tree : GameTree P M) (report : M → DiscardedMove M) (moves : List M) :
    List (RetryCall M) :=
  moves.flatMap fun move =>
    (if tree.isEndedBy move then [] else [.discarded (report move)]) ++ [.reset]

theorem GameTree.retryCalls_append (tree : GameTree P M) (report : M → DiscardedMove M)
    (moves more : List M) :
    tree.retryCalls report (moves ++ more) =
      tree.retryCalls report moves ++ tree.retryCalls report more := by
  unfold retryCalls
  rw [List.flatMap_append]

variable [DecidableEq M]

namespace GameTree

/-- An absolute move has as many visits as any edge, or at least `minimum`. -/
def HasVisits (tree : GameTree P M) (minimum : Nat) (move : M) : Prop :=
  tree.visitsOf move = tree.head.maxVisits ∨ minimum ≤ tree.visitsOf move

variable {tree : GameTree P M} {minimum : Nat} {move : M}

theorem accepts_iff : tree.accepts minimum move = true ↔ tree.HasVisits minimum move := by
  simp [accepts, HasVisits]

theorem accepts_eq_false_iff :
    tree.accepts minimum move = false ↔ ¬tree.HasVisits minimum move := by
  rw [← accepts_iff, Bool.not_eq_true]

/-- If a move has too few visits there are edges, and so a first most visited one. -/
theorem exists_mostVisited (h : ¬tree.HasVisits minimum move) :
    ∃ edge, tree.head.IsFirstMostVisited edge ∧
      tree.mostVisited? = some (BoardMove.relativeTo edge.move tree.sideToMove) := by
  have hedges : tree.head.edges ≠ [] := by
    intro hnone
    refine h (.inl ?_)
    unfold visitsOf Node.edge? Node.maxVisits
    rw [hnone]
    rfl
  obtain ⟨edge, hmem, hmost⟩ := Node.exists_visits_eq_maxVisits hedges
  cases hfound : tree.head.edges.find? fun edge => edge.visits == tree.head.maxVisits with
  | none =>
    have hless := List.find?_eq_none.mp hfound edge hmem
    simp [hmost] at hless
  | some edge =>
    refine ⟨edge, Node.isFirstMostVisited_of_find? hfound, ?_⟩
    unfold mostVisited?
    rw [hfound]
    rfl

end GameTree

/-- **Giving up.** After best moves with too few visits, as many as allowed or fewer, the choice goes
on with the next one, in the world after their calls. -/
theorem retrieveMove_of_givenUp {engine : SearchEngine ω M R} {callbacks : Callbacks ω M} {world : ω}
    {last : Nat} {best : Nat → M} (hoffers : engine.Offers callbacks world last best)
    (tree : GameTree P M) (minimum : Nat) (report : M → DiscardedMove M) (asked : Bool)
    (retries given : Nat) (hgiven : given ≤ last)
    (hrejected : ∀ earlier < given, ¬tree.HasVisits minimum (best earlier)) :
    ∃ stop, engine.GivenUp callbacks.discarded world given (engine.afterCalls callbacks
        (tree.retryCalls report ((List.range given).map best)) world) ∧
      retrieveMove engine tree minimum (fun move => callbacks.discarded (report move))
          (given + retries) ⟨asked, none⟩ world =
        retrieveMove engine tree minimum (fun move => callbacks.discarded (report move)) retries
          ⟨stop, none⟩ (engine.afterCalls callbacks
            (tree.retryCalls report ((List.range given).map best)) world) := by
  induction given generalizing retries with
  | zero =>
    rw [Nat.zero_add]
    exact ⟨asked, .start, rfl⟩
  | succ given ih =>
    obtain ⟨stop, hnow, hchoice⟩ := ih (retries + 1) (by omega)
      fun earlier hearlier => hrejected earlier (by omega)
    -- one move more is given up, in the world that the earlier ones have left
    rw [List.range_succ, List.map_append, List.map_singleton, GameTree.retryCalls_append,
      SearchEngine.afterCalls_append, Nat.add_assoc, Nat.add_comm 1 retries, hchoice]
    generalize engine.afterCalls callbacks
      (tree.retryCalls report ((List.range given).map best)) world = now at hnow ⊢
    have hbest : engine.bestMove now = best given := hoffers given now (by omega) hnow
    have hfew : tree.accepts minimum (engine.bestMove now) = false := by
      rw [hbest, GameTree.accepts_eq_false_iff]
      exact hrejected given (by omega)
    cases hended : tree.isEndedBy (best given) with
    | true =>
      have hcalls : tree.retryCalls report [best given] = [.reset] := by
        simp [GameTree.retryCalls, hended]
      rw [retrieveMove_of_isEndedBy hfew (by rw [hbest, hended]), hcalls]
      exact ⟨stop, hnow.reset, rfl⟩
    | false =>
      have hcalls : tree.retryCalls report [best given] =
          [.discarded (report (best given)), .reset] := by
        simp [GameTree.retryCalls, hended]
      rw [retrieveMove_of_not_isEndedBy hfew (by rw [hbest, hended]), hbest, hcalls]
      simp only [AbortState.requestIf_none]
      exact ⟨_, (hnow.tell _).reset, rfl⟩

section

variable {engine : SearchEngine ω M R} {callbacks : Callbacks ω M} {world : ω} {last : Nat}
  {best : Nat → M} {tree : GameTree P M} {minimum : Nat}

/-- The first best move with enough visits is chosen. -/
theorem retrieveMove_of_hasVisits (hoffers : engine.Offers callbacks world last best)
    (report : M → DiscardedMove M) (asked : Bool) {resets : Nat} (hle : resets ≤ last)
    (hvisits : tree.HasVisits minimum (best resets))
    (hrejected : ∀ earlier < resets, ¬tree.HasVisits minimum (best earlier)) :
    ∃ stop, retrieveMove engine tree minimum (fun move => callbacks.discarded (report move)) last
        ⟨asked, none⟩ world =
      ⟨best resets, ⟨stop, none⟩, engine.afterCalls callbacks
        (tree.retryCalls report ((List.range resets).map best)) world⟩ := by
  obtain ⟨stop, hnow, hchoice⟩ := retrieveMove_of_givenUp hoffers tree minimum report asked
    (last - resets) resets hle hrejected
  have hbest := hoffers resets _ hle hnow
  have haccepts := GameTree.accepts_iff.mpr hvisits
  rw [← hbest] at haccepts
  rw [Nat.add_sub_cancel' hle, retrieveMove_of_accepts haccepts, hbest] at hchoice
  exact ⟨stop, hchoice⟩

/-- If no best move has enough visits, the first most visited edge is chosen. -/
theorem retrieveMove_of_not_hasVisits (hoffers : engine.Offers callbacks world last best)
    (report : M → DiscardedMove M) (asked : Bool)
    (hrejected : ∀ resets ≤ last, ¬tree.HasVisits minimum (best resets)) :
    ∃ stop edge, tree.head.IsFirstMostVisited edge ∧
      retrieveMove engine tree minimum (fun move => callbacks.discarded (report move)) last
          ⟨asked, none⟩ world =
        ⟨BoardMove.relativeTo edge.move tree.sideToMove, ⟨stop, none⟩, engine.afterCalls callbacks
          (tree.retryCalls report ((List.range last).map best)) world⟩ := by
  obtain ⟨stop, hnow, hchoice⟩ := retrieveMove_of_givenUp hoffers tree minimum report asked 0 last
    (Nat.le_refl _) fun earlier hless => hrejected earlier (Nat.le_of_lt hless)
  have hbest := hoffers last _ (Nat.le_refl _) hnow
  have hlast := hrejected last (Nat.le_refl _)
  obtain ⟨edge, hfirst, hmost⟩ := GameTree.exists_mostVisited hlast
  rw [← hbest] at hlast
  rw [Nat.add_zero, retrieveMove_zero (GameTree.accepts_eq_false_iff.mpr hlast), hmost,
    Option.getD_some] at hchoice
  exact ⟨stop, edge, hfirst, hchoice⟩

/-- The moves of most visited edges have the most visits if there is one edge for each move. -/
theorem GameTree.hasVisits_of_mem [LawfulMove M] {edge : Edge M (Node M)}
    (hmem : edge ∈ tree.head.edges) (hmost : edge.visits = tree.head.maxVisits)
    (hdistinct : (tree.head.edges.map (·.move)).Nodup) (minimum : Nat) :
    tree.HasVisits minimum (BoardMove.relativeTo edge.move tree.sideToMove) := by
  have hfound : tree.head.edge? edge.move = some edge := by
    unfold Node.edge?
    refine List.find?_eq_some_iff_append.mpr ⟨decide_eq_true rfl, ?_⟩
    obtain ⟨before, after, hedges⟩ := List.append_of_mem hmem
    refine ⟨before, after, hedges, fun other hother => ?_⟩
    rw [hedges, List.map_append, List.nodup_append] at hdistinct
    have hne := hdistinct.2.2 other.move (List.mem_map_of_mem hother) edge.move (by simp)
    simp [hne]
  refine .inl ?_
  unfold visitsOf
  rw [BoardMove.relativeTo_relativeTo, hfound]
  exact hmost

end

/-- **The right move is chosen, and soon.** An engine that has searched offers one best move after the
other, one for each reset. The move chosen is the first of them, as far as there are edges and one
more, that has as many visits as any edge or at least the minimum, after as many resets; or, if there
is none, that of the first edge with the most visits, after as many resets as there are edges. The
calls made meanwhile, in this order, are one reset for each move that is given up, and before it, if the
move does not end the game, the report to the player. So in either case the move has the most visits,
those of an edge of its own, or at least the minimum. -/
theorem retry_chooses_visited_move {game : Game ω P M R} (hlanded : game.abort.inFlight = none)
    (setup : MatchSetup ω P M R) (side : Color) {engine : SearchEngine ω M R} {world : ω}
    {best : Nat → M}
    (hoffers : engine.Offers (setup.players.get side).callbacks world
      (game.trees.get side).head.edges.length best) :
    let tree := game.trees.get side
    let edges := tree.head.edges.length
    let minimum := (game.options.get side).minimumAllowedVisits
    let chosen := game.chooseMove setup side engine world
    let after (resets : Nat) := engine.afterCalls (setup.players.get side).callbacks
      (tree.retryCalls game.discardReport ((List.range resets).map best)) world
    ((∃ resets ≤ edges, tree.HasVisits minimum (best resets) ∧
        (∀ earlier < resets, ¬tree.HasVisits minimum (best earlier)) ∧
        chosen.move = best resets ∧ chosen.world = after resets) ∨
      (∀ resets ≤ edges, ¬tree.HasVisits minimum (best resets)) ∧
        ∃ edge, tree.head.IsFirstMostVisited edge ∧
          chosen.move = BoardMove.relativeTo edge.move tree.sideToMove ∧
          chosen.world = after edges) ∧
    (tree.HasVisits minimum chosen.move ∨
      ∃ edge ∈ tree.head.edges, edge.visits = tree.head.maxVisits ∧
        chosen.move = BoardMove.relativeTo edge.move tree.sideToMove) ∧
    (LawfulMove M → (tree.head.edges.map (·.move)).Nodup → tree.HasVisits minimum chosen.move) := by
  intro tree edges minimum chosen after
  have habort : game.abort = ⟨game.abort.requested, none⟩ := by rw [← hlanded]
  have hchosen : chosen = retrieveMove engine tree minimum
      (fun move => (setup.players.get side).callbacks.discarded (game.discardReport move)) edges
      ⟨game.abort.requested, none⟩ world := by
    rw [← habort]
    rfl
  by_cases hsome : ∃ resets, resets ≤ edges ∧ tree.HasVisits minimum (best resets)
  · -- the least number of resets after which a move has enough visits
    classical
    obtain ⟨hle, hvisits⟩ := Nat.find_spec hsome
    have hrejected : ∀ earlier < Nat.find hsome, ¬tree.HasVisits minimum (best earlier) :=
      fun earlier hless henough => Nat.find_min hsome hless ⟨by omega, henough⟩
    obtain ⟨stop, hmove⟩ := retrieveMove_of_hasVisits hoffers game.discardReport
      game.abort.requested hle hvisits hrejected
    rw [hchosen, hmove]
    exact ⟨.inl ⟨_, hle, hvisits, hrejected, rfl, rfl⟩, .inl hvisits, fun _ _ => hvisits⟩
  · have hrejected : ∀ resets ≤ edges, ¬tree.HasVisits minimum (best resets) :=
      fun resets hle henough => hsome ⟨resets, hle, henough⟩
    obtain ⟨stop, edge, hfirst, hmove⟩ := retrieveMove_of_not_hasVisits hoffers game.discardReport
      game.abort.requested hrejected
    rw [hchosen, hmove]
    exact ⟨.inr ⟨hrejected, edge, hfirst, rfl, rfl⟩,
      .inr ⟨edge, hfirst.mem, hfirst.visits_eq, rfl⟩, fun _ hdistinct =>
        GameTree.hasVisits_of_mem hfirst.mem hfirst.visits_eq hdistinct minimum⟩

namespace TicTacToe

/-- The resets so far, and the reports of discarded moves. -/
abbrev RetryLog := Nat × List (DiscardedMove Square)

/-- A player who keeps the reports of discarded moves. -/
def noticingPlayer : Player RetryLog Square :=
  { (Player.ofNetwork (heuristicNetwork RetryLog) : Player RetryLog Square) with
    callbacks := { Callbacks.silent RetryLog Square with
      discarded := fun report log => ((log.1, log.2 ++ [report]), false) } }

def middle : Fin 3 := .castSucc (.last 1)

/-- The square that wins for black in the game below. -/
def winningSquare : Square := ⟨.last 2, .last 2⟩

def edgeSquare : Square := ⟨.rev (.last 2), middle⟩

/-- An engine that offers a win first and then, as often as it is asked, the same other move. -/
def insistentEngine : SearchEngine RetryLog Square Binary32 where
  run _ := .finish none .empty
  bestMove log := if log.1 = 0 then winningSquare else edgeSquare
  bestEval _ := ⟨0, 0, 0⟩
  playouts _ := 1
  abort log := log
  resetBestMove log := (log.1 + 1, log.2)
  historyFill _ := .no

/-- Two most visited moves behind the two that are offered, as black sees them. -/
def visitedHead : Node Square :=
  .ofEdges [⟨winningSquare.mirrored, 1, none⟩, ⟨edgeSquare.mirrored, 2, none⟩,
    ⟨⟨middle, .last 2⟩, 9, none⟩, ⟨⟨.last 2, middle⟩, 9, none⟩]

/-- A best move needs ten visits. -/
def tenVisits : SelfPlayOptions Binary32 :=
  { (SelfPlayOptions.default : SelfPlayOptions Binary32) with minimumAllowedVisits := 10 }

/-- Black is to move and has been searched for. -/
def visitedGame : Game RetryLog Position Square Binary32 where
  options := ⟨tenVisits, tenVisits⟩
  opening := ⟨"oo./.x./x.x", []⟩
  trees := .shared ⟨.ofStart ⟨0b000010101, 0b011000000, 5⟩, visitedHead⟩
  chess960 := false
  result := .undecided
  abort := .idle
  samples := []
  moveCount := 0
  totalNodes := 0
  marks := .start

def insistentSetup : MatchSetup RetryLog Position Square Binary32 where
  players := ⟨noticingPlayer, noticingPlayer⟩
  factory := ⟨fun _ => [], fun _ log => (.ok insistentEngine, log)⟩

theorem insistentEngine_offers :
    insistentEngine.Offers noticingPlayer.callbacks (0, []) 4
      fun resets => if resets = 0 then winningSquare else edgeSquare := by
  intro resets now hle hnow
  have hcount : now.1 = resets := by
    clear hle
    induction hnow with
    | start => rfl
    | tell message _ ih => exact ih
    | reset _ ih => exact congrArg (· + 1) ih
  unfold insistentEngine
  simp only
  rw [hcount]

end TicTacToe

open TicTacToe in
/-- Four best moves are given up, and the first of the two most visited moves is played. The first best
move would win, so it is not reported; the last one is neither reported nor reset. -/
theorem insistent_engine_overruled :
    let chosen := visitedGame.chooseMove insistentSetup .black insistentEngine (0, [])
    (∃ edge, visitedHead.IsFirstMostVisited edge ∧ chosen.move = edge.move.mirrored) ∧
    chosen.world = (4, List.replicate 3 ⟨"oo./.x./x.x", [edgeSquare]⟩) ∧
    (visitedGame.trees.get .black).HasVisits 10 chosen.move := by
  obtain ⟨hchoice, -, hvisits⟩ := retry_chooses_visited_move (rfl : visitedGame.abort.inFlight = none)
    insistentSetup .black insistentEngine_offers
  have hfew : ∀ resets ≤ 4, ¬(visitedGame.trees.get .black).HasVisits 10
      (if resets = 0 then winningSquare else edgeSquare) := by
    unfold GameTree.HasVisits
    decide
  rcases hchoice with ⟨resets, hle, henough, -⟩ | ⟨-, edge, hfirst, hmove, hworld⟩
  · exact absurd henough (hfew resets hle)
  · exact ⟨⟨edge, hfirst, hmove⟩, hworld, hvisits inferInstance (by decide)⟩

end SelfPlay
