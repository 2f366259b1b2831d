import SelfPlay.Proofs.Match.Inheritance
import SelfPlay.Proofs.Match.TreeModes

/-!
# Engines that keep the rules

The loop of a game checks no move. It plays what an engine offers, or an edge that an engine has
made, and hands the part of a tree below a move on to later searches. So legality is a matter of
the engines: if each of them leaves a tree of legal edges when it was handed one, and offers legal
moves, then every tree is one of legal edges between rounds, and every move that is played is legal,
also when best moves were given up and a most visited edge was taken.
-/

namespace SelfPlay

open SelfPlay.Numeric

variable {ω P M R : Type} [Board P M]

/-- The edges of a node are legal moves of its position, and so on below each of them. -/
inductive Node.IsLegal : P → Node M → Prop
  | ofEdges {position : P} {edges : List (Edge M (Node M))} :
      (∀ edge ∈ edges, edge.move ∈ Board.legalMoves position) →
      (∀ edge ∈ edges, ∀ child, edge.child = some child →
        IsLegal (Board.play position edge.move) child) →
      IsLegal position (.ofEdges edges)

namespace Node.IsLegal

variable {position : P} {node : Node M}

theorem mem (h : node.IsLegal position) {edge : Edge M (Node M)} (hedge : edge ∈ node.edges) :
    edge.move ∈ Board.legalMoves position := by
  cases h with
  | ofEdges hmoves => exact hmoves edge hedge

theorem child (h : node.IsLegal position) {edge : Edge M (Node M)} (hedge : edge ∈ node.edges)
    {child : Node M} (hchild : edge.child = some child) :
    child.IsLegal (Board.play position edge.move) := by
  cases h with
  | ofEdges _ hchildren => exact hchildren edge hedge child hchild

theorem empty (position : P) : (Node.empty : Node M).IsLegal position := by
  refine .ofEdges ?_ ?_
  · rintro edge ⟨⟩
  · rintro edge ⟨⟩

/-- Edges for legal moves may be made. -/
theorem expand (h : node.IsLegal position) :
    (node.expand (Board.legalMoves position)).IsLegal position := by
  unfold Node.expand
  split
  · refine .ofEdges ?_ ?_
    · intro edge hedge
      obtain ⟨move, hmove, rfl⟩ := List.mem_map.mp hedge
      exact hmove
    · intro edge hedge child hchild
      obtain ⟨move, -, rfl⟩ := List.mem_map.mp hedge
      cases hchild
  · exact h

variable [DecidableEq M]

/-- A move leads to a node that is legal for the position after it. -/
theorem descend (h : node.IsLegal position) (move : M) :
    (node.descend move).IsLegal (Board.play position move) := by
  rcases node.descend_cases move with ⟨edge, hedge, hchild⟩ | ⟨-, hempty⟩
  · obtain rfl : edge.move = move := by simpa using List.find?_some hedge
    exact h.child (List.mem_of_find?_eq_some hedge) hchild
  · rw [hempty]
    exact empty _

/-- Visits of a move may be counted and a node put below it, as long as that is legal again. -/
theorem modifyEdge (h : node.IsLegal position) (move : M)
    {f : Edge M (Node M) → Edge M (Node M)} (hmove : ∀ edge, (f edge).move = edge.move)
    (hchild : ∀ edge ∈ node.edges, edge.move = move → ∀ child, (f edge).child = some child →
      child.IsLegal (Board.play position move)) :
    (node.modifyEdge move f).IsLegal position := by
  have hedges (edges : List (Edge M (Node M))) (edge : Edge M (Node M))
      (hmem : edge ∈ modifyEdge.go move f edges) :
      edge ∈ edges ∨ ∃ before ∈ edges, before.move = move ∧ edge = f before := by
    induction edges with
    | nil => exact .inl hmem
    | cons first rest ih =>
      rw [modifyEdge.go] at hmem
      split at hmem
      · rename_i hfound
        rcases List.mem_cons.mp hmem with rfl | hrest
        · exact .inr ⟨first, List.mem_cons_self, hfound, rfl⟩
        · exact .inl (List.mem_cons_of_mem _ hrest)
      · rcases List.mem_cons.mp hmem with rfl | hrest
        · exact .inl List.mem_cons_self
        · rcases ih hrest with hsame | ⟨before, hbefore, hedge⟩
          · exact .inl (List.mem_cons_of_mem _ hsame)
          · exact .inr ⟨before, List.mem_cons_of_mem _ hbefore, hedge⟩
  refine .ofEdges ?_ ?_
  · intro edge hedge
    rcases hedges _ edge hedge with hsame | ⟨before, hbefore, -, rfl⟩
    · exact h.mem hsame
    · rw [hmove]
      exact h.mem hbefore
  · intro edge hedge child hbelow
    rcases hedges _ edge hedge with hsame | ⟨before, hbefore, hat, rfl⟩
    · exact h.child hsame hbelow
    · rw [hmove, hat]
      exact hchild before hbefore hat child hbelow

end Node.IsLegal

namespace GameTree

/-- All edges of a tree are legal where they start. -/
def IsLegal (tree : GameTree P M) : Prop := tree.head.IsLegal tree.record.head

variable {tree : GameTree P M}

theorem isLegal_trim (tree : GameTree P M) : tree.trim.IsLegal := Node.IsLegal.empty _

variable [BoardMove M]

/-- An absolute move is legal in the current position. -/
def Allows (tree : GameTree P M) (move : M) : Prop :=
  BoardMove.relativeTo move tree.sideToMove ∈ Board.legalMoves tree.record.head

/-- The most visited moves of a tree of legal edges are legal. -/
theorem IsLegal.allows_mostVisited [LawfulMove M] (h : tree.IsLegal) {move : M}
    (hmove : tree.mostVisited? = some move) : tree.Allows move := by
  obtain ⟨edge, hedge, rfl⟩ := Option.map_eq_some_iff.mp hmove
  unfold Allows
  rw [BoardMove.relativeTo_relativeTo]
  exact Node.IsLegal.mem h (List.mem_of_find?_eq_some hedge)

variable [DecidableEq M]

theorem IsLegal.play (h : tree.IsLegal) (move : M) : (tree.play move).IsLegal :=
  Node.IsLegal.descend h _

end GameTree

theorem Game.legal_modify {trees : GameTrees P M} (h : ∀ side, (trees.get side).IsLegal)
    (side : Color) {f : GameTree P M → GameTree P M}
    (hf : ∀ other, trees.isShared = true ∨ other = side → (f (trees.get other)).IsLegal)
    (other : Color) :
    ((trees.modify side f).get other).IsLegal := by
  rw [GameTrees.get_modify]
  split
  · rename_i hon
    exact hf other hon
  · exact h other

theorem Game.legal_prepareTree {game : Game ω P M R}
    (h : ∀ side, (game.trees.get side).IsLegal) (side other : Color) :
    (((game.prepareTree side).trees).get other).IsLegal := by
  unfold prepareTree
  split
  · exact h other
  · exact legal_modify h side (fun other _ => GameTree.isLegal_trim _) other

variable [BoardMove M]

/-- What the search of a tree owes to the rules: it leaves a tree of legal edges, and the best moves
that it offers, one for each edge and one more, are legal. A search that failed offers none. -/
structure SearchEngine.KeepsRules (engine : SearchEngine ω M R) (callbacks : Callbacks ω M)
    (tree : GameTree P M) (outcome : SearchOutcome ω M) : Prop where
  edges : outcome.head.IsLegal tree.record.head
  best : outcome.fault = none → ∀ given now, given ≤ outcome.head.edges.length →
    engine.GivenUp callbacks.discarded outcome.world given now → tree.Allows (engine.bestMove now)

/-- A search that keeps the rules leaves trees of legal edges. -/
theorem Game.legal_land {game : Game ω P M R} (hstep : game.InStep)
    (h : ∀ side, (game.trees.get side).IsLegal) {side : Color} {engine : SearchEngine ω M R}
    {callbacks : Callbacks ω M} {outcome : SearchOutcome ω M}
    (hengine : engine.KeepsRules callbacks (game.trees.get side) outcome) (other : Color) :
    ((game.land side outcome).trees.get other).IsLegal := by
  refine legal_modify (f := fun tree => { tree with head := outcome.head }) h side
    (fun other _ => ?_) other
  unfold GameTree.IsLegal
  simp only
  rw [hstep other, ← hstep side]
  exact hengine.edges

variable [DecidableEq M]

/-- All engines keep the rules when they are made for a game that is open, with a tree of legal
edges. Nothing is asked of what they report, of how they evaluate, or of when they stop. -/
def MatchSetup.KeepsRules (setup : MatchSetup ω P M R) : Prop :=
  ∀ (game : Game ω P M R) (side : Color) (engine : SearchEngine ω M R) (threads : Nat)
    (world launched : ω), (game.trees.get side).record.history.result = .undecided →
    (game.trees.get side).IsLegal →
    setup.factory.create (game.context setup side) world = (.ok engine, launched) →
    engine.KeepsRules (setup.players.get side).callbacks (game.trees.get side)
      (game.search setup side engine threads launched)

/-- The move that is chosen is legal, whether it is a best move or an edge. -/
theorem allows_retrieveMove [LawfulMove M] {engine : SearchEngine ω M R} {callbacks : Callbacks ω M}
    {searched tree : GameTree P M} {outcome : SearchOutcome ω M}
    (h : engine.KeepsRules callbacks searched outcome) (hfault : outcome.fault = none)
    (htree : tree = { searched with head := outcome.head }) (minimum : Nat)
    {discard : M → ω → ω × Bool} {message : M → DiscardedMove M}
    (hdiscard : ∀ move now, discard move now = callbacks.discarded (message move) now)
    (asked : Bool) {retries given : Nat} (hretries : given + retries ≤ outcome.head.edges.length)
    {now : ω} (hnow : engine.GivenUp callbacks.discarded outcome.world given now) :
    tree.Allows
      (retrieveMove engine tree minimum discard retries ⟨asked, none⟩ now).move := by
  have hlegal : tree.IsLegal := by
    rw [htree]
    exact h.edges
  have hbest : tree.Allows (engine.bestMove now) := by
    rw [htree]
    exact h.best hfault given now (by omega) hnow
  induction retries generalizing given now asked with
  | zero =>
    cases haccepts : tree.accepts minimum (engine.bestMove now) with
    | true =>
      rw [retrieveMove_of_accepts haccepts]
      exact hbest
    | false =>
      rw [retrieveMove_zero haccepts]
      cases hvisited : tree.mostVisited? with
      | none => exact hbest
      | some move => exact hlegal.allows_mostVisited hvisited
  | succ retries ih =>
    -- after a reset the next best move is legal again
    have hnext {later : ω} (hlater : engine.GivenUp callbacks.discarded outcome.world (given + 1)
        later) : tree.Allows (engine.bestMove later) := by
      rw [htree]
      exact h.best hfault (given + 1) later (by omega) hlater
    cases haccepts : tree.accepts minimum (engine.bestMove now) with
    | true =>
      rw [retrieveMove_of_accepts haccepts]
      exact hbest
    | false =>
      cases hended : tree.isEndedBy (engine.bestMove now) with
      | true =>
        rw [retrieveMove_of_isEndedBy haccepts hended]
        exact ih asked (by omega) hnow.reset (hnext hnow.reset)
      | false =>
        have htold := (hnow.tell (message (engine.bestMove now))).reset
        rw [retrieveMove_of_not_isEndedBy haccepts hended]
        simp only [hdiscard, AbortState.requestIf_none]
        exact ih _ (by omega) htold (hnext htold)

namespace Game

variable [Scalar R] {setup : MatchSetup ω P M R} {request : PlayRequest} {number : Nat}
  {game after : Game ω P M R} {side : Color} {engine : SearchEngine ω M R}
  {outcome : SearchOutcome ω M} {ending : Option PlayEnd} {entries : Journal ω P M R}

/-- Both sides' trees hold the same game, and all their edges are legal. -/
structure IsLawful (game : Game ω P M R) : Prop where
  inStep : game.InStep
  legal : ∀ side, (game.trees.get side).IsLegal

theorem isLawful_of_begin {options : PerSide (SelfPlayOptions R)} {shared : Bool}
    {opening : Opening M} (h : begin options shared opening = .ok game) : game.IsLawful := by
  refine ⟨(fresh_of_begin h).1.inStep, fun side => ?_⟩
  obtain ⟨-, record, -, rfl⟩ := begin_eq_ok_iff.mp h
  rw [get_trees_started]
  exact Node.IsLegal.empty _

/-- A search that keeps the rules leads to a legal move. -/
theorem allows_chooseMove [LawfulMove M]
    (hengine : engine.KeepsRules (setup.players.get side).callbacks (game.trees.get side) outcome)
    (hfault : outcome.fault = none) :
    (game.trees.get side).Allows ((game.searched setup request side engine outcome).chooseMove setup
      side engine outcome.world).move := by
  have hsearched : game.searched setup request side engine outcome = _ := searched_eq game
  have htree : (game.searched setup request side engine outcome).trees.get side =
      { game.trees.get side with head := outcome.head } := by
    rw [hsearched]
    exact GameTrees.get_set_self _ _ _
  have habort : (game.searched setup request side engine outcome).abort =
      ⟨outcome.abort.requested, none⟩ := by
    rw [hsearched]
    rfl
  have hlength : 0 + ((game.searched setup request side engine outcome).trees.get
      side).head.edges.length ≤ outcome.head.edges.length :=
    Nat.le_of_eq ((Nat.zero_add _).trans
      (congrArg (fun tree : GameTree P M => tree.head.edges.length) htree))
  -- what the player is told of a move that is given up
  have htold (move : M) (now : ω) :
      (fun move => (setup.players.get side).callbacks.discarded
        ((game.searched setup request side engine outcome).discardReport move)) move now =
      (setup.players.get side).callbacks.discarded
        ((game.searched setup request side engine outcome).discardReport move) now := rfl
  have hallows := allows_retrieveMove hengine hfault htree
    ((game.searched setup request side engine outcome).options.get side).minimumAllowedVisits
    htold outcome.abort.requested hlength .start
  rw [← habort] at hallows
  unfold chooseMove
  rw [htree] at hallows ⊢
  exact hallows

/-- **What a round does when the engines keep the rules.** Trees stay legal; if the game goes on, it
has made a legal move from a position that the rules have not decided, and otherwise none. -/
theorem lawful_of_progress [LawfulMove M] (hsetup : setup.KeepsRules) (h : game.IsLawful)
    (hprogress : game.Progress setup request number ending after entries) :
    after.IsLawful ∧
      (ending = none → game.rulesResult = .undecided ∧
        ∃ move ∈ Board.legalMoves game.record.head, after.record = game.record.playRelative move) ∧
      (ending ≠ none → after.record = game.record) := by
  have hstep := inStep_of_progress h.inStep hprogress
  have hprepared := legal_prepareTree h.legal game.sideToMove
  cases hprogress with
  | decided => exact ⟨⟨hstep, h.legal⟩, (by rintro ⟨⟩), fun _ => rfl⟩
  | stopped =>
    exact ⟨⟨hstep, hprepared⟩, (by rintro ⟨⟩), fun _ => record_prepareTree_get game _ .white⟩
  | refused =>
    exact ⟨⟨hstep, hprepared⟩, (by rintro ⟨⟩), fun _ => record_prepareTree_get game _ .white⟩
  | @searched launch world launched outcome _ _ _ _ hopen _ _ _ hcreate houtcome _ hlanding =>
    have hready : (game.prepareTree game.sideToMove).InStep := by
      intro side
      rw [record, record_prepareTree_get, record_prepareTree_get]
      exact h.inStep side
    have hrecord : ((game.prepareTree game.sideToMove).trees.get game.sideToMove).record =
        game.record := by
      rw [record_prepareTree]
      exact h.inStep _
    have hstill : ((game.prepareTree game.sideToMove).trees.get
        game.sideToMove).record.history.result = .undecided := by
      rw [record_prepareTree]
      exact hopen
    have hengine := hsetup (game.prepareTree game.sideToMove) game.sideToMove launch.engine
      (max 1 (request.threads.get game.sideToMove)) world launched hstill (hprepared _) hcreate
    rw [houtcome] at hengine
    have hlanded := legal_land hready hprepared hengine
    have hsearched : ∀ side,
        (((game.prepareTree game.sideToMove).searched setup request game.sideToMove launch.engine
          outcome).trees.get side).IsLegal := by
      rw [searched_eq]
      exact hlanded
    cases hlanding with
    | failed =>
      refine ⟨⟨hstep, hlanded⟩, (by rintro ⟨⟩), fun _ => ?_⟩
      exact (record_land_get _ _ .white _).trans (record_prepareTree_get game _ .white)
    | halted =>
      refine ⟨⟨hstep, hlanded⟩, (by rintro ⟨⟩), fun _ => ?_⟩
      exact (record_land_get _ _ .white _).trans (record_prepareTree_get game _ .white)
    | resigned =>
      refine ⟨⟨hstep, hsearched⟩, (by rintro ⟨⟩), fun _ => ?_⟩
      exact (record_searched_get _ .white).trans (record_prepareTree_get game _ .white)
    | @moved chosen _ hfault _ _ hchosen =>
      refine ⟨⟨hstep, fun side => ?_⟩, fun _ => ⟨hopen, ?_⟩, fun hnone => absurd rfl hnone⟩
      · simp only
        rw [GameTrees.get_play]
        exact (hsearched side).play chosen.move
      · have hallows : ((game.prepareTree game.sideToMove).trees.get game.sideToMove).Allows
            (((game.prepareTree game.sideToMove).searched setup request game.sideToMove
              launch.engine outcome).chooseMove setup game.sideToMove launch.engine
              outcome.world).move :=
          allows_chooseMove hengine hfault
        rw [hchosen] at hallows
        unfold GameTree.Allows GameTree.sideToMove at hallows
        rw [hrecord] at hallows
        refine ⟨_, hallows, ?_⟩
        unfold record
        simp only
        rw [GameTrees.get_play, GameTree.play, record_searched_get, record_prepareTree_get]
        rfl

end Game

end SelfPlay
