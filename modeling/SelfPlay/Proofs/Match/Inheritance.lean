import SelfPlay.Proofs.Match.Statistic
import SelfPlay.Proofs.Match.Stops
import SelfPlay.Proofs.Match.TreeModes

/-!
# What a search starts from

The tree that an engine is handed is empty, or it is what the last search on that tree has left
below the moves played since. The journal knows which search that was (`Journal.lastSearch`), and
`Continues` ties a tree to it, move by move. Only one thing may come in between: a side that does not
reuse its tree empties it before its search, and if then no engine is made, it stays so until that
side tries again. This is what the argument `loose` of `Continues` allows for.

How many moves come between two searches is a matter of its own (`Spaced`). With a tree for each side
it takes a board on which the sides take turns.
-/

namespace SelfPlay

open SelfPlay.Numeric

/-- Each move is one ply, so the sides take turns. -/
def Board.CountsPlies (P : Type) {M : Type} [Board P M] : Prop :=
  ∀ (position : P) (move : M), ply (play position move) = ply position + 1

theorem Board.sideToMove_play {P M : Type} [Board P M] (h : CountsPlies P) (position : P)
    (move : M) : sideToMove (play position move) = (sideToMove position).opponent := by
  unfold sideToMove
  rw [h, Color.ofPly_succ]

section

variable {M : Type} [DecidableEq M]

/-- A line of moves leads from a node to another one that is there. -/
inductive Node.Reaches : Node M → List M → Node M → Prop
  | here {node : Node M} : Reaches node [] node
  | step {node child target : Node M} {edge : Edge M (Node M)} {move : M} {rest : List M} :
      node.edge? move = some edge → edge.child = some child → Reaches child rest target →
      Reaches node (move :: rest) target

theorem Node.follow_empty (line : List M) : (empty : Node M).follow line = empty := by
  unfold follow
  induction line with
  | nil => rfl
  | cons move rest ih => exact ih

theorem Node.follow_append (node : Node M) (line : List M) (move : M) :
    node.follow (line ++ [move]) = (node.follow line).descend move := List.foldl_append

theorem Node.descend_cases (node : Node M) (move : M) :
    (∃ edge, node.edge? move = some edge ∧ edge.child = some (node.descend move)) ∨
      (∀ edge, node.edge? move = some edge → edge.child = none) ∧ node.descend move = empty := by
  unfold descend
  cases hedge : node.edge? move with
  | none => exact .inr ⟨(by rintro edge ⟨⟩), rfl⟩
  | some edge =>
    cases hchild : edge.child with
    | none => exact .inr ⟨(by rintro edge ⟨⟩; exact hchild), by rw [Option.bind_some, hchild]; rfl⟩
    | some child => exact .inl ⟨edge, rfl, by rw [Option.bind_some, hchild]; rfl⟩

/-- Following a line leads to the node that it reaches, or to an empty one if there is none. -/
theorem Node.reaches_follow (node : Node M) (line : List M) :
    node.Reaches line (node.follow line) ∨
      (∀ target, ¬node.Reaches line target) ∧ node.follow line = empty := by
  induction line generalizing node with
  | nil => exact .inl .here
  | cons move rest ih =>
    have hfollow : node.follow (move :: rest) = (node.descend move).follow rest := rfl
    rw [hfollow]
    rcases node.descend_cases move with ⟨edge, hedge, hchild⟩ | ⟨hnone, hempty⟩
    · rcases ih (node.descend move) with hreaches | ⟨hnever, hempty⟩
      · exact .inl (.step hedge hchild hreaches)
      · refine .inr ⟨fun target hreaches => ?_, hempty⟩
        cases hreaches with
        | step hedge' hchild' hrest =>
          cases hedge.symm.trans hedge'
          cases hchild.symm.trans hchild'
          exact hnever target hrest
    · refine .inr ⟨fun target hreaches => ?_, by rw [hempty, follow_empty]⟩
      cases hreaches with
      | step hedge hchild =>
        rw [hnone _ hedge] at hchild
        cases hchild

end

variable {ω P M R : Type}

/-- A search that is over, whether it has failed or not. -/
structure EndedSearch (ω P M R : Type) where
  launch : Launch ω P M R
  fault : Option Fault
  head : Node M

namespace Journal

/-- The searches that are over, oldest first. -/
def searches : Journal ω P M R → List (EndedSearch ω P M R)
  | [] => []
  | .ended launch fault head _ :: rest => ⟨launch, fault, head⟩ :: searches rest
  | _ :: rest => searches rest

theorem searches_append (before after : Journal ω P M R) :
    searches (before ++ after) = before.searches ++ after.searches := by
  induction before with
  | nil => rfl
  | cons entry before ih =>
    cases entry with
    | ended => exact congrArg (_ :: ·) ih
    | _ => exact ih

/-- An engine in a longer journal was made before it was lengthened or since. -/
theorem launched_cases {journal entries before after : Journal ω P M R} {launch : Launch ω P M R}
    (h : journal ++ entries = before ++ .launched launch :: after) :
    (∃ rest, journal = before ++ .launched launch :: rest) ∨
      ∃ skipped, before = journal ++ skipped ∧ entries = skipped ++ .launched launch :: after := by
  rcases List.append_eq_append_iff.mp h with ⟨skipped, hbefore, hentries⟩ | ⟨rest, hjournal, hrest⟩
  · exact .inr ⟨skipped, hbefore, hentries⟩
  · cases rest with
    | nil =>
      rw [List.append_nil] at hjournal
      exact .inr ⟨[], by rw [List.append_nil, hjournal], hrest.symm⟩
    | cons entry rest =>
      obtain ⟨rfl, rfl⟩ := List.cons.inj hrest
      exact .inl ⟨rest, hjournal⟩

end Journal

theorem Flight.searches {launch : Launch ω P M R} {written : BestMove M → BestMove M}
    {outcome : SearchOutcome ω M} {asked : Bool} {entries : Journal ω P M R}
    (h : Flight launch written outcome asked entries) :
    entries.searches = [⟨launch, outcome.fault, outcome.head⟩] := by
  induction h with
  | ended => rfl
  | announced _ _ ih => exact ih
  | asked _ ih => exact ih

variable [Board P M]

/-- The search was made on the tree of a side. -/
def EndedSearch.isOn (shared : Bool) (side : Color) (search : EndedSearch ω P M R) : Bool :=
  shared || decide (search.launch.tree.sideToMove = side)

theorem EndedSearch.isOn_iff {shared : Bool} {side : Color} {search : EndedSearch ω P M R} :
    search.isOn shared side = true ↔ shared = true ∨ side = search.launch.tree.sideToMove := by
  unfold isOn
  rw [Bool.or_eq_true, decide_eq_true_eq, eq_comm (a := side)]

/-- The last search that was made on the tree of a side. -/
def Journal.lastSearch (shared : Bool) (side : Color) (journal : Journal ω P M R) :
    Option (EndedSearch ω P M R) :=
  (journal.searches.filter (·.isOn shared side)).getLast?

namespace Journal

variable {shared : Bool} {side : Color} {journal entries : Journal ω P M R}
  {search : EndedSearch ω P M R}

theorem lastSearch_append_of_nil (h : entries.searches = []) :
    lastSearch shared side (journal ++ entries) = journal.lastSearch shared side := by
  unfold lastSearch
  rw [searches_append, h, List.append_nil]

theorem lastSearch_append_of_isOn (h : entries.searches = [search])
    (hon : search.isOn shared side = true) :
    lastSearch shared side (journal ++ entries) = some search := by
  unfold lastSearch
  rw [searches_append, h, List.filter_append, List.filter_cons_of_pos hon]
  exact List.getLast?_concat

theorem lastSearch_append_of_not_isOn (h : entries.searches = [search])
    (hon : search.isOn shared side = false) :
    lastSearch shared side (journal ++ entries) = journal.lastSearch shared side := by
  unfold lastSearch
  rw [searches_append, h, List.filter_append, List.filter_cons_of_neg (Bool.eq_false_iff.mp hon)]
  exact congrArg List.getLast? (List.append_nil _)

/-- After a search, the last one on a side's tree is this one or the one that it was before. -/
theorem lastSearch_append_cases (h : entries.searches = [search]) {last : EndedSearch ω P M R}
    (hlast : lastSearch shared side (journal ++ entries) = some last) :
    (shared = true ∨ side = search.launch.tree.sideToMove) ∧ last = search ∨
      ¬(shared = true ∨ side = search.launch.tree.sideToMove) ∧
        journal.lastSearch shared side = some last := by
  rw [← EndedSearch.isOn_iff]
  cases hon : search.isOn shared side with
  | true =>
    rw [lastSearch_append_of_isOn h hon] at hlast
    exact .inl ⟨rfl, (Option.some.inj hlast).symm⟩
  | false =>
    rw [lastSearch_append_of_not_isOn h hon] at hlast
    exact .inr ⟨Bool.false_ne_true, hlast⟩

end Journal

theorem GameRecord.moveCount_foldl_playRelative (record : GameRecord P M) (line : List M) :
    (line.foldl GameRecord.playRelative record).moveCount = record.moveCount + line.length := by
  induction line generalizing record with
  | nil => rfl
  | cons move rest ih =>
    rw [List.foldl_cons, ih, List.length_cons]
    have hplayed : (record.playRelative move).moveCount = record.moveCount + 1 := rfl
    omega

/-- How many moves lie between the last search on a side's tree and now. -/
structure Spaced (P : Type) {M : Type} [Board P M] (shared : Bool) (mover side : Color)
    (fault : Option Fault) (moves : Nat) : Prop where
  failed : fault ≠ none → moves = 0 ∧ (shared = true ∨ side = mover)
  single : fault = none → shared = true → moves = 1
  separate : fault = none → shared = false → Board.CountsPlies P →
    moves = if side = mover then 2 else 1

namespace Spaced

variable {shared : Bool} {mover side : Color} {fault : Option Fault}

theorem ofFailed (hfault : fault ≠ none) (hon : shared = true ∨ side = mover) :
    Spaced P shared mover side fault 0 :=
  ⟨fun _ => ⟨rfl, hon⟩, fun hnone => absurd hnone hfault, fun hnone => absurd hnone hfault⟩

/-- One move after a search by `side`. -/
theorem ofPlayed (hfault : fault = none) (hon : shared = true ∨ side = mover) {next : Color}
    (hnext : Board.CountsPlies P → next = mover.opponent) :
    Spaced P shared next side fault 1 := by
  refine ⟨fun hfailed => absurd hfault hfailed, fun _ _ => rfl, fun _ hseparate hplies => ?_⟩
  have hside : side = mover := by
    rcases hon with hshared | hside
    · rw [hseparate] at hshared
      cases hshared
    · exact hside
  rw [hnext hplies, hside, if_neg (Color.opponent_ne mover).symm]

/-- One move more since a search by the side that waits. -/
theorem play {moves : Nat} (h : Spaced P shared mover side fault moves)
    (hon : ¬(shared = true ∨ side = mover)) {next : Color}
    (hnext : Board.CountsPlies P → next = mover.opponent) :
    Spaced P shared next side fault (moves + 1) := by
  obtain ⟨hshared, hne⟩ := not_or.mp hon
  refine ⟨fun hfailed => absurd (h.failed hfailed).2 hon, fun _ hone => absurd hone hshared, ?_⟩
  intro hfault hseparate hplies
  have hmoves := h.separate hfault hseparate hplies
  rw [if_neg hne] at hmoves
  have hside : side = next := by
    rw [hnext hplies]
    exact (Color.eq_or_eq_opponent side mover).resolve_left hne
  rw [hmoves, if_pos hside]

end Spaced

variable [DecidableEq M]

/-- A tree is what the last search on it has left below the moves played since. If `loose` holds,
it may have been emptied in the meantime. -/
structure Continues (shared : Bool) (journal : Journal ω P M R) (side : Color) (loose : Prop)
    (tree : GameTree P M) : Prop where
  first : journal.lastSearch shared side = none → tree.head = .empty
  later : ∀ search, journal.lastSearch shared side = some search → ∃ line : List M,
    tree.record = line.foldl GameRecord.playRelative search.launch.tree.record ∧
      (tree.head = search.head.follow line ∨ loose ∧ tree.head = .empty)

namespace Continues

variable {shared : Bool} {journal entries : Journal ω P M R} {side : Color} {loose : Prop}
  {tree : GameTree P M}

theorem weaken (h : Continues shared journal side loose tree) {other : Prop}
    (hloose : loose → other) : Continues shared journal side other tree := by
  refine ⟨h.first, fun search hsearch => ?_⟩
  obtain ⟨line, hrecord, hhead⟩ := h.later search hsearch
  exact ⟨line, hrecord, hhead.imp_right (And.imp_left hloose)⟩

theorem trim (h : Continues shared journal side loose tree) (hloose : loose) :
    Continues shared journal side loose tree.trim := by
  refine ⟨fun _ => rfl, fun search hsearch => ?_⟩
  obtain ⟨line, hrecord, -⟩ := h.later search hsearch
  exact ⟨line, hrecord, .inr ⟨hloose, rfl⟩⟩

theorem congr (h : Continues shared journal side loose tree) {later : Journal ω P M R}
    (hsame : later.lastSearch shared side = journal.lastSearch shared side) :
    Continues shared later side loose tree := by
  constructor
  · intro hnone
    exact h.first (hsame.symm.trans hnone)
  · intro search hsearch
    exact h.later search (hsame.symm.trans hsearch)

/-- A search that is over starts the tree anew. -/
theorem ended {search : EndedSearch ω P M R}
    (hsearch : journal.lastSearch shared side = some search)
    (hrecord : tree.record = search.launch.tree.record) (hhead : tree.head = search.head) :
    Continues shared journal side False tree := by
  constructor
  · intro hnone
    rw [hsearch] at hnone
    cases hnone
  · intro last hlast
    cases hsearch.symm.trans hlast
    exact ⟨[], hrecord, .inl hhead⟩

variable [BoardMove M]

/-- A move descends in the tree, along the edge that following the line comes to. -/
theorem play (h : Continues shared journal side False tree) (move : M) :
    Continues shared journal side False (tree.play move) := by
  refine ⟨fun hnone => ?_, fun search hsearch => ?_⟩
  · rw [GameTree.play, h.first hnone]
    rfl
  · obtain ⟨line, hrecord, hhead⟩ := h.later search hsearch
    have hfollow := hhead.resolve_right And.left
    refine ⟨line ++ [BoardMove.relativeTo move tree.sideToMove], ?_, .inl ?_⟩
    · rw [List.foldl_append, ← hrecord]
      rfl
    · rw [Node.follow_append, ← hfollow]
      rfl

end Continues

/-- What an engine is handed: an empty tree if its side does not reuse its tree or if this is the
first search on it; otherwise what the last search has left below the moves played since. -/
structure Handed (shared reuse : Bool) (journal : Journal ω P M R) (tree : GameTree P M) :
    Prop where
  forgotten : reuse = false → tree.head = .empty
  first : journal.lastSearch shared tree.sideToMove = none → tree.head = .empty
  inherited : ∀ search, journal.lastSearch shared tree.sideToMove = some search → ∃ line : List M,
    tree.record = line.foldl GameRecord.playRelative search.launch.tree.record ∧
    (reuse = true → search.head.Reaches line tree.head ∨
      (∀ target, ¬search.head.Reaches line target) ∧ tree.head = .empty) ∧
    (search.fault ≠ none → line = []) ∧
    (search.fault = none → shared = true → line.length = 1) ∧
    (search.fault = none → shared = false → Board.CountsPlies P → line.length = 2)

theorem Choosing.searches [BoardMove M] {engine : SearchEngine ω M R} {tree : GameTree P M}
    {minimum : Nat} {report : M → DiscardedMove M} {asked last : Bool} {entries : Journal ω P M R}
    (h : Choosing engine tree minimum report asked last entries) : entries.searches = [] := by
  induction h with
  | chosen => rfl
  | discarded _ _ _ _ ih => exact ih
  | asked _ ih => exact ih

namespace Game

section

variable [BoardMove M] [Scalar R]

theorem ne_undecided_of_verdict {options : SelfPlayOptions R} {side : Color} {number : Nat}
    {eval : BestEval R} {result : GameResult}
    (h : options.verdict side number eval = some result) : result ≠ .undecided := by
  rintro rfl
  unfold SelfPlayOptions.verdict verdictByOdds GameResult.lost at h
  split at h
  · cases h
  · split at h
    · split at h
      · cases h
      · split at h
        · cases h
        · split at h <;> cases h
    · split at h <;> cases h

/-- A search leaves its trees and, unless it has failed, a closed game; or a move is made in them. -/
theorem landing_cases {setup : MatchSetup ω P M R} {request : PlayRequest} {game after : Game ω P M R}
    {side : Color} {engine : SearchEngine ω M R} {outcome : SearchOutcome ω M}
    {ending : Option PlayEnd} {entries : Journal ω P M R}
    (h : Landing setup request game side engine outcome ending after entries) :
    (after.trees = (game.land side outcome).trees ∧
      (after.abort.requested = false → after.result = .undecided → outcome.fault ≠ none)) ∨
    outcome.fault = none ∧ ∃ move, after.trees = (game.land side outcome).trees.play move := by
  cases h with
  | failed hfault =>
    refine .inl ⟨rfl, fun _ _ hnone => ?_⟩
    rw [hnone] at hfault
    cases hfault
  | halted _ hrequested =>
    refine .inl ⟨rfl, fun hrun => ?_⟩
    have hstopped : outcome.abort.requested = false := hrun
    rw [hrequested] at hstopped
    cases hstopped
  | resigned _ _ _ hverdict =>
    refine .inl ⟨by rw [searched_eq], fun _ hresult => ?_⟩
    exact absurd hresult (ne_undecided_of_verdict hverdict)
  | @moved chosen _ hfault =>
    refine .inr ⟨hfault, chosen.move, ?_⟩
    rw [searched_eq]

/-- Nothing that follows the making of an engine is the making of another one. -/
theorem not_mem_of_landing {setup : MatchSetup ω P M R} {request : PlayRequest}
    {game after : Game ω P M R} {side : Color} {launch : Launch ω P M R}
    {written : BestMove M → BestMove M} {asked : Bool} {outcome : SearchOutcome ω M}
    {ending : Option PlayEnd} {flight rest : Journal ω P M R}
    (hflight : Flight launch written outcome asked flight)
    (hlanding : Landing setup request game side launch.engine outcome ending after rest)
    (other : Launch ω P M R) : .launched other ∉ .began launch :: flight ++ rest := by
  intro hmem
  rw [List.cons_append, List.mem_cons, List.mem_append] at hmem
  rcases hmem with hbegan | hflown | hlanded
  · cases hbegan
  · exact hflight.launched_not_mem other hflown
  · exact hlanding.launched_not_mem other hlanded

end

/-- All that a game and its journal have to do with each other as far as trees go. -/
structure Traced (shared : Bool) (options : PerSide (SelfPlayOptions R)) (game : Game ω P M R)
    (journal : Journal ω P M R) : Prop where
  mode : game.trees.isShared = shared
  inStep : game.InStep
  settled : game.options = options
  trees : ∀ side, Continues shared journal side
    ((shared = true ∨ side = game.sideToMove) ∧
      (options.get game.sideToMove).reuseTree = false) (game.trees.get side)
  spaced : game.abort.requested = false → game.result = .undecided →
    ∀ side search, journal.lastSearch shared side = some search → ∃ moves,
      game.record.moveCount = search.launch.tree.record.moveCount + moves ∧
        Spaced P shared game.sideToMove side search.fault moves
  handed : ∀ before launch after, journal = before ++ .launched launch :: after →
    Handed shared (options.get launch.tree.sideToMove).reuseTree before launch.tree

namespace Traced

variable {shared : Bool} {options : PerSide (SelfPlayOptions R)} {game : Game ω P M R}
  {journal : Journal ω P M R}

theorem prepareTree (h : game.Traced shared options journal) (side : Color) :
    Continues shared journal side
      ((shared = true ∨ side = game.sideToMove) ∧
        (options.get game.sideToMove).reuseTree = false)
      ((game.prepareTree game.sideToMove).trees.get side) := by
  have htree := h.trees side
  cases hreuse : (game.options.get game.sideToMove).reuseTree with
  | true =>
    have hsame : game.prepareTree game.sideToMove = game := if_pos hreuse
    rw [hsame]
    exact htree
  | false =>
    rw [prepareTree_of_forgets hreuse, GameTrees.get_modify, h.mode]
    split
    · rename_i hon
      rw [h.settled] at hreuse
      exact htree.trim ⟨hon, hreuse⟩
    · exact htree

/-- The tree that the factory is handed next. -/
theorem handed_next (h : game.Traced shared options journal) (hrun : game.abort.requested = false)
    (hopen : game.result = .undecided) :
    Handed shared (options.get game.sideToMove).reuseTree journal
      ((game.prepareTree game.sideToMove).trees.get game.sideToMove) := by
  have htree : (game.prepareTree game.sideToMove).trees.get game.sideToMove =
      (game.prepareTree game.sideToMove).trees.get game.sideToMove := rfl
  obtain ⟨hrecord, hside⟩ := h.inStep.searched htree
  have hcontinues := h.prepareTree game.sideToMove
  have hforgotten : (options.get game.sideToMove).reuseTree = false →
      ((game.prepareTree game.sideToMove).trees.get game.sideToMove).head = .empty := by
    intro hreuse
    rw [← h.settled] at hreuse
    rw [prepareTree_of_forgets hreuse, GameTrees.get_modify_self]
    rfl
  generalize (game.prepareTree game.sideToMove).trees.get game.sideToMove = tree
    at hrecord hside hcontinues hforgotten
  refine ⟨hforgotten, ?_, ?_⟩
  · rw [hside]
    exact hcontinues.first
  · rw [hside]
    intro search hsearch
    obtain ⟨line, hline, hhead⟩ := hcontinues.later search hsearch
    obtain ⟨moves, hmoves, hspaced⟩ := h.spaced hrun hopen game.sideToMove search hsearch
    -- what the line is follows from the records, and how long it is from their move counts
    have hlength : line.length = moves := by
      have hcount := GameRecord.moveCount_foldl_playRelative search.launch.tree.record line
      rw [← hline, hrecord] at hcount
      omega
    refine ⟨line, hline, ?_, ?_, ?_, ?_⟩
    · intro hreuse
      rcases hhead with hfollow | ⟨⟨-, hforgets⟩, -⟩
      · rw [hfollow]
        exact search.head.reaches_follow line
      · rw [hreuse] at hforgets
        cases hforgets
    · intro hfault
      exact List.length_eq_zero_iff.mp (hlength.trans (hspaced.failed hfault).1)
    · intro hfault hshared
      exact hlength.trans (hspaced.single hfault hshared)
    · intro hfault hshared hplies
      have htwo := hspaced.separate hfault hshared hplies
      rw [if_pos rfl] at htwo
      exact hlength.trans htwo

/-- Where nothing was searched nothing has to be said anew. -/
theorem quiet (h : game.Traced shared options journal) {after : Game ω P M R}
    {entries : Journal ω P M R} (hsearches : entries.searches = [])
    (hlaunches : ∀ launch, .launched launch ∉ entries) (hmode : after.trees.isShared = shared)
    (hstep : after.InStep) (hsettled : after.options = options) (hrecord : after.record = game.record)
    (htrees : ∀ side, Continues shared journal side ((shared = true ∨ side = game.sideToMove) ∧
      (options.get game.sideToMove).reuseTree = false) (after.trees.get side))
    (hopen : after.abort.requested = false → after.result = .undecided →
      game.abort.requested = false ∧ game.result = .undecided) :
    after.Traced shared options (journal ++ entries) := by
  have hside : after.sideToMove = game.sideToMove := congrArg GameRecord.sideToMove hrecord
  have hlast (side : Color) : Journal.lastSearch shared side (journal ++ entries) =
      journal.lastSearch shared side := Journal.lastSearch_append_of_nil hsearches
  refine ⟨hmode, hstep, hsettled, fun side => ?_, ?_, ?_⟩
  · rw [hside]
    exact (htrees side).congr (hlast side)
  · intro hrun hresult side search hsearch
    obtain ⟨hrun', hresult'⟩ := hopen hrun hresult
    rw [hlast] at hsearch
    rw [hrecord, hside]
    exact h.spaced hrun' hresult' side search hsearch
  · intro before launch rest hsplit
    rcases Journal.launched_cases hsplit with ⟨rest', hbefore⟩ | ⟨skipped, -, hentries⟩
    · exact h.handed before launch rest' hbefore
    · refine absurd ?_ (hlaunches launch)
      rw [hentries]
      exact List.mem_append_right _ List.mem_cons_self

/-- After a search each tree is what its last search has left. -/
theorem land (h : game.Traced shared options journal) {launch : Launch ω P M R}
    (htree : launch.tree = (game.prepareTree game.sideToMove).trees.get game.sideToMove)
    {outcome : SearchOutcome ω M} {entries : Journal ω P M R}
    (hsearches : entries.searches = [⟨launch, outcome.fault, outcome.head⟩]) (side : Color) :
    Continues shared (journal ++ entries) side False
      (((game.prepareTree game.sideToMove).land game.sideToMove outcome).trees.get side) := by
  obtain ⟨hrecord, hside⟩ := h.inStep.searched htree
  have hmode : (game.prepareTree game.sideToMove).trees.isShared = shared :=
    (isShared_prepareTree game _).trans h.mode
  unfold Game.land
  simp only
  rw [GameTrees.get_modify, hmode]
  split
  · rename_i hon
    have hisOn : EndedSearch.isOn shared side ⟨launch, outcome.fault, outcome.head⟩ = true := by
      rw [EndedSearch.isOn_iff, hside]
      exact hon
    refine Continues.ended (Journal.lastSearch_append_of_isOn hsearches hisOn) ?_ rfl
    exact ((record_prepareTree_get game _ side).trans (h.inStep side)).trans hrecord.symm
  · rename_i hoff
    have hisOn : EndedSearch.isOn shared side ⟨launch, outcome.fault, outcome.head⟩ = false := by
      rw [Bool.eq_false_iff, Ne, EndedSearch.isOn_iff, hside]
      exact hoff
    -- the side that waits may not have emptied its tree since its own search
    exact ((h.prepareTree side).weaken fun hloose => hoff hloose.1).congr
      (Journal.lastSearch_append_of_not_isOn hsearches hisOn)

variable [BoardMove M] [Scalar R]

theorem spaced_of_landing (h : game.Traced shared options journal)
    (hrun : game.abort.requested = false) (hopen : game.result = .undecided)
    {launch : Launch ω P M R}
    (htree : launch.tree = (game.prepareTree game.sideToMove).trees.get game.sideToMove)
    {outcome : SearchOutcome ω M} {entries : Journal ω P M R}
    (hsearches : entries.searches = [⟨launch, outcome.fault, outcome.head⟩])
    {setup : MatchSetup ω P M R} {request : PlayRequest} {engine : SearchEngine ω M R}
    {after : Game ω P M R} {ending : Option PlayEnd} {rest : Journal ω P M R}
    (hlanding : (game.prepareTree game.sideToMove).Landing setup request game.sideToMove engine
      outcome ending after rest)
    (hrun' : after.abort.requested = false) (hopen' : after.result = .undecided) {side : Color}
    {search : EndedSearch ω P M R}
    (hsearch : Journal.lastSearch shared side (journal ++ entries) = some search) :
    ∃ moves, after.record.moveCount = search.launch.tree.record.moveCount + moves ∧
      Spaced P shared after.sideToMove side search.fault moves := by
  obtain ⟨hrecord, hside⟩ := h.inStep.searched htree
  have hsame : (((game.prepareTree game.sideToMove).land game.sideToMove outcome).trees.get
      .white).record = game.record :=
    (record_land_get _ _ _ _).trans (record_prepareTree_get game _ _)
  have hlast := Journal.lastSearch_append_cases hsearches hsearch
  rw [hside] at hlast
  rcases landing_cases hlanding with ⟨htrees, hclosed⟩ | ⟨hfault, move, htrees⟩
  · have hafter : after.record = game.record := by
      rw [record, htrees, hsame]
    have hmover : after.sideToMove = game.sideToMove := congrArg GameRecord.sideToMove hafter
    rw [hafter, hmover]
    rcases hlast with ⟨hon, rfl⟩ | ⟨-, hbefore⟩
    · exact ⟨0, congrArg GameRecord.moveCount hrecord.symm, .ofFailed (hclosed hrun' hopen') hon⟩
    · exact h.spaced hrun hopen side search hbefore
  · have hafter : after.record = game.record.play move := by
      rw [record, htrees, GameTrees.get_play, GameTree.play, hsame]
    have hmover : Board.CountsPlies P → after.sideToMove = game.sideToMove.opponent := by
      intro hplies
      have hplayed : after.sideToMove = (game.record.play move).sideToMove :=
        congrArg GameRecord.sideToMove hafter
      rw [hplayed]
      exact Board.sideToMove_play hplies _ _
    have hcount : after.record.moveCount = game.record.moveCount + 1 := by
      rw [hafter]
      rfl
    rcases hlast with ⟨hon, rfl⟩ | ⟨hoff, hbefore⟩
    · refine ⟨1, ?_, .ofPlayed hfault hon hmover⟩
      rw [hcount, hrecord]
    · obtain ⟨moves, hmoves, hspaced⟩ := h.spaced hrun hopen side search hbefore
      refine ⟨moves + 1, ?_, hspaced.play hoff hmover⟩
      omega

theorem round (h : game.Traced shared options journal) (hopen : game.result = .undecided)
    {setup : MatchSetup ω P M R} {request : PlayRequest} {number : Nat} {after : Game ω P M R}
    {ending : Option PlayEnd} {entries : Journal ω P M R}
    (hprogress : game.Progress setup request number ending after entries) :
    after.Traced shared options (journal ++ entries) := by
  have hmode := (isShared_of_progress hprogress).trans h.mode
  have hstep := inStep_of_progress h.inStep hprogress
  have hsettled := (congrArg Settings.options (settings_of_progress hprogress)).trans h.settled
  cases hprogress with
  | decided hover =>
    refine h.quiet rfl (fun _ => List.not_mem_nil) hmode hstep hsettled rfl h.trees ?_
    intro _ hundecided
    have hrules : game.rulesResult = .undecided := hundecided
    rw [hrules] at hover
    cases hover
  | stopped _ hrequested =>
    refine h.quiet rfl (fun _ => List.not_mem_nil) hmode hstep hsettled
      (record_prepareTree_get game _ _) h.prepareTree ?_
    intro hrun
    rw [abort_prepareTree, hrequested] at hrun
    cases hrun
  | refused _ hrun =>
    -- the tree may have been emptied for a search that has not begun
    exact h.quiet rfl (by simp) hmode hstep hsettled (record_prepareTree_get game _ _) h.prepareTree
      fun _ _ => ⟨hrun, hopen⟩
  | @searched launch world launched outcome _ _ flight rest _ hrun _ htree _ _ hflight hlanding =>
    obtain ⟨hrecord, hside⟩ := h.inStep.searched htree
    have hrest : rest.searches = [] := by
      cases hlanding with
      | moved _ _ _ _ _ hchoosing => exact hchoosing.searches
      | _ => rfl
    have hsearches : Journal.searches (.launched launch :: .began launch :: flight ++ rest) =
        [⟨launch, outcome.fault, outcome.head⟩] := by
      have hsplit := Journal.searches_append flight rest
      rw [hflight.searches, hrest] at hsplit
      exact hsplit
    have hland := h.land htree hsearches
    refine ⟨hmode, hstep, hsettled, fun side => ?_, ?_, ?_⟩
    · rcases landing_cases hlanding with ⟨htrees, -⟩ | ⟨-, move, htrees⟩
      · rw [htrees]
        exact (hland side).weaken False.elim
      · rw [htrees, GameTrees.get_play]
        exact ((hland side).play move).weaken False.elim
    · intro hrun' hopen' side search hsearch
      exact h.spaced_of_landing hrun hopen htree hsearches hlanding hrun' hopen' hsearch
    · intro before other later hsplit
      rcases Journal.launched_cases hsplit with ⟨later', hbefore⟩ | ⟨skipped, hbefore, hentries⟩
      · exact h.handed before other later' hbefore
      · cases skipped with
        | nil =>
          obtain ⟨hother, -⟩ := List.cons.inj hentries
          cases hother
          rw [hbefore, List.append_nil, hside, htree]
          exact h.handed_next hrun hopen
        | cons entry skipped =>
          refine absurd ?_ (not_mem_of_landing hflight hlanding other)
          have htail := (List.cons.inj hentries).2
          rw [List.append_eq] at htail
          rw [htail]
          exact List.mem_append_right _ List.mem_cons_self

end Traced

variable [BoardMove M] [Scalar R]

theorem traced_of_begin {options : PerSide (SelfPlayOptions R)} {shared : Bool}
    {opening : Opening M} {game : Game ω P M R} (h : begin options shared opening = .ok game) :
    game.Traced shared options [] := by
  have hmode := isShared_of_begin h
  have hstep := (fresh_of_begin h).1.inStep
  obtain ⟨-, record, -, rfl⟩ := begin_eq_ok_iff.mp h
  refine ⟨hmode, hstep, rfl, fun side => ⟨fun _ => ?_, ?_⟩, ?_, ?_⟩
  · rw [get_trees_started]
  · rintro search ⟨⟩
  · rintro _ _ side search ⟨⟩
  · intro before launch after hsplit
    simp at hsplit

theorem traced_of_leads {setup : MatchSetup ω P M R} {allowed : PlayRequest → Prop}
    {options : PerSide (SelfPlayOptions R)} {shared : Bool}
    {now later : Game ω P M R × Journal ω P M R} (h : Leads setup allowed now later)
    (hnow : now.1.Traced shared options now.2) : later.1.Traced shared options later.2 := by
  induction h with
  | refl => exact hnow
  | tail _ hstep ih =>
    cases hstep with
    | round _ hopen hprogress => exact ih.round hopen hprogress
    | asked => exact ih.quiet rfl (by simp) ih.mode ih.inStep ih.settled rfl ih.trees (by rintro ⟨⟩)

end Game

variable [BoardMove M] [Scalar R]

/-- **Every search starts from the right tree.** Whatever is done to a game, each engine that has
been made was handed an empty tree if its side does not reuse its tree or if it was the first one to
search that tree, and otherwise the node that the last search on that tree has left below the moves
played since. Of these there are none if that search has failed, one if the sides share a tree, and
two if they do not. The same is true of the tree that the factory is handed next, whether it then
makes an engine or not. -/
theorem searches_start_right {options : PerSide (SelfPlayOptions R)} {shared : Bool}
    {opening : Opening M} {start : Game ω P M R}
    (hstart : Game.begin options shared opening = .ok start) (setup : MatchSetup ω P M R) (world : ω)
    (acts : List (Act ω)) :
    (∀ before launch after, start.journal setup world acts = before ++ .launched launch :: after →
      Handed shared (options.get launch.tree.sideToMove).reuseTree before launch.tree) ∧
    ∀ game entered, start.perform setup world acts = (game, entered) →
      game.abort.requested = false → game.result = .undecided →
      Handed shared (options.get game.sideToMove).reuseTree (start.journal setup world acts)
        ((game.prepareTree game.sideToMove).context setup game.sideToMove).tree := by
  have hidle : start.abort.inFlight = none :=
    congrArg AbortState.inFlight (Game.fresh_of_begin hstart).1.idle
  have htraced := Game.traced_of_leads
    (Game.leads_journal setup world hidle acts (fun _ => True) fun _ _ _ => trivial)
    (Game.traced_of_begin hstart)
  refine ⟨htraced.handed, ?_⟩
  intro game entered hgame hrun hopen
  rw [hgame] at htraced
  exact htraced.handed_next hrun hopen

namespace TicTacToe

theorem countsPlies : Board.CountsPlies Position := by
  intro position move
  show (Position.play position move).ply = position.ply + 1
  unfold Position.play Position.put
  split <;> rfl

/-- What is known when first moves have been looked at so far ahead. -/
def lookAhead : Nat → GameRecord Position Square → Node Square
  | 0, record => (⟨record, .empty⟩ : GameTree Position Square).expand.head
  | depth + 1, record =>
    let move : Square := (Board.legalMoves record.head).headD default
    (⟨record, .empty⟩ : GameTree Position Square).expand.head.modifyEdge move fun edge =>
      { edge with visits := 1, child := some (lookAhead depth (record.playRelative move)) }

/-- The engine that offers the first legal move, but looks two moves ahead. -/
def deepSetup : MatchSetup Unit Position Square Binary32 where
  players := firstMoveSetup.players
  factory := ⟨fun _ => [], fun context world =>
    (.ok { firstMoveEngine context.tree with
      run := fun _ => .finish none (lookAhead 2 context.tree.record) }, world)⟩

def reusing : SelfPlayOptions Binary32 :=
  { (SelfPlayOptions.default : SelfPlayOptions Binary32) with reuseTree := true }

/-- A game at its beginning, with a tree for each side. -/
def reusingGame : Game Unit Position Square Binary32 :=
  { firstMoveGame with
    options := ⟨reusing, reusing⟩
    trees := .independent ⟨⟨⟨⟨0, 0, 0⟩, []⟩, .empty⟩, ⟨⟨⟨0, 0, 0⟩, []⟩, .empty⟩⟩ }

theorem begin_reusingGame :
    Game.begin ⟨reusing, reusing⟩ false ⟨".../.../...", []⟩ = .ok reusingGame :=
  Game.begin_eq_ok_iff.mpr ⟨rfl, _, ofOpening_empty, rfl⟩

end TicTacToe

open TicTacToe in
/-- White's second search begins with what its first one has found out about the position after
white's move and black's reply. -/
theorem deep_searches_start_right :
    ∃ (game : Game Unit Position Square Binary32) (search : EndedSearch Unit Position Square Binary32)
      (line : List Square),
      reusingGame.perform deepSetup () [.play firstMoveRequest 2] = (game, ()) ∧
      (reusingGame.journal deepSetup () [.play firstMoveRequest 2]).lastSearch false .white =
        some search ∧
      line.length = 2 ∧
      search.head.Reaches line ((game.prepareTree .white).context deepSetup .white).tree.head ∧
      ((game.prepareTree .white).context deepSetup .white).tree.head.isExpanded = true := by
  have hopen : (reusingGame.perform deepSetup () [.play firstMoveRequest 2]).1.abort.requested =
        false ∧
      (reusingGame.perform deepSetup () [.play firstMoveRequest 2]).1.result = .undecided ∧
      (reusingGame.perform deepSetup () [.play firstMoveRequest 2]).1.sideToMove = .white := by
    decide +kernel
  have htree : (((reusingGame.perform deepSetup () [.play firstMoveRequest 2]).1.prepareTree
        .white).context deepSetup .white).tree.sideToMove = .white ∧
      (((reusingGame.perform deepSetup () [.play firstMoveRequest 2]).1.prepareTree
        .white).context deepSetup .white).tree.head.isExpanded = true := by decide +kernel
  have hlast : ((reusingGame.journal deepSetup () [.play firstMoveRequest 2]).lastSearch false
      .white).map (·.fault) = some none := by decide +kernel
  obtain ⟨-, hnext⟩ := searches_start_right begin_reusingGame deepSetup ()
    [.play firstMoveRequest 2]
  generalize hgame : reusingGame.perform deepSetup () [.play firstMoveRequest 2] = now
    at hopen htree hnext
  obtain ⟨game, ⟨⟩⟩ := now
  obtain ⟨hrun, hresult, hwhite⟩ := hopen
  obtain ⟨hside, hexpanded⟩ := htree
  obtain ⟨search, hsearch, hfault⟩ := Option.map_eq_some_iff.mp hlast
  have hhanded := hnext game () rfl hrun hresult
  rw [hwhite] at hhanded
  obtain ⟨line, -, hreaches, -, -, htwo⟩ := hhanded.inherited search (by rw [hside, hsearch])
  refine ⟨game, search, line, rfl, hsearch, htwo hfault rfl countsPlies, ?_, hexpanded⟩
  rcases hreaches rfl with hreached | ⟨-, hempty⟩
  · exact hreached
  · rw [hempty] at hexpanded
    cases hexpanded

end SelfPlay
