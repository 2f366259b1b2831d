import SelfPlay.Proofs.Lookahead.Group
import SelfPlay.Proofs.Lookahead.Start
import SelfPlay.Proofs.Numeric.Order

/-!
# Children of games

A game has a child for each legal move. A group step is said here without trees, candidates or
samples: a network is asked about the children that the rules leave open, all games of the group
taken together and in order, and each child has its value by its place among them.
-/

namespace SelfPlay.Lookahead

open SelfPlay.Numeric

variable {ω P M : Type} [Board P M]

namespace BatchGame

/-- The game after each legal move, in the order of the moves. -/
def children (game : BatchGame P M) : List (History P) :=
  (Board.legalMoves game.record.head).map game.record.history.append

/-- The histories among these that the rules leave open. -/
def openOnes (histories : List (History P)) : List (History P) :=
  histories.filter fun history => history.result = .undecided

/-- The number of open children before child `j`. -/
def openBefore (game : BatchGame P M) (j : Nat) : Nat := (openOnes (game.children.take j)).length

/-- The value of child `j` for the side that moves: one for a win, zero for a draw, and else minus
the value of its sample, when the first open child of the game has the sample `first`. -/
def childValue? (values : List Binary32) (first : Nat) (game : BatchGame P M) (j : Nat) :
    Option Binary32 :=
  game.children[j]?.map fun child =>
    match child.result with
    | .undecided => -valueOf values (first + game.openBefore j)
    | .draw => 0
    | .won _ => 1

end BatchGame

namespace Batch

open BatchGame

/-- The open children of the games that await the side, game after game. -/
def openChildren (side : Color) (games : List (BatchGame P M)) : List (History P) :=
  (games.filter (·.awaits side)).flatMap fun game => openOnes game.children

/-- The number of open children in the games before game `i`. -/
def openBefore (side : Color) (batch : Batch P M) (i : Nat) : Nat :=
  (openChildren side (batch.games.take i)).length

/-- A history as a network that values batches is shown it. -/
def encodeOpen (format : InputFormat) (history : History P) : List Plane :=
  (history.encode format historyPlanes .fenOnly).planes

/-- The open children as a network is shown them. -/
def encodings (format : InputFormat) (side : Color) (batch : Batch P M) : List (List Plane) :=
  (openChildren side batch.games).map (encodeOpen format)

end Batch

/-! ## Samples are open children -/

theorem Candidate.ofMove_of_undecided {history : History P} {move : M}
    (h : (history.append move).result = .undecided) (format : InputFormat) :
    ofMove format history move = .sample (Batch.encodeOpen format (history.append move)) := by
  unfold ofMove
  simp only [h]
  rfl

theorem Candidate.ofMove_of_draw {history : History P} {move : M}
    (h : (history.append move).result = .draw) (format : InputFormat) :
    ofMove format history move = .settled 0 := by
  unfold ofMove
  simp only [h]

theorem Candidate.ofMove_of_won {history : History P} {move : M} {side : Color}
    (h : (history.append move).result = .won side) (format : InputFormat) :
    ofMove format history move = .settled 1 := by
  unfold ofMove
  simp only [h]

theorem samples_ofMove (format : InputFormat) (history : History P) (moves : List M) :
    samples (moves.map (Candidate.ofMove format history)) =
      (BatchGame.openOnes (moves.map history.append)).map (Batch.encodeOpen format) := by
  induction moves with
  | nil => rfl
  | cons move rest ih =>
    rw [List.map_cons, List.map_cons, BatchGame.openOnes]
    cases h : (history.append move).result with
    | undecided =>
      rw [Candidate.ofMove_of_undecided h, samples_sample, ih,
        List.filter_cons_of_pos (by simp [h])]
      rfl
    | draw =>
      rw [Candidate.ofMove_of_draw h, samples_settled, ih, List.filter_cons_of_neg (by simp [h])]
      rfl
    | won side =>
      rw [Candidate.ofMove_of_won h, samples_settled, ih, List.filter_cons_of_neg (by simp [h])]
      rfl

namespace BatchGame

theorem candidates_expand {game : BatchGame P M} (h : game.tree.IsFresh) (format : InputFormat) :
    candidates format game.expand.tree =
      (Board.legalMoves game.record.head).map
        (Candidate.ofMove format game.record.history) := by
  have hedges : game.expand.tree.head.edges = _ := GameTree.edges_expand h
  unfold candidates
  rw [hedges, List.map_map]
  rfl

theorem samples_expand {game : BatchGame P M} (h : game.tree.IsFresh) (format : InputFormat) :
    samples (candidates format game.expand.tree) =
      (openOnes game.children).map (Batch.encodeOpen format) := by
  rw [candidates_expand h, samples_ofMove, children]

/-- The scores of a game are the values of its children. -/
theorem getElem?_scores {game : BatchGame P M} (h : game.tree.IsFresh) (format : InputFormat)
    (values : List Binary32) (first j : Nat) :
    (scores (valueOf values) first (candidates format game.expand.tree))[j]? =
      game.childValue? values first j := by
  rw [candidates_expand h]
  unfold childValue? openBefore children
  rw [List.getElem?_map]
  cases hmove : (Board.legalMoves game.record.head)[j]? with
  | none =>
    have hlength := List.getElem?_eq_none_iff.mp hmove
    exact List.getElem?_eq_none_iff.mpr (by rw [length_scores, List.length_map]; exact hlength)
  | some move =>
    have hcandidate : ((Board.legalMoves game.record.head).map
        (Candidate.ofMove format game.record.history))[j]? =
          some (Candidate.ofMove format game.record.history move) := by
      rw [List.getElem?_map, hmove, Option.map_some]
    simp only [Option.map_some]
    cases hresult : (game.record.history.append move).result with
    | undecided =>
      rw [Candidate.ofMove_of_undecided hresult] at hcandidate
      rw [getElem?_scores_sample (valueOf values) first hcandidate, ← List.map_take,
        samples_ofMove, List.length_map, ← List.map_take]
    | draw =>
      rw [Candidate.ofMove_of_draw hresult] at hcandidate
      exact getElem?_scores_settled (valueOf values) first hcandidate
    | won side =>
      rw [Candidate.ofMove_of_won hresult] at hcandidate
      exact getElem?_scores_settled (valueOf values) first hcandidate

theorem isNaN_valueOf {values : List Binary32} (h : ∀ value ∈ values, value.isNaN = false)
    (number : Nat) : (valueOf values number).isNaN = false := by
  unfold valueOf
  rw [List.getD_eq_getElem?_getD]
  cases hvalue : values[number]? with
  | none => exact Binary32.isNaN_zero
  | some value => exact h value (List.mem_of_getElem? hvalue)

theorem isNaN_childValue? {values : List Binary32} (h : ∀ value ∈ values, value.isNaN = false)
    {first j : Nat} {game : BatchGame P M} {value : Binary32}
    (hvalue : game.childValue? values first j = some value) : value.isNaN = false := by
  unfold childValue? at hvalue
  obtain ⟨child, -, rfl⟩ := Option.map_eq_some_iff.mp hvalue
  split
  · rw [Binary32.isNaN_neg]
    exact isNaN_valueOf h _
  · exact Binary32.isNaN_zero
  · exact Binary32.isNaN_one

/-- Values that no child asks for do not matter. -/
theorem childValue?_congr {game : BatchGame P M} (h : openOnes game.children = [])
    (values others : List Binary32) (first j : Nat) :
    game.childValue? values first j = game.childValue? others first j := by
  unfold childValue?
  cases hchild : game.children[j]? with
  | none => rfl
  | some child =>
    have hopen : child.result ≠ .undecided := by
      intro hopen
      have hmem : child ∈ openOnes game.children :=
        List.mem_filter.mpr ⟨List.mem_of_getElem? hchild, by simp [hopen]⟩
      rw [h] at hmem
      cases hmem
    simp only [Option.map_some]
    split
    · contradiction
    · rfl
    · rfl

end BatchGame

namespace Batch

open BatchGame

/-- The samples of games that have been expanded are their open children. -/
theorem flatMap_share_expanded (format : InputFormat) (side : Color) {games : List (BatchGame P M)}
    (h : ∀ game ∈ games, game.tree.IsFresh) :
    (games.map fun game => if game.awaits side then game.expand else game).flatMap
        (share format side) =
      (openChildren side games).map (encodeOpen format) := by
  induction games with
  | nil => rfl
  | cons game rest ih =>
    obtain ⟨hgame, hrest⟩ := List.forall_mem_cons.mp h
    unfold openChildren at ih ⊢
    rw [List.map_cons, List.flatMap_cons, ih hrest]
    by_cases hawaits : game.awaits side = true
    · have hshare : game.expand.share format side = samples (candidates format game.expand.tree) :=
        if_pos hawaits
      rw [if_pos hawaits, hshare, samples_expand hgame, List.filter_cons_of_pos hawaits,
        List.flatMap_cons, List.map_append]
    · have hshare : game.share format side = [] := if_neg hawaits
      rw [if_neg hawaits, hshare, List.filter_cons_of_neg hawaits, List.nil_append]

theorem groupSamples_expandGroup {batch : Batch P M} (h : batch.IsFresh) (format : InputFormat)
    (side : Color) :
    (batch.expandGroup side).groupSamples format side =
      (openChildren side batch.games).map (encodeOpen format) := by
  rw [groupSamples, ← flatMap_share]
  exact flatMap_share_expanded format side h

theorem firstSample_expandGroup {batch : Batch P M} (h : batch.IsFresh) (format : InputFormat)
    (side : Color) (i : Nat) :
    firstSample format side (batch.expandGroup side).games i =
      batch.openBefore side i := by
  rw [openBefore, firstSample, expandGroup, ← List.map_take,
    flatMap_share_expanded format side fun game hmem => h game (List.mem_of_mem_take hmem),
    List.length_map]

/-- The sample of an open child has the number of open children before it. -/
theorem getElem?_encodings {batch : Batch P M} (h : batch.IsFresh) (format : InputFormat)
    {side : Color} {i j : Nat} {game : BatchGame P M} {child : History P}
    (hi : batch.games[i]? = some game) (hawaits : game.awaits side = true)
    (hj : game.children[j]? = some child) (hopen : child.result = .undecided) :
    (batch.encodings format side)[batch.openBefore side i + game.openBefore j]? =
      some (encodeOpen format child) := by
  have hfresh := h game (List.mem_of_getElem? hi)
  obtain ⟨move, hmove, rfl⟩ : ∃ move, (Board.legalMoves game.record.head)[j]? = some move ∧
      game.record.history.append move = child := by
    rw [children, List.getElem?_map] at hj
    exact Option.map_eq_some_iff.mp hj
  have hcandidate : (candidates format game.expand.tree)[j]? =
      some (.sample (encodeOpen format (game.record.history.append move))) := by
    rw [candidates_expand hfresh, List.getElem?_map, hmove, Option.map_some,
      Candidate.ofMove_of_undecided hopen]
  have hnumber : (samples ((candidates format game.expand.tree).take j)).length =
      game.openBefore j := by
    rw [candidates_expand hfresh, ← List.map_take, samples_ofMove, List.length_map,
      BatchGame.openBefore, children, List.map_take]
  have hexpanded : (batch.expandGroup side).games[i]? = some game.expand := by
    rw [getElem?_expandGroup, hi, Option.map_some, if_pos hawaits]
  have hshare : game.expand.share format side = samples (candidates format game.expand.tree) :=
    if_pos hawaits
  have hsample := getElem?_samples hcandidate
  rw [hnumber, ← hshare] at hsample
  have hall := getElem?_share hexpanded hsample
  rw [firstSample_expandGroup h, flatMap_share] at hall
  rw [encodings, ← groupSamples_expandGroup h]
  exact hall

end Batch

end SelfPlay.Lookahead
