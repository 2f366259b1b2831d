import SelfPlay.Lookahead.Batch

/-!
# Who gets which sample

The samples of a group lie in one list: game after game, and within a game edge after edge. The
scores of a game are read back by counting along the same list. `getElem?_advanceAll` says that the
count that has been reached at a game is the place where its own samples begin, and `getElem?_share`
that what lies there are its samples.
-/

namespace SelfPlay.Lookahead

open SelfPlay.Numeric

variable {ω P M : Type} [Board P M]

/-! ## Candidates of one game -/

/-- The value of a candidate for the side that moves, when `value` values encoded positions. -/
def Candidate.score (value : List Plane → Binary32) : Candidate → Binary32
  | .settled score => score
  | .sample planes => -value planes

@[simp] theorem samples_settled (score : Binary32) (rest : List Candidate) :
    samples (.settled score :: rest) = samples rest := rfl

@[simp] theorem samples_sample (planes : List Plane) (rest : List Candidate) :
    samples (.sample planes :: rest) = planes :: samples rest := rfl

@[simp] theorem length_scores (value : Nat → Binary32) (next : Nat) (options : List Candidate) :
    (scores value next options).length = options.length := by
  induction options generalizing next with
  | nil => rfl
  | cons option rest ih => cases option <;> simp [scores, ih]

/-- The sample of a candidate has the number of samples before it. -/
theorem getElem?_samples {options : List Candidate} {j : Nat} {planes : List Plane}
    (h : options[j]? = some (.sample planes)) :
    (samples options)[(samples (options.take j)).length]? = some planes := by
  induction options generalizing j with
  | nil => simp at h
  | cons option rest ih =>
    cases j with
    | zero =>
      obtain rfl : option = .sample planes := by simpa using h
      rfl
    | succ j =>
      have hrest := ih (by simpa using h)
      cases option <;> simpa using hrest

/-- A candidate that is a sample scores by the number of samples before it. -/
theorem getElem?_scores_sample {options : List Candidate} {j : Nat} {planes : List Plane}
    (value : Nat → Binary32) (next : Nat) (h : options[j]? = some (.sample planes)) :
    (scores value next options)[j]? = some (-value (next + (samples (options.take j)).length)) := by
  induction options generalizing j next with
  | nil => simp at h
  | cons option rest ih =>
    cases j with
    | zero =>
      obtain rfl : option = .sample planes := by simpa using h
      rfl
    | succ j =>
      have hj : rest[j]? = some (.sample planes) := by simpa using h
      cases option with
      | settled score => simpa [scores] using ih next hj
      | sample other =>
        have hrest := ih (next + 1) hj
        simpa [scores, Nat.add_assoc, Nat.add_comm 1] using hrest

/-- A candidate that is settled keeps its score. -/
theorem getElem?_scores_settled {options : List Candidate} {j : Nat} {score : Binary32}
    (value : Nat → Binary32) (next : Nat) (h : options[j]? = some (.settled score)) :
    (scores value next options)[j]? = some score := by
  induction options generalizing j next with
  | nil => simp at h
  | cons option rest ih =>
    cases j with
    | zero =>
      obtain rfl : option = .settled score := by simpa using h
      simp [scores]
    | succ j =>
      have hj : rest[j]? = some (.settled score) := by simpa using h
      cases option <;> simpa [scores] using ih _ hj

/-- Scores by number are scores by position, if the numbers lead to the values of the positions. -/
theorem scores_eq_map {options : List Candidate} {value : Nat → Binary32}
    {valuePlanes : List Plane → Binary32} {next : Nat}
    (h : ∀ k planes, (samples options)[k]? = some planes → value (next + k) = valuePlanes planes) :
    scores value next options = options.map (Candidate.score valuePlanes) := by
  apply List.ext_getElem?
  intro j
  rw [List.getElem?_map]
  cases hj : options[j]? with
  | none => simpa using hj
  | some option =>
    cases option with
    | settled score => exact getElem?_scores_settled value next hj
    | sample planes =>
      rw [getElem?_scores_sample value next hj, h _ planes (getElem?_samples hj)]
      rfl

namespace BatchGame

/-! ## Games of one group -/

theorem awaits_iff {game : BatchGame P M} {side : Color} :
    game.awaits side = true ↔ game.result = .undecided ∧ game.record.sideToMove = side := by
  unfold awaits
  rw [Bool.and_eq_true, Bool.not_eq_true', GameResult.isTerminal_eq_false_iff, beq_iff_eq]

/-- A game that is over awaits nobody. -/
theorem awaits_of_isTerminal {game : BatchGame P M} (h : game.result.isTerminal = true)
    (side : Color) : game.awaits side = false := by
  unfold awaits
  rw [h]
  rfl

/-- The samples of a game when `side` moves: none if it does not await that side. -/
def share (format : InputFormat) (side : Color) (game : BatchGame P M) : List (List Plane) :=
  if game.awaits side then samples (candidates format game.tree) else []

/-- The number of the first sample of the game with the given place. -/
def firstSample (format : InputFormat) (side : Color) (games : List (BatchGame P M)) (i : Nat) :
    Nat :=
  ((games.take i).flatMap (share format side)).length

theorem flatMap_share (format : InputFormat) (side : Color) (games : List (BatchGame P M)) :
    games.flatMap (share format side) =
      (games.filter (·.awaits side)).flatMap fun game => samples (candidates format game.tree) := by
  induction games with
  | nil => rfl
  | cons game rest ih =>
    rw [List.flatMap_cons, ih, List.filter_cons]
    by_cases h : game.awaits side <;> simp [share, h]

/-- From the number of its first sample on, the samples are those of the game. -/
theorem getElem?_share {games : List (BatchGame P M)} {game : BatchGame P M} {i : Nat}
    {format : InputFormat} {side : Color} (h : games[i]? = some game) {k : Nat}
    {planes : List Plane} (hk : (game.share format side)[k]? = some planes) :
    (games.flatMap (share format side))[firstSample format side games i + k]? = some planes := by
  have hi := (List.getElem?_eq_some_iff.mp h).1
  have hgame := (List.getElem?_eq_some_iff.mp h).2
  have hlt := (List.getElem?_eq_some_iff.mp hk).1
  have hgames : games = games.take i ++ game :: games.drop (i + 1) := by
    rw [← hgame, ← List.drop_eq_getElem_cons hi, List.take_append_drop]
  have hsplit : games.flatMap (share format side) =
      (games.take i).flatMap (share format side) ++
        (game.share format side ++ (games.drop (i + 1)).flatMap (share format side)) := by
    rw [← List.flatMap_cons, ← List.flatMap_append, ← hgames]
  rw [hsplit, firstSample, List.getElem?_append_right (Nat.le_add_right _ _), Nat.add_sub_cancel_left,
    List.getElem?_append_left hlt, hk]

variable [BoardMove M] [DecidableEq M]

/-- Each game that awaits the side advances by the scores of its own samples, the others stay. -/
theorem getElem?_advanceAll (format : InputFormat) (side : Color) (value : Nat → Binary32)
    (games : List (BatchGame P M)) (next i : Nat) :
    (advanceAll format side value next games)[i]? = games[i]?.map fun game =>
      if game.awaits side then
        game.advance (scores value (next + firstSample format side games i)
          (candidates format game.tree))
      else game := by
  induction games generalizing next i with
  | nil => simp [advanceAll]
  | cons game rest ih =>
    by_cases hside : game.awaits side
    · cases i with
      | zero => simp [advanceAll, hside, firstSample]
      | succ i =>
        simp only [advanceAll, hside, if_true, List.getElem?_cons_succ, ih]
        simp [firstSample, share, hside, Nat.add_assoc]
    · cases i with
      | zero => simp [advanceAll, hside]
      | succ i =>
        simp only [advanceAll, hside, Bool.false_eq_true, if_false, List.getElem?_cons_succ, ih]
        simp [firstSample, share, hside]

/-- When the values are those of the positions, each game advances by the values of its own
positions, wherever they lie in the list. -/
theorem advanceAll_eq_map {games : List (BatchGame P M)} {format : InputFormat} {side : Color}
    {value : Nat → Binary32} {valuePlanes : List Plane → Binary32}
    (h : ∀ k planes, (games.flatMap (share format side))[k]? = some planes →
      value k = valuePlanes planes) :
    advanceAll format side value 0 games = games.map fun game =>
      if game.awaits side then
        game.advance ((candidates format game.tree).map (Candidate.score valuePlanes))
      else game := by
  apply List.ext_getElem?
  intro i
  rw [getElem?_advanceAll, List.getElem?_map, Nat.zero_add]
  cases hi : games[i]? with
  | none => rfl
  | some game =>
    by_cases hside : game.awaits side
    · have hscores : scores value (firstSample format side games i)
          (candidates format game.tree) =
            (candidates format game.tree).map (Candidate.score valuePlanes) := by
        apply scores_eq_map
        intro k planes hk
        exact h _ planes (getElem?_share hi (by rw [share, if_pos hside]; exact hk))
      simp [hside, hscores]
    · simp [hside]

end BatchGame

namespace Batch

theorem getElem?_expandGroup (batch : Batch P M) (side : Color) (i : Nat) :
    (batch.expandGroup side).games[i]? =
      batch.games[i]?.map fun game => if game.awaits side then game.expand else game :=
  List.getElem?_map ..

end Batch

end SelfPlay.Lookahead
