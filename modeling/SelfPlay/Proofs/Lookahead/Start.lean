import Mathlib.Data.List.Forall2
import SelfPlay.Proofs.Lookahead.Edges
import SelfPlay.TicTacToe.Game
import SelfPlay.TicTacToe.Heuristic
import SelfPlay.TicTacToe.Solver

/-!
# How a batch starts

A batch is set up game by game: each opening gives its own tree, whatever the others are.
-/

namespace SelfPlay.Lookahead

variable {ω P M : Type} [BoardMove M] [DecidableEq M] [Board P M]

namespace Batch

/-- All trees of a batch are fresh. -/
def IsFresh (batch : Batch P M) : Prop := ∀ game ∈ batch.games, game.tree.IsFresh

/-- The trees of openings are those that the openings have alone. -/
theorem treesOf_eq_ok_iff {openings : List (Opening M)} {trees : List (GameTree P M)} :
    treesOf openings = .ok trees ↔
      List.Forall₂ (fun opening tree => GameTree.ofOpening opening.fen opening.moves = .ok tree)
        openings trees := by
  induction openings generalizing trees with
  | nil =>
    constructor
    · intro h
      cases h
      exact .nil
    · intro h
      cases h
      rfl
  | cons opening rest ih =>
    rw [treesOf]
    constructor
    · intro h
      cases htree : GameTree.ofOpening (P := P) opening.fen opening.moves with
      | error error => rw [htree] at h; cases h
      | ok tree =>
        rw [htree] at h
        cases hrest : treesOf (P := P) rest with
        | error error => rw [hrest] at h; cases h
        | ok others =>
          rw [hrest] at h
          cases h
          exact .cons htree (ih.mp hrest)
    · intro h
      cases h with
      | cons htree hrest =>
        rw [htree, ih.mpr hrest]
        rfl

/-- A batch is accepted exactly if its notation and all its openings are. -/
theorem ofOpenings_eq_ok_iff {players : PerSide (Player ω M)} {openings : List (Opening M)}
    {batch : Batch P M} :
    ofOpenings players openings = .ok batch ↔
      ∃ chess960 trees, castlingNotation players = .ok chess960 ∧ treesOf openings = .ok trees ∧
        batch = ⟨chess960, trees.map fun tree => ⟨tree, .undecided⟩, 0, false⟩ := by
  constructor
  · intro h
    unfold ofOpenings at h
    cases hwritten : castlingNotation players with
    | error error => rw [hwritten] at h; cases h
    | ok chess960 =>
      cases htrees : treesOf (P := P) openings with
      | error error => rw [hwritten, htrees] at h; cases h
      | ok trees =>
        rw [hwritten, htrees] at h
        cases h
        exact ⟨chess960, trees, rfl, rfl, rfl⟩
  · rintro ⟨chess960, trees, hwritten, htrees, rfl⟩
    unfold ofOpenings
    rw [hwritten, htrees]
    rfl

variable {players : PerSide (Player ω M)} {openings : List (Opening M)} {batch : Batch P M}

theorem aborted_of_ofOpenings (h : ofOpenings players openings = .ok batch) :
    batch.aborted = false := by
  obtain ⟨chess960, trees, -, -, rfl⟩ := ofOpenings_eq_ok_iff.mp h
  rfl

theorem pliesPlayed_of_ofOpenings (h : ofOpenings players openings = .ok batch) :
    batch.pliesPlayed = 0 := by
  obtain ⟨chess960, trees, -, -, rfl⟩ := ofOpenings_eq_ok_iff.mp h
  rfl

theorem length_games_of_ofOpenings (h : ofOpenings players openings = .ok batch) :
    batch.games.length = openings.length := by
  obtain ⟨chess960, trees, -, htrees, rfl⟩ := ofOpenings_eq_ok_iff.mp h
  rw [List.length_map, (treesOf_eq_ok_iff.mp htrees).length_eq]

theorem isFresh_of_ofOpenings (h : ofOpenings players openings = .ok batch) : batch.IsFresh := by
  obtain ⟨chess960, trees, -, htrees, rfl⟩ := ofOpenings_eq_ok_iff.mp h
  intro game hmem
  obtain ⟨tree, htree, rfl⟩ := List.mem_map.mp hmem
  obtain ⟨i, hi, rfl⟩ := List.mem_iff_getElem.mp htree
  have hopenings := treesOf_eq_ok_iff.mp htrees
  have hlt : i < openings.length := by rw [hopenings.length_eq]; exact hi
  exact GameTree.isFresh_of_ofOpening (hopenings.get hlt hi)

/-- Any opening of a batch makes a batch of its own, of the game that it has among the others. -/
theorem alone_of_ofOpenings (h : ofOpenings players openings = .ok batch) {i : Nat}
    {opening : Opening M} (hi : openings[i]? = some opening) :
    ∃ game : BatchGame P M, batch.games[i]? = some game ∧
      ofOpenings players [opening] = .ok ⟨batch.chess960, [game], 0, false⟩ := by
  obtain ⟨chess960, trees, hwritten, htrees, rfl⟩ := ofOpenings_eq_ok_iff.mp h
  have hopenings := treesOf_eq_ok_iff.mp htrees
  obtain ⟨hlt, rfl⟩ := List.getElem?_eq_some_iff.mp hi
  have hlt' : i < trees.length := by rw [← hopenings.length_eq]; exact hlt
  have htree := hopenings.get hlt hlt'
  refine ⟨⟨trees[i], .undecided⟩, by simp [hlt'], ?_⟩
  exact ofOpenings_eq_ok_iff.mpr
    ⟨chess960, [trees[i]], hwritten, treesOf_eq_ok_iff.mpr (.cons htree .nil), rfl⟩

end Batch

open TicTacToe

/-- Two players that count open lines. -/
def linePlayers : PerSide (Player Unit Square) :=
  ⟨Player.ofNetwork (heuristicNetwork Unit), Player.ofNetwork (heuristicNetwork Unit)⟩

theorem linePlayers_isPointwise (side : Color) :
    (linePlayers.get side).network.IsPointwise
      ((⟨heuristicValue, heuristicValue⟩ : PerSide _).get side) := by
  cases side <;> exact heuristicNetwork_isPointwise Unit

theorem solver_isFixed (maxPieces : Nat) :
    ∀ tb ∈ some (perfectTablebase Unit maxPieces : Tablebase Unit Position),
      tb.IsFixed fun position => (outcomeOf (solve position), .ok) := by
  intro tb htb
  cases htb
  exact perfectTablebase_isFixed Unit maxPieces

/-- A game that white wins at once, and one that black wins at once. -/
def winningOpenings : List (Opening Square) := [⟨".../oo./xx.", []⟩, ⟨"x../oo./xx.", []⟩]

/-- The batch of these two games. -/
def winningBatch : Batch Position Square :=
  ⟨false,
    [⟨⟨⟨⟨0b000000011, 0b000011000, 4⟩, []⟩, .empty⟩, .undecided⟩,
      ⟨⟨⟨⟨0b001000011, 0b000011000, 5⟩, []⟩, .empty⟩, .undecided⟩], 0, false⟩

theorem ofOpenings_winningOpenings :
    Batch.ofOpenings linePlayers winningOpenings = .ok winningBatch := by
  have hwritten : Batch.castlingNotation linePlayers = .ok false := by decide +kernel
  have hfirst : Board.ofFen ".../oo./xx." = .ok (⟨0b000000011, 0b000011000, 4⟩ : Position) := rfl
  have hsecond : Board.ofFen "x../oo./xx." = .ok (⟨0b001000011, 0b000011000, 5⟩ : Position) := rfl
  have htrees : Batch.treesOf winningOpenings = .ok (winningBatch.games.map (·.tree)) := by
    unfold winningOpenings Batch.treesOf GameTree.ofOpening GameRecord.ofOpening
    rw [hfirst]
    unfold Batch.treesOf GameTree.ofOpening GameRecord.ofOpening
    rw [hsecond]
    rfl
  exact Batch.ofOpenings_eq_ok_iff.mpr ⟨_, _, hwritten, htrees, rfl⟩

end SelfPlay.Lookahead
