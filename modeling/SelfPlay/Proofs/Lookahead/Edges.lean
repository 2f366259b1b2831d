import SelfPlay.Lookahead.Batch

/-!
# The edges that a batch makes

A batch never visits the edges that it makes, and drops them when it plays one. So between rounds a
tree has no edges or exactly one untouched edge for each legal move, also after a network failed
in between. Which of the two it is makes no difference to the next round: `edges_expand` says what
the moves compared there are, whatever happened before.
-/

namespace SelfPlay

variable {ω P M : Type} [Board P M]

/-- Nothing is known about the current position beyond its legal moves. -/
def GameTree.IsFresh (tree : GameTree P M) : Prop :=
  tree.head.edges = [] ∨ tree.head.edges = (Board.legalMoves tree.record.head).map Edge.ofMove

theorem Node.eq_empty_of_edges_eq_nil {node : Node M} (h : node.edges = []) : node = .empty := by
  cases node with
  | ofEdges edges =>
    rw [Node.edges_ofEdges] at h
    rw [h]
    rfl

namespace GameTree

/-- The moves compared in a round are the legal ones, in their order. -/
theorem edges_expand {tree : GameTree P M} (h : tree.IsFresh) :
    tree.expand.head.edges = (Board.legalMoves tree.record.head).map Edge.ofMove := by
  unfold expand Node.expand
  rcases h with hnone | hall
  · simp [hnone]
  · split
    · rfl
    · exact hall

/-- Only legal moves are compared. -/
theorem move_mem_of_mem_edges {tree : GameTree P M} (h : tree.IsFresh) {edge : Edge M (Node M)}
    (hedge : edge ∈ tree.expand.head.edges) : edge.move ∈ Board.legalMoves tree.record.head := by
  rw [edges_expand h] at hedge
  obtain ⟨move, hmove, rfl⟩ := List.mem_map.mp hedge
  exact hmove

theorem isFresh_expand {tree : GameTree P M} (h : tree.IsFresh) : tree.expand.IsFresh :=
  Or.inr (edges_expand h)

/-- A stuck position gains no edge by looking at it. -/
theorem expand_of_legalMoves_eq_nil {tree : GameTree P M} (h : tree.IsFresh)
    (hstuck : Board.legalMoves tree.record.head = []) : tree.expand = tree := by
  have hedges : tree.head.edges = [] := by
    rcases h with hnone | hall
    · exact hnone
    · rw [hall, hstuck]; rfl
  have hhead : tree.head.expand [] = tree.head := by
    rw [Node.eq_empty_of_edges_eq_nil hedges]
    rfl
  unfold expand
  rw [hstuck, hhead]

variable [DecidableEq M]

/-- No edge of a fresh tree has a child, so a move leads to an empty node. -/
theorem descend_of_isFresh {tree : GameTree P M} (h : tree.IsFresh) (move : M) :
    tree.head.descend move = .empty := by
  have hchild : ∀ edge ∈ tree.head.edges, edge.child = none := by
    intro edge hmem
    rcases h with hnone | hall
    · rw [hnone] at hmem; cases hmem
    · rw [hall] at hmem
      obtain ⟨played, -, rfl⟩ := List.mem_map.mp hmem
      rfl
  unfold Node.descend Node.edge?
  cases hfind : tree.head.edges.find? fun edge => edge.move = move with
  | none => rfl
  | some edge => simp [hchild edge (List.mem_of_find?_eq_some hfind)]

variable [BoardMove M]

/-- After a move nothing is known about the new position. -/
theorem play_of_isFresh {tree : GameTree P M} (h : tree.IsFresh) (move : M) :
    tree.play move = ⟨tree.record.play move, .empty⟩ := by
  unfold play
  rw [descend_of_isFresh h]

theorem isFresh_play {tree : GameTree P M} (h : tree.IsFresh) (move : M) :
    (tree.play move).IsFresh := by
  rw [play_of_isFresh h]
  exact Or.inl rfl

theorem isFresh_of_ofOpening {fen : String} {moves : List M} {tree : GameTree P M}
    (h : ofOpening fen moves = .ok tree) : tree.IsFresh := by
  unfold ofOpening at h
  split at h
  · cases h
  · cases h
    exact Or.inl rfl

end GameTree

namespace Lookahead

namespace BatchGame

/-- Settling says how a game stands and leaves its tree alone. -/
theorem tree_settle (tablebase : Option (Tablebase ω P)) (game : BatchGame P M) (world : ω) :
    (game.settle tablebase world).1.tree = game.tree := by
  unfold settle
  split
  · rfl
  · simp only
    split
    · rfl
    · split <;> rfl

end BatchGame

end Lookahead

end SelfPlay
