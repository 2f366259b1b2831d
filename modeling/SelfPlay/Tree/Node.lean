/-!
# Nodes of search trees

A node has one edge for each move that a search knows there, in the order in which they were
created. An edge counts visits and leads to a child once there is one. A node without edges has not
been expanded.
-/

namespace SelfPlay

/-- An edge: a relative move, its visits, and the node of kind `N` below it. -/
structure Edge (M N : Type) where
  /-- The move, relative to the side to move at the edge's node. -/
  move : M
  visits : Nat
  child : Option N
deriving Repr

/-- A node of a search tree. -/
inductive Node (M : Type) where
  /-- A node with the given edges. -/
  | ofEdges (edges : List (Edge M (Node M)))

namespace Edge

variable {M N : Type}

/-- The greatest count of visits: a counter stops here. -/
def maxVisits : Nat := 0xFFFFFFFF

/-- The edge of a move that was never tried. -/
def ofMove (move : M) : Edge M N := ⟨move, 0, none⟩

def setVisits (edge : Edge M N) (visits : Nat) : Edge M N := { edge with visits }

def addVisits (edge : Edge M N) (more : Nat) : Edge M N :=
  { edge with visits := min (edge.visits + more) maxVisits }

end Edge

namespace Node

variable {M : Type}

/-- A node without edges. -/
def empty : Node M := .ofEdges []

instance : Inhabited (Node M) := ⟨empty⟩

/-- The edges in the order of their creation. -/
def edges : Node M → List (Edge M (Node M))
  | .ofEdges edges => edges

def isExpanded (node : Node M) : Bool := !node.edges.isEmpty

/-- Creates edges for the given moves, unless there are edges already. -/
def expand (node : Node M) (moves : List M) : Node M :=
  if node.edges.isEmpty then .ofEdges (moves.map Edge.ofMove) else node

/-- The first edge of a move. -/
def edge? [DecidableEq M] (node : Node M) (move : M) : Option (Edge M (Node M)) :=
  node.edges.find? fun edge => edge.move = move

/-- The first edge of a move changed by `f`. -/
def modifyEdge [DecidableEq M] (node : Node M) (move : M)
    (f : Edge M (Node M) → Edge M (Node M)) : Node M :=
  .ofEdges (go node.edges)
where
  /-- The list with the first edge of the move changed. -/
  go : List (Edge M (Node M)) → List (Edge M (Node M))
    | [] => []
    | edge :: rest => if edge.move = move then f edge :: rest else edge :: go rest

def totalVisits (node : Node M) : Nat := (node.edges.map (·.visits)).foldr (· + ·) 0

/-- The visits of the most visited edge, zero if there is none. -/
def maxVisits (node : Node M) : Nat := (node.edges.map (·.visits)).foldl max 0

/-- The node that a move leads to; an empty one if it was never reached. -/
def descend [DecidableEq M] (node : Node M) (move : M) : Node M :=
  ((node.edge? move).bind (·.child)).getD empty

/-- The node that a line of moves leads to. -/
def follow [DecidableEq M] (node : Node M) (line : List M) : Node M := line.foldl descend node

/-- Whether there is an edge for each move of a line. -/
def hasLine [DecidableEq M] (node : Node M) : List M → Bool
  | [] => true
  | move :: rest => (node.edge? move).isSome && (node.descend move).hasLine rest

/-- The node with the one at the end of a line changed by `f`. Nodes on the way are created; at a
missing edge nothing happens. -/
def modifyAt [DecidableEq M] (f : Node M → Node M) : List M → Node M → Node M
  | [], node => f node
  | move :: rest, node =>
    node.modifyEdge move fun edge =>
      { edge with child := some (modifyAt f rest (edge.child.getD empty)) }

@[simp] theorem edges_ofEdges (edges : List (Edge M (Node M))) : (ofEdges edges).edges = edges := rfl

end Node

end SelfPlay
