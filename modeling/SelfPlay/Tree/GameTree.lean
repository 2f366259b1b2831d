import SelfPlay.Board.GameRecord
import SelfPlay.Tree.Node

/-!
# Game trees

A game tree is a game in progress together with what searches have found out about the current
position. Playing a move keeps the part of the tree below that move and drops the rest.
-/

namespace SelfPlay

/-- A game and the search tree of its current position. -/
structure GameTree (P M : Type) where
  record : GameRecord P M
  /-- The node of the current position. -/
  head : Node M

namespace GameTree

variable {P M : Type} [BoardMove M] [Board P M] [DecidableEq M]

/-- The tree of an opening, if its start position is one and its moves are legal. -/
def ofOpening (fen : String) (moves : List M) : Except Error (GameTree P M) :=
  match GameRecord.ofOpening fen moves with
  | .error error => .error error
  | .ok record => .ok ⟨record, .empty⟩

def sideToMove (tree : GameTree P M) : Color := tree.record.sideToMove

/-- The tree after an absolute move, legal or not. -/
def play (tree : GameTree P M) (move : M) : GameTree P M :=
  ⟨tree.record.play move, tree.head.descend (BoardMove.relativeTo move tree.sideToMove)⟩

/-- The tree with an edge for each legal move of the current position, unless it has edges. -/
def expand (tree : GameTree P M) : GameTree P M :=
  { tree with head := tree.head.expand (Board.legalMoves tree.record.head) }

/-- The tree with nothing known about the current position. -/
def trim (tree : GameTree P M) : GameTree P M := { tree with head := .empty }

end GameTree

/-- The trees that two players search: one for both, or one each. -/
inductive GameTrees (P M : Type) where
  /-- Both search the same tree. -/
  | shared (tree : GameTree P M)
  /-- Each searches its own, and all moves are played in both. -/
  | independent (trees : PerSide (GameTree P M))

namespace GameTrees

variable {P M : Type}

def isShared : GameTrees P M → Bool
  | .shared _ => true
  | .independent _ => false

def get (trees : GameTrees P M) (side : Color) : GameTree P M :=
  match trees with
  | .shared tree => tree
  | .independent trees => trees.get side

/-- The trees with the one that a side searches replaced. -/
def set (trees : GameTrees P M) (side : Color) (tree : GameTree P M) : GameTrees P M :=
  match trees with
  | .shared _ => .shared tree
  | .independent trees => .independent (trees.set side tree)

/-- The trees with the one that a side searches changed by `f`. -/
def modify (trees : GameTrees P M) (side : Color) (f : GameTree P M → GameTree P M) :
    GameTrees P M :=
  trees.set side (f (trees.get side))

@[simp] theorem get_set_self (trees : GameTrees P M) (side : Color) (tree : GameTree P M) :
    (trees.set side tree).get side = tree := by
  cases trees with
  | shared => rfl
  | independent => simp [set, get]

variable [BoardMove M] [Board P M] [DecidableEq M]

def ofOpening (fen : String) (moves : List M) (shared : Bool) : Except Error (GameTrees P M) :=
  match GameTree.ofOpening fen moves with
  | .error error => .error error
  | .ok tree => .ok (if shared then .shared tree else .independent ⟨tree, tree⟩)

/-- The trees after an absolute move. -/
def play (trees : GameTrees P M) (move : M) : GameTrees P M :=
  match trees with
  | .shared tree => .shared (tree.play move)
  | .independent trees => .independent (trees.map fun tree => tree.play move)

/-- A move is played in each side's tree. -/
theorem get_play (trees : GameTrees P M) (move : M) (side : Color) :
    (trees.play move).get side = (trees.get side).play move := by
  cases trees with
  | shared => rfl
  | independent => simp [play, get]

end GameTrees

end SelfPlay
