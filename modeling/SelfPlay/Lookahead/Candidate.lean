import SelfPlay.Network
import SelfPlay.Tree.GameTree

/-!
# Candidates of a one-ply lookahead

Each edge leads to a position that the rules have decided, which has its value at once, or to
one that a network has to value. A network values a position for the side to move there, so its
value counts negatively for the side that made the move.
-/

namespace SelfPlay.Lookahead

open SelfPlay.Numeric

variable {P M : Type} [Board P M]

/-- What is known about a move before the network is asked. -/
inductive Candidate where
  /-- The value for the side that moves. -/
  | settled (value : Binary32)
  /-- The position to value. -/
  | sample (planes : List Plane)
deriving DecidableEq, Repr

/-- The number of positions of a game that a network is shown. -/
def historyPlanes : Nat := 8

/-- The candidate of a relative move: one for a game that it wins, zero for one that it draws. -/
def Candidate.ofMove (format : InputFormat) (history : History P) (move : M) : Candidate :=
  let next := history.append move
  match next.result with
  | .undecided => .sample (next.encode format historyPlanes .fenOnly).planes
  | .draw => .settled 0
  | .won _ => .settled 1

/-- The candidates of all edges of the current position, in their order. -/
def candidates (format : InputFormat) (tree : GameTree P M) : List Candidate :=
  tree.head.edges.map fun edge => Candidate.ofMove format tree.record.history edge.move

/-- The positions to value. -/
def samples (candidates : List Candidate) : List (List Plane) :=
  candidates.filterMap fun
    | .settled _ => none
    | .sample planes => some planes

/-- The values for the side that moves, when `value` gives the network's value of each sample and
the first sample here has number `next`. -/
def scores (value : Nat → Binary32) (next : Nat) : List Candidate → List Binary32
  | [] => []
  | .settled score :: rest => score :: scores value next rest
  | .sample _ :: rest => -value next :: scores value (next + 1) rest

end SelfPlay.Lookahead
