import SelfPlay.Search.Engine

/-!
# Choosing the move to play

The engine's best move is played if no move has more visits or if it has enough of them. Otherwise
it is given up for the next best one, as often as there are edges; after that a most visited move
is played.
-/

namespace SelfPlay

variable {ω P M R : Type} [BoardMove M] [DecidableEq M] [Board P M]

namespace GameTree

/-- The visits of an absolute move in the current position. -/
def visitsOf (tree : GameTree P M) (move : M) : Nat :=
  ((tree.head.edge? (BoardMove.relativeTo move tree.sideToMove)).map (·.visits)).getD 0

/-- Whether an absolute move has as many visits as any, or at least `minimum`. -/
def accepts (tree : GameTree P M) (minimum : Nat) (move : M) : Bool :=
  let visits := tree.visitsOf move
  visits == tree.head.maxVisits || decide (minimum ≤ visits)

/-- The first of the most visited moves, absolute. -/
def mostVisited? (tree : GameTree P M) : Option M :=
  (tree.head.edges.find? fun edge => edge.visits == tree.head.maxVisits).map fun edge =>
    BoardMove.relativeTo edge.move tree.sideToMove

/-- Whether the rules decide the game after an absolute move. -/
def isEndedBy (tree : GameTree P M) (move : M) : Bool :=
  (tree.record.history.append (BoardMove.relativeTo move tree.sideToMove)).result.isTerminal

end GameTree

/-- What is left when a move has been chosen. -/
structure ChosenMove (ω M : Type) where
  /-- The move, absolute. -/
  move : M
  /-- Whether a stop was asked for meanwhile. -/
  abort : AbortState ω
  world : ω

/-- Chooses the move to play, giving up at most `retries` best moves. Each one given up that does
not end the game is told to `discard`, which may ask for a stop. -/
def retrieveMove (engine : SearchEngine ω M R) (tree : GameTree P M) (minimum : Nat)
    (discard : M → ω → ω × Bool) : Nat → AbortState ω → ω → ChosenMove ω M
  | retries, abort, world =>
    let best := engine.bestMove world
    if tree.accepts minimum best then ⟨best, abort, world⟩
    else
      match retries with
      | 0 => ⟨tree.mostVisited?.getD best, abort, world⟩
      | retries + 1 =>
        if tree.isEndedBy best then
          retrieveMove engine tree minimum discard retries abort (engine.resetBestMove world)
        else
          let (world, stop) := discard best world
          let (abort, world) := abort.requestIf stop world
          retrieveMove engine tree minimum discard retries abort (engine.resetBestMove world)

section

variable {engine : SearchEngine ω M R} {tree : GameTree P M} {minimum : Nat} {world : ω}

theorem retrieveMove_of_accepts (h : tree.accepts minimum (engine.bestMove world) = true)
    (discard : M → ω → ω × Bool) (retries : Nat) (abort : AbortState ω) :
    retrieveMove engine tree minimum discard retries abort world =
      ⟨engine.bestMove world, abort, world⟩ := by
  unfold retrieveMove
  exact if_pos h

theorem retrieveMove_zero (h : tree.accepts minimum (engine.bestMove world) = false)
    (discard : M → ω → ω × Bool) (abort : AbortState ω) :
    retrieveMove engine tree minimum discard 0 abort world =
      ⟨tree.mostVisited?.getD (engine.bestMove world), abort, world⟩ := by
  unfold retrieveMove
  exact if_neg (Bool.eq_false_iff.mp h)

/-- A move that ends the game is given up without report. -/
theorem retrieveMove_of_isEndedBy (h : tree.accepts minimum (engine.bestMove world) = false)
    (hended : tree.isEndedBy (engine.bestMove world) = true) (discard : M → ω → ω × Bool)
    (retries : Nat) (abort : AbortState ω) :
    retrieveMove engine tree minimum discard (retries + 1) abort world =
      retrieveMove engine tree minimum discard retries abort (engine.resetBestMove world) := by
  rw [retrieveMove]
  exact (if_neg (Bool.eq_false_iff.mp h)).trans (if_pos hended)

/-- Any other move that is given up is reported. -/
theorem retrieveMove_of_not_isEndedBy (h : tree.accepts minimum (engine.bestMove world) = false)
    (hended : tree.isEndedBy (engine.bestMove world) = false) (discard : M → ω → ω × Bool)
    (retries : Nat) (abort : AbortState ω) :
    retrieveMove engine tree minimum discard (retries + 1) abort world =
      let told := discard (engine.bestMove world) world
      let asked := abort.requestIf told.2 told.1
      retrieveMove engine tree minimum discard retries asked.1 (engine.resetBestMove asked.2) := by
  rw [retrieveMove]
  exact (if_neg (Bool.eq_false_iff.mp h)).trans (if_neg (Bool.eq_false_iff.mp hended))

end

end SelfPlay
