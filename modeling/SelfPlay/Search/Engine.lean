import SelfPlay.Abort
import SelfPlay.Options.Player
import SelfPlay.Search.BestEval
import SelfPlay.Tree.GameTree

/-!
# Search engines

An engine is made anew for each move, from a context, by a factory. Its run is a dialogue with the
game: it reports lines of play, may ask the game to stop, may look at and change the world `ω`, and
in the end leaves a tree for the searched position, whether it succeeded or not. Nothing else about
the game is in its reach.
-/

namespace SelfPlay

open SelfPlay.Numeric

/-- What an engine is made from. -/
structure SearchContext (ω P M : Type) where
  tree : GameTree P M
  network : Network ω
  /-- The moves to consider; all legal ones if there are none. -/
  searchMoves : List M
  stopper : Stopper Budget
  /-- Whether to go on until told to stop. -/
  infinite : Bool
  options : OptionsDict
  cache : EvalCache

/-- The rest of a search. -/
inductive SearchRun (ω M : Type) where
  /-- The search is over: what went wrong, if anything, and the searched position's tree. -/
  | finish (fault : Option Fault) (head : Node M)
  | bestMove (info : BestMove M) (next : SearchRun ω M)
  | thinking (infos : List (ThinkingInfo M)) (next : SearchRun ω M)
  | requestStop (next : SearchRun ω M)
  | change (f : ω → ω) (next : SearchRun ω M)
  | look (next : ω → SearchRun ω M)

/-- An engine for one move. -/
structure SearchEngine (ω M R : Type) where
  run : Nat → SearchRun ω M
  /-- The best move, absolute. -/
  bestMove : ω → M
  bestEval : ω → BestEval R
  playouts : ω → Nat
  abort : ω → ω
  /-- Gives the best move up for the next one. -/
  resetBestMove : ω → ω
  /-- What training samples show of positions from before the game. -/
  historyFill : ω → HistoryFill

/-- A maker of engines. -/
structure SearchFactory (ω P M R : Type) where
  /-- Stop conditions of its own, added to those of the limits. -/
  intrinsicStoppers : OptionsDict → List (Stopper Budget)
  create : SearchContext ω P M → ω → Except Fault (SearchEngine ω M R) × ω

/-- What is left of a search when it is over. -/
structure SearchOutcome (ω M : Type) where
  /-- What went wrong, if anything. -/
  fault : Option Fault
  head : Node M
  /-- Whether a stop was asked for meanwhile. -/
  abort : AbortState ω
  world : ω

/-- Carries a search out. Reports go to the callbacks, best moves and lines in the notation that
`written` and `writtenInfo` give; a stop asked for by the engine or by a callback is passed on. -/
def SearchRun.conduct {ω M : Type} (callbacks : Callbacks ω M) (written : BestMove M → BestMove M)
    (writtenInfo : ThinkingInfo M → ThinkingInfo M) :
    SearchRun ω M → AbortState ω → ω → SearchOutcome ω M
  | .finish fault head, abort, world => ⟨fault, head, abort, world⟩
  | .bestMove info next, abort, world =>
    let (world, stop) := callbacks.bestMove (written info) world
    let (abort, world) := abort.requestIf stop world
    next.conduct callbacks written writtenInfo abort world
  | .thinking infos next, abort, world =>
    let (world, stop) := callbacks.thinking (infos.map writtenInfo) world
    let (abort, world) := abort.requestIf stop world
    next.conduct callbacks written writtenInfo abort world
  | .requestStop next, abort, world =>
    let (abort, world) := abort.request world
    next.conduct callbacks written writtenInfo abort world
  | .change f next, abort, world => next.conduct callbacks written writtenInfo abort (f world)
  | .look next, abort, world => (next world).conduct callbacks written writtenInfo abort world

end SelfPlay
