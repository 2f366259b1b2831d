import SelfPlay.Match.Game

/-!
# The journal of a game

A game works with a factory, with the engines that the factory makes, and with its players'
callbacks. Here each of these is replaced by one that does the same and also writes down what passed
between it and the game. The game itself is played by the same functions as ever, in a world that
holds the journal beside the old world; so what the journal says is what the collaborators of any
game get to see. That the journal has no influence on the game is shown with the rounds.
-/

namespace SelfPlay

open SelfPlay.Numeric

/-- An engine that has been made for a tree. The number tells it from all others. -/
structure Launch (ω P M R : Type) where
  number : Nat
  tree : GameTree P M
  engine : SearchEngine ω M R

/-- What passes between a game and those that it works with. -/
inductive Entry (ω P M R : Type) where
  /-- The factory was asked for an engine and failed. -/
  | refused (fault : Fault)
  /-- The factory made an engine. -/
  | launched (launch : Launch ω P M R)
  /-- An engine's run began. -/
  | began (launch : Launch ω P M R)
  /-- An engine reported a best move. -/
  | offered (info : BestMove M)
  /-- A player was told of a best move. -/
  | announced (info : BestMove M)
  /-- Somebody asked the game to stop. -/
  | asked
  /-- An engine was told to stop. -/
  | told (launch : Launch ω P M R)
  /-- An engine's run ended and left a tree and a world. -/
  | ended (launch : Launch ω P M R) (fault : Option Fault) (head : Node M) (world : ω)
  /-- In some world, a player was told of a discarded move. -/
  | discarded (report : DiscardedMove M) (world : ω)

/-- Entries, oldest first. -/
abbrev Journal (ω P M R : Type) := List (Entry ω P M R)

namespace Journal

variable {ω P M R : Type}

def launches : Journal ω P M R → Nat
  | [] => 0
  | .launched _ :: rest => launches rest + 1
  | _ :: rest => launches rest

end Journal

/-- A world and the journal of what was seen in it. -/
structure Journaled (ω P M R : Type) where
  world : ω
  journal : Journal ω P M R

section

variable {ω P M R : Type}

namespace Journaled

def note (entry : Entry ω P M R) (now : Journaled ω P M R) : Journaled ω P M R :=
  { now with journal := now.journal ++ [entry] }

def noteIf (wanted : Bool) (entry : Entry ω P M R) (now : Journaled ω P M R) :
    Journaled ω P M R :=
  if wanted then now.note entry else now

def change (f : ω → ω) (now : Journaled ω P M R) : Journaled ω P M R :=
  { now with world := f now.world }

def enter (world : ω) (now : Journaled ω P M R) : Journaled ω P M R := { now with world := world }

theorem noteIf_eq (wanted : Bool) (entry : Entry ω P M R) (world : ω) (journal : Journal ω P M R) :
    (⟨world, journal⟩ : Journaled ω P M R).noteIf wanted entry =
      ⟨world, journal ++ if wanted then [entry] else []⟩ := by
  cases wanted <;> simp [noteIf, note]

end Journaled

/-- The network in a world with a journal, which it does not touch. -/
def Network.journaled (network : Network ω) : Network (Journaled ω P M R) where
  format := network.format
  evaluate batch now :=
    let evaluation := network.evaluate batch now.world
    ⟨evaluation.outcome, evaluation.stopRequested, now.enter evaluation.world⟩

def Network.bare (network : Network (Journaled ω P M R)) : Network ω where
  format := network.format
  evaluate batch world :=
    let evaluation := network.evaluate batch ⟨world, []⟩
    ⟨evaluation.outcome, evaluation.stopRequested, evaluation.world.world⟩

/-- The callbacks with all that they are told written down, and also their wish to stop. -/
def Callbacks.journaled (callbacks : Callbacks ω M) : Callbacks (Journaled ω P M R) M where
  bestMove info now :=
    let (world, stop) := callbacks.bestMove info now.world
    (((now.note (.announced info)).enter world).noteIf stop .asked, stop)
  thinking infos now :=
    let (world, stop) := callbacks.thinking infos now.world
    ((now.enter world).noteIf stop .asked, stop)
  discarded report now :=
    let (world, stop) := callbacks.discarded report now.world
    (((now.note (.discarded report now.world)).enter world).noteIf stop .asked, stop)

theorem Callbacks.bestMove_journaled (callbacks : Callbacks ω M) (info : BestMove M) (world : ω)
    (journal : Journal ω P M R) :
    callbacks.journaled.bestMove info ⟨world, journal⟩ =
      ((⟨(callbacks.bestMove info world).1, journal ++ [.announced info]⟩ :
        Journaled ω P M R).noteIf (callbacks.bestMove info world).2 .asked,
        (callbacks.bestMove info world).2) := rfl

theorem Callbacks.thinking_journaled (callbacks : Callbacks ω M) (infos : List (ThinkingInfo M))
    (world : ω) (journal : Journal ω P M R) :
    callbacks.journaled.thinking infos ⟨world, journal⟩ =
      ((⟨(callbacks.thinking infos world).1, journal⟩ :
        Journaled ω P M R).noteIf (callbacks.thinking infos world).2 .asked,
        (callbacks.thinking infos world).2) := rfl

theorem Callbacks.discarded_journaled (callbacks : Callbacks ω M) (report : DiscardedMove M)
    (world : ω) (journal : Journal ω P M R) :
    callbacks.journaled.discarded report ⟨world, journal⟩ =
      ((⟨(callbacks.discarded report world).1, journal ++ [.discarded report world]⟩ :
        Journaled ω P M R).noteIf (callbacks.discarded report world).2 .asked,
        (callbacks.discarded report world).2) := rfl

def Player.journaled (player : Player ω M) : Player (Journaled ω P M R) M where
  network := player.network.journaled
  options := player.options
  limits := player.limits
  cache := player.cache
  callbacks := player.callbacks.journaled

/-- The search with its best moves, its requests to stop and its end written down. -/
def SearchRun.journaled (launch : Launch ω P M R) :
    SearchRun ω M → SearchRun (Journaled ω P M R) M
  | .finish fault head =>
    .change (fun now => now.note (.ended launch fault head now.world)) (.finish fault head)
  | .bestMove info next => .change (·.note (.offered info)) (.bestMove info (next.journaled launch))
  | .thinking infos next => .thinking infos (next.journaled launch)
  | .requestStop next => .change (·.note .asked) (.requestStop (next.journaled launch))
  | .change f next => .change (·.change f) (next.journaled launch)
  | .look next => .look fun now => (next now.world).journaled launch

def Launch.tell (launch : Launch ω P M R) (now : Journaled ω P M R) : Journaled ω P M R :=
  (now.note (.told launch)).change launch.engine.abort

/-- The engine with its run and all calls to stop it written down. -/
def Launch.journaled (launch : Launch ω P M R) : SearchEngine (Journaled ω P M R) M R where
  run threads := .change (·.note (.began launch)) ((launch.engine.run threads).journaled launch)
  bestMove now := launch.engine.bestMove now.world
  bestEval now := launch.engine.bestEval now.world
  playouts now := launch.engine.playouts now.world
  abort := launch.tell
  resetBestMove := Journaled.change launch.engine.resetBestMove
  historyFill now := launch.engine.historyFill now.world

def SearchContext.bare (context : SearchContext (Journaled ω P M R) P M) : SearchContext ω P M where
  tree := context.tree
  network := context.network.bare
  searchMoves := context.searchMoves
  stopper := context.stopper
  infinite := context.infinite
  options := context.options
  cache := context.cache

/-- The factory with the engines that it makes, or fails to make, written down. -/
def SearchFactory.journaled (factory : SearchFactory ω P M R) :
    SearchFactory (Journaled ω P M R) P M R where
  intrinsicStoppers := factory.intrinsicStoppers
  create context now :=
    match factory.create context.bare now.world with
    | (.error fault, world) => (.error fault, (now.enter world).note (.refused fault))
    | (.ok engine, world) =>
      let launch : Launch ω P M R := ⟨now.journal.launches, context.tree, engine⟩
      (.ok launch.journaled, (now.enter world).note (.launched launch))

/-- The set-up in which all that passes is written down. -/
def MatchSetup.journaled (setup : MatchSetup ω P M R) : MatchSetup (Journaled ω P M R) P M R where
  players := setup.players.map Player.journaled
  factory := setup.factory.journaled

/-- What is done to a game from outside. -/
inductive Act (ω : Type) where
  /-- A call to play. One that has not come back yet is one with few rounds. -/
  | play (request : PlayRequest) (rounds : Nat)
  /-- A request to stop while no call to play is going on. -/
  | requestAbort
  /-- The world changes. -/
  | change (f : ω → ω)

/-- The acts that do the same with a journal, in which the request to stop is written down. -/
def Act.journaled : Act ω → List (Act (Journaled ω P M R))
  | .play request rounds => [.play request rounds]
  | .requestAbort => [.change (·.note .asked), .requestAbort]
  | .change f => [.change (·.change f)]

end

namespace Game

variable {ω P M R : Type} [BoardMove M] [DecidableEq M] [Board P M] [Scalar R]

/-- A game and its world after an act. -/
def act (setup : MatchSetup ω P M R) (now : Game ω P M R × ω) : Act ω → Game ω P M R × ω
  | .play request rounds => (playFor setup request rounds now.1 now.2).2
  | .requestAbort => now.1.requestAbort now.2
  | .change f => (now.1, f now.2)

/-- A game and its world after acts, in order. -/
def perform (game : Game ω P M R) (setup : MatchSetup ω P M R) (world : ω) (acts : List (Act ω)) :
    Game ω P M R × ω :=
  acts.foldl (act setup) (game, world)

def inWorld (game : Game ω P M R) (ω' : Type) : Game ω' P M R where
  -- What is in flight belongs to the old world.
  abort := ⟨game.abort.requested, none⟩
  options := game.options
  opening := game.opening
  trees := game.trees
  chess960 := game.chess960
  result := game.result
  samples := game.samples
  moveCount := game.moveCount
  totalNodes := game.totalNodes
  marks := game.marks

/-- What is written down when acts are done to a game. -/
def journal (game : Game ω P M R) (setup : MatchSetup ω P M R) (world : ω) (acts : List (Act ω)) :
    Journal ω P M R :=
  ((game.inWorld (Journaled ω P M R)).perform setup.journaled ⟨world, []⟩
    (acts.flatMap Act.journaled)).2.journal

end Game

end SelfPlay
