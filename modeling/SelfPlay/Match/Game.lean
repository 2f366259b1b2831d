import SelfPlay.Match.EvalMarks
import SelfPlay.Match.Resignation
import SelfPlay.Match.Retrieval
import SelfPlay.PlayEnd
import SelfPlay.Training.Writer

/-!
# Games played by full search

Each round of a game makes an engine for the side to move, lets it search, notes a training sample
and the evaluation, and then either ends the game by resignation or plays the chosen move in the
trees of both sides. A round that fails leaves everything but the searched tree as it was.
-/

namespace SelfPlay

open SelfPlay.Numeric

structure MatchSetup (ω P M R : Type) where
  players : PerSide (Player ω M)
  factory : SearchFactory ω P M R

/-- What one call to play asks for. -/
structure PlayRequest where
  /-- Each side's number of threads; zero counts as one. -/
  threads : PerSide Nat
  training : Bool
  /-- Whether sides resign. -/
  resignation : Bool
deriving DecidableEq, Repr

structure Game (ω P M R : Type) where
  options : PerSide (SelfPlayOptions R)
  opening : Opening M
  trees : GameTrees P M
  /-- Whether castling is written as the king taking its own rook. -/
  chess960 : Bool
  result : GameResult
  /-- Whether a stop was asked for. -/
  abort : AbortState ω
  /-- The training samples, oldest first. -/
  samples : List (TrainingSample R)
  /-- The number of searches that succeeded. -/
  moveCount : Nat
  /-- The playouts of all searches that succeeded. -/
  totalNodes : Nat
  /-- The extreme evaluations. -/
  marks : EvalMarks R

namespace Game

variable {ω P M R : Type} [BoardMove M] [DecidableEq M] [Board P M] [Scalar R]

/-- A game that begins with the given options, which must agree on how sides resign. -/
def begin (options : PerSide (SelfPlayOptions R)) (shared : Bool) (opening : Opening M) :
    Except Error (Game ω P M R) :=
  if options.white.resignWdlStyle != options.black.resignWdlStyle then .error .mixedResignStyle
  else
    match GameTrees.ofOpening opening.fen opening.moves shared with
    | .error error => .error error
    | .ok trees => .ok
      { options := options
        opening := opening
        trees := trees
        chess960 := options.white.chess960 || options.black.chess960
        result := .undecided
        abort := .idle
        samples := []
        moveCount := 0
        totalNodes := 0
        marks := .start }

/-- A game between players, with the options that their dictionaries hold. -/
def ofPlayers (players : PerSide (Player ω M)) (shared : Bool) (opening : Opening M) :
    Except Error (Game ω P M Binary32) := do
  let white ← players.white.selfPlayOptions
  let black ← players.black.selfPlayOptions
  begin ⟨white, black⟩ shared opening

def requestAbort (game : Game ω P M R) (world : ω) : Game ω P M R × ω :=
  let (abort, world) := game.abort.request world
  ({ game with abort := abort }, world)

def sideToMove (game : Game ω P M R) : Color := (game.trees.get .white).sideToMove

/-- The absolute moves from the start position. -/
def moves (game : Game ω P M R) : List M := (game.trees.get .white).record.moves game.chess960

/-- The worst evaluation that the winner saw, or either side in a game without winner. -/
def worstEval (game : Game ω P M R) : R :=
  game.marks.worst game.options.white.resignWdlStyle game.result

/-- The game with nothing known about the current position, unless the side's tree is reused. -/
def prepareTree (game : Game ω P M R) (side : Color) : Game ω P M R :=
  if (game.options.get side).reuseTree then game
  else { game with trees := game.trees.modify side GameTree.trim }

/-- What the engine of a side is made from. -/
def context (game : Game ω P M R) (setup : MatchSetup ω P M R) (side : Color) :
    SearchContext ω P M :=
  let player := setup.players.get side
  { tree := game.trees.get side
    network := player.network
    searchMoves := []
    stopper := player.limits.stopper.add (setup.factory.intrinsicStoppers player.options)
    infinite := false
    options := player.options
    cache := player.cache }

def search (game : Game ω P M R) (setup : MatchSetup ω P M R) (side : Color)
    (engine : SearchEngine ω M R) (threads : Nat) (world : ω) : SearchOutcome ω M :=
  let position := (game.trees.get side).record.head
  let callbacks := (setup.players.get side).callbacks
  let abort := game.abort.launch engine.abort
  if game.chess960 then (engine.run threads).conduct callbacks id id abort world
  else
    (engine.run threads).conduct callbacks (BestMove.toLegacy position)
      (ThinkingInfo.toLegacy position) abort world

/-- The game after a search by `side` that left `outcome`. -/
def land (game : Game ω P M R) (side : Color) (outcome : SearchOutcome ω M) : Game ω P M R :=
  { game with
    trees := game.trees.modify side fun tree => { tree with head := outcome.head }
    abort := outcome.abort.land }

def count (game : Game ω P M R) (playouts : Nat) : Game ω P M R :=
  { game with moveCount := game.moveCount + 1, totalNodes := game.totalNodes + playouts }

/-- The game with a training sample of the searched position. -/
def addSample (game : Game ω P M R) (setup : MatchSetup ω P M R) (side : Color)
    (fill : HistoryFill) (eval : BestEval R) : Game ω P M R :=
  let format := (setup.players.get side).network.format
  let sample := TrainingSample.ofTree (game.trees.get side) format fill eval
  { game with samples := game.samples ++ [sample] }

def note (game : Game ω P M R) (side : Color) (eval : BestEval R) : Game ω P M R :=
  { game with marks := game.marks.update side eval }

/-- The number of the move to be made, each side's first one having number one on a game that began
with an empty move list. -/
def moveNumber (game : Game ω P M R) (side : Color) : Nat :=
  (game.trees.get side).record.history.length / 2 + 1

/-- The result that an evaluation by `side` gives to the game, if it gives one. -/
def verdict (game : Game ω P M R) (side : Color) (eval : BestEval R) : Option GameResult :=
  (game.options.get side).verdict side (game.moveNumber side) eval

/-- Chooses a move by an engine that has searched for `side`. Moves given up are reported as the
game's moves with the one given up at the end. -/
def chooseMove (game : Game ω P M R) (setup : MatchSetup ω P M R) (side : Color)
    (engine : SearchEngine ω M R) (world : ω) : ChosenMove ω M :=
  let tree := game.trees.get side
  let discard (move : M) (world : ω) :=
    (setup.players.get side).callbacks.discarded ⟨game.opening.fen, game.moves ++ [move]⟩ world
  retrieveMove engine tree (game.options.get side).minimumAllowedVisits discard
    tree.head.edges.length game.abort world

/-- The rest of a round after a search that succeeded. -/
def conclude (game : Game ω P M R) (setup : MatchSetup ω P M R) (request : PlayRequest)
    (side : Color) (engine : SearchEngine ω M R) (world : ω) :
    Option PlayEnd × Game ω P M R × ω :=
  let eval := engine.bestEval world
  let game :=
    if request.training then game.addSample setup side (engine.historyFill world) eval else game
  let game := game.note side eval
  match if request.resignation then game.verdict side eval else none with
  | some result => (some .finished, { game with result := result }, world)
  | none =>
    let chosen := game.chooseMove setup side engine world
    (none, { game with trees := game.trees.play chosen.move, abort := chosen.abort }, chosen.world)

/-- A round from the moment its engine has been made. -/
def runEngine (game : Game ω P M R) (setup : MatchSetup ω P M R) (request : PlayRequest)
    (side : Color) (engine : SearchEngine ω M R) (world : ω) :
    Option PlayEnd × Game ω P M R × ω :=
  let outcome := game.search setup side engine (max 1 (request.threads.get side)) world
  let game := game.land side outcome
  match outcome.fault with
  | some fault => (some (.failed (.engine fault)), game, outcome.world)
  | none =>
    let game := game.count (engine.playouts outcome.world)
    if game.abort.requested then (some .finished, game, outcome.world)
    else game.conclude setup request side engine outcome.world

/-- One round. Says why play comes to rest, if it does. -/
def round (game : Game ω P M R) (setup : MatchSetup ω P M R) (request : PlayRequest) (world : ω) :
    Option PlayEnd × Game ω P M R × ω :=
  let side := game.sideToMove
  let verdict := (game.trees.get side).record.history.result
  if verdict.isTerminal then (some .finished, { game with result := verdict }, world)
  else
    let game := game.prepareTree side
    if game.abort.requested then (some .finished, game, world)
    else
      match setup.factory.create (game.context setup side) world with
      | (.error fault, world) => (some (.failed (.engine fault)), game, world)
      | (.ok engine, world) => game.runEngine setup request side engine world

/-- Rounds until the game comes to rest or the given number of them is used up. -/
def roundsFor (setup : MatchSetup ω P M R) (request : PlayRequest) :
    Nat → Game ω P M R → ω → PlayEnd × Game ω P M R × ω
  | 0, game, world => (.cutShort, game, world)
  | rounds + 1, game, world =>
    match game.round setup request world with
    | (some ending, game, world) => (ending, game, world)
    | (none, game, world) => roundsFor setup request rounds game world

/-- Plays for at most the given number of rounds. A game that is over stays as it is. -/
def playFor (setup : MatchSetup ω P M R) (request : PlayRequest) (rounds : Nat)
    (game : Game ω P M R) (world : ω) : PlayEnd × Game ω P M R × ω :=
  if game.result.isTerminal then (.finished, game, world)
  else roundsFor setup request rounds game world

/-- Hands the training samples of a game that is over to a writer, with results and moves left
filled in. Gives their number; a game that is not over has none to give. -/
def writeSamples {σ : Type} (game : Game ω P M R) (writer : SampleWriter σ R) (sink : σ) :
    Except Error Nat × Game ω P M R × σ :=
  if game.samples.isEmpty || !game.result.isTerminal then (.ok 0, game, sink)
  else
    let game := { game with samples := TrainingSample.finalize game.result game.samples }
    match writer.writeAll game.samples sink with
    | (.error fault, sink) => (.error (.writer fault), game, sink)
    | (.ok (), sink) =>
      match writer.flush sink with
      | (.error fault, sink) => (.error (.writer fault), game, sink)
      | (.ok (), sink) => (.ok game.samples.length, game, sink)

end Game

end SelfPlay
