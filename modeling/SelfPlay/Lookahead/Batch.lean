import SelfPlay.Lookahead.Candidate
import SelfPlay.Lookahead.Choice
import SelfPlay.Options.Player
import SelfPlay.PlayEnd
import SelfPlay.Tablebase

/-!
# Batches of games played by one-ply lookahead

Many games advance together. In each round the rules and the tablebase settle what they can; then
the games in which the same side is to move as in the first unsettled one make a move each, and all
positions that those moves may lead to are valued in a single network batch. The moves that are
compared are the edges of a game's tree: they are made when the game is first looked at, and a
batch that failed leaves them there.
-/

namespace SelfPlay.Lookahead

open SelfPlay.Numeric

variable {ω P M : Type} [BoardMove M] [DecidableEq M] [Board P M]

/-- A game of a batch. -/
structure BatchGame (P M : Type) where
  /-- The game so far, with the edges made for its current position. -/
  tree : GameTree P M
  result : GameResult

namespace BatchGame

def record (game : BatchGame P M) : GameRecord P M := game.tree.record

/-- Settles an undecided game by the rules, or else by the tablebase if there is one. -/
def settle (tablebase : Option (Tablebase ω P)) (game : BatchGame P M) (world : ω) :
    BatchGame P M × ω :=
  if game.result.isTerminal then (game, world)
  else
    let verdict := game.record.history.result
    if verdict.isTerminal then ({ game with result := verdict }, world)
    else
      match tablebase with
      | none => (game, world)
      | some tablebase =>
        let (verdict, world) := tablebase.adjudicate game.record.head world
        ({ game with result := verdict.getD .undecided }, world)

/-- Settles games in order. -/
def settleAll (tablebase : Option (Tablebase ω P)) :
    List (BatchGame P M) → ω → List (BatchGame P M) × ω
  | [], world => ([], world)
  | game :: rest, world =>
    let (game, world) := game.settle tablebase world
    let (rest, world) := settleAll tablebase rest world
    (game :: rest, world)

/-- Whether a game is undecided with `side` to move. -/
def awaits (side : Color) (game : BatchGame P M) : Bool :=
  !game.result.isTerminal && game.record.sideToMove == side

/-- The game with an edge for each legal move, unless it has edges. -/
def expand (game : BatchGame P M) : BatchGame P M := { game with tree := game.tree.expand }

/-- Plays the edge with the greatest score; a game without edges is drawn. -/
def advance (game : BatchGame P M) (scores : List Binary32) : BatchGame P M :=
  match (selectBest scores).bind fun i => game.tree.head.edges[i]? with
  | none => { game with result := .draw }
  | some edge =>
    { game with tree := game.tree.play (BoardMove.relativeTo edge.move game.record.sideToMove) }

/-- Advances the games that await `side`, when `value` gives the network's value of each sample and
the first sample here has number `next`. -/
def advanceAll (format : InputFormat) (side : Color) (value : Nat → Binary32) (next : Nat) :
    List (BatchGame P M) → List (BatchGame P M)
  | [] => []
  | game :: rest =>
    if game.awaits side then
      let options := candidates format game.tree
      game.advance (scores value next options) ::
        advanceAll format side value (next + (samples options).length) rest
    else game :: advanceAll format side value next rest

end BatchGame

/-- A batch of games. -/
structure Batch (P M : Type) where
  /-- Whether castling is written as the king taking its own rook. -/
  chess960 : Bool
  /-- The games in the order of their openings. -/
  games : List (BatchGame P M)
  /-- The moves played in all games, forced ones not counted. -/
  pliesPlayed : Nat
  /-- Whether a stop was asked for. -/
  aborted : Bool

namespace Batch

/-- The trees of openings, or the first opening's error. -/
def treesOf : List (Opening M) → Except Error (List (GameTree P M))
  | [] => .ok []
  | opening :: rest =>
    match GameTree.ofOpening opening.fen opening.moves with
    | .error error => .error error
    | .ok tree => (treesOf rest).map (tree :: ·)

/-- Whether castling is written as the king taking its own rook: if either player asks for it.
White's options must be well-formed, and black's only if they have to be asked. -/
def castlingNotation (players : PerSide (Player ω M)) : Except Error Bool :=
  match players.white.selfPlayOptions with
  | .error error => .error error
  | .ok white =>
    if white.chess960 then .ok true else players.black.selfPlayOptions.map (·.chess960)

def ofOpenings (players : PerSide (Player ω M)) (openings : List (Opening M)) :
    Except Error (Batch P M) := do
  let chess960 ← castlingNotation players
  let trees ← treesOf openings
  return ⟨chess960, trees.map fun tree => ⟨tree, .undecided⟩, 0, false⟩

/-- Asks for a stop before the next round. -/
def requestAbort (batch : Batch P M) : Batch P M := { batch with aborted := true }

/-- The results in the order of the openings. -/
def results (batch : Batch P M) : List GameResult := batch.games.map (·.result)

/-- The absolute moves of a game. -/
def gameMoves? (batch : Batch P M) (index : Nat) : Option (List M) :=
  batch.games[index]?.map fun game => game.record.moves batch.chess960

/-- The text of the current position of a game. -/
def headFen? (batch : Batch P M) (index : Nat) : Option String :=
  batch.games[index]?.map fun game => Board.toFen game.record.head

def settle (tablebase : Option (Tablebase ω P)) (batch : Batch P M) (world : ω) :
    Batch P M × ω :=
  let (games, world) := BatchGame.settleAll tablebase batch.games world
  ({ batch with games := games }, world)

def firstUndecided? (batch : Batch P M) : Option (BatchGame P M) :=
  batch.games.find? fun game => !game.result.isTerminal

/-- Makes the edges of the games that await `side`. -/
def expandGroup (side : Color) (batch : Batch P M) : Batch P M :=
  { batch with games := batch.games.map fun game => if game.awaits side then game.expand else game }

/-- The positions to value when `side` moves: those of all games that await it, in order. -/
def groupSamples (batch : Batch P M) (format : InputFormat) (side : Color) :
    List (List Plane) :=
  (batch.games.filter (·.awaits side)).flatMap fun game => samples (candidates format game.tree)

/-- The number of games that make a move when `side` moves. -/
def groupMoves (batch : Batch P M) (side : Color) : Nat :=
  batch.games.countP fun game => game.awaits side && game.tree.head.isExpanded

/-- Advances the games that await `side` by the values of the samples. -/
def advance (batch : Batch P M) (format : InputFormat) (side : Color)
    (values : List Binary32) : Batch P M :=
  { batch with
    games := BatchGame.advanceAll format side (valueOf values) 0 batch.games
    pliesPlayed := batch.pliesPlayed + batch.groupMoves side }

/-- One move in every game that awaits `side`. The network is not asked about no samples at all;
if it fails, no move is made. -/
def playGroup (network : Network ω) (side : Color) (batch : Batch P M) (world : ω) :
    Option PlayEnd × Batch P M × ω :=
  let batch := batch.expandGroup side
  let samples := batch.groupSamples network.format side
  if samples.isEmpty then (none, batch.advance network.format side [], world)
  else
    let reply := network.evaluate samples world
    let batch := if reply.stopRequested then batch.requestAbort else batch
    match reply.outcome with
    | .error fault => (some (.failed (.network fault)), batch, reply.world)
    | .ok values => (none, batch.advance network.format side values, reply.world)

/-- One round: settle what can be settled, then let the side to move in the first undecided game
make its moves. Says why play comes to rest, if it does. -/
def round (networks : PerSide (Network ω)) (tablebase : Option (Tablebase ω P))
    (batch : Batch P M) (world : ω) : Option PlayEnd × Batch P M × ω :=
  if batch.aborted then (some .finished, batch, world)
  else
    let (batch, world) := batch.settle tablebase world
    match batch.firstUndecided? with
    | none => (some .finished, batch, world)
    | some first =>
      let side := first.record.sideToMove
      batch.playGroup (networks.get side) side world

/-- Plays until all games are decided, a stop is asked for, a network fails, or the given number of
rounds is used up. -/
def playFor (networks : PerSide (Network ω)) (tablebase : Option (Tablebase ω P)) :
    Nat → Batch P M → ω → PlayEnd × Batch P M × ω
  | 0, batch, world => (.cutShort, batch, world)
  | rounds + 1, batch, world =>
    match batch.round networks tablebase world with
    | (some ending, batch, world) => (ending, batch, world)
    | (none, batch, world) => playFor networks tablebase rounds batch world

variable {networks : PerSide (Network ω)} {tablebase : Option (Tablebase ω P)}
  {batch next : Batch P M} {world after : ω}

theorem playFor_of_round_eq_some {ending : PlayEnd} (rounds : Nat)
    (h : batch.round networks tablebase world = (some ending, next, after)) :
    batch.playFor networks tablebase (rounds + 1) world = (ending, next, after) := by
  rw [playFor, h]

theorem playFor_of_round_eq_none (rounds : Nat)
    (h : batch.round networks tablebase world = (none, next, after)) :
    batch.playFor networks tablebase (rounds + 1) world =
      next.playFor networks tablebase rounds after := by
  rw [playFor, h]

end Batch

end SelfPlay.Lookahead
