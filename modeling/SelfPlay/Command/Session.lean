import SelfPlay.Command.Arguments
import SelfPlay.Command.Assignment
import SelfPlay.Command.Log
import SelfPlay.Config
import SelfPlay.Openings.File
import SelfPlay.TicTacToe.Heuristic
import SelfPlay.TicTacToe.Rounds
import SelfPlay.TicTacToe.Solver

/-!
# Sessions of tic-tac-toe games

A session reads its configuration and openings, sets a batch of games up, plays it with the
open-lines network on both sides, and logs every game.
-/

namespace SelfPlay.Command

open SelfPlay.Numeric
open SelfPlay.TicTacToe
open SelfPlay.Lookahead (Batch)

/-- The settings of a side that a one-ply lookahead has no use for, by name. -/
def ignoredSettings (config : PlayerConfig) : List String :=
  let usual : SelfPlayOptions Binary32 := .default
  let options := config.selfPlay
  let named (name : String) (set : Bool) : List String := if set then [name] else []
  named "limits" (config.limits != .none) ++
    named "threads" (config.threads != 1) ++
    named SelfPlayOptions.reuseTreeName options.reuseTree ++
    named SelfPlayOptions.resignPercentageName
      (!options.resignPercentage.same usual.resignPercentage) ++
    named SelfPlayOptions.resignWdlStyleName options.resignWdlStyle ++
    named SelfPlayOptions.resignEarliestMoveName
      (options.resignEarliestMove != usual.resignEarliestMove) ++
    named SelfPlayOptions.minimumAllowedVisitsName
      (options.minimumAllowedVisits != usual.minimumAllowedVisits)

/-- A warning for a side with settings that are ignored. -/
def warning? (side : Color) (config : PlayerConfig) : Option String :=
  let ignored := ignoredSettings config
  if ignored.isEmpty then none
  else
    some ("[" ++ side.label ++ "] settings ignored by one-ply value self-play: " ++
      ", ".intercalate ignored)

def warnings (config : SelfPlayConfig) : List String :=
  (warning? .white config.white).toList ++ (warning? .black config.black).toList

/-- The configuration that is asked for. -/
def loadConfig (source : FileSource) : Option String → Except Fault SelfPlayConfig
  | none => .ok SelfPlayConfig.default
  | some path =>
    let loaded : Except Error SelfPlayConfig := match source.readText path with
      | .error error => .error (Error.io error.message)
      | .ok text => SelfPlayConfig.ofToml text
    match loaded with
    | .error error => .error (error.toFault.within ("failed to load config " ++ path))
    | .ok config => .ok config

def buildOpenings : List OpeningLine → Except Fault (List (Opening Square))
  | [] => .ok []
  | line :: rest =>
    match line.build Position Square.ofName Position.startText with
    | .error fault => .error (fault.within ("invalid opening: " ++ line.describe))
    | .ok opening => (buildOpenings rest).map (opening :: ·)

/-- A side's player: the open-lines network with a configuration applied. -/
def player (config : PlayerConfig) (cacheSize : Nat) : Player Unit Square :=
  config.apply { Player.ofNetwork (heuristicNetwork Unit) with cache := .empty cacheSize }

/-- A session that is ready to be played. -/
structure Session where
  arguments : Arguments
  /-- The openings as written. -/
  lines : List OpeningLine
  /-- The number of each game's opening. -/
  assignment : List Nat
  players : PerSide (Player Unit Square)
  options : PerSide (SelfPlayOptions Binary32)
  batch : Batch Position Square

namespace Session

/-- The session for a configuration: openings are read and built, then options, then the batch. -/
def prepare {ρ : Type} (source : FileSource) (generator : Generator ρ) (arguments : Arguments)
    (config : SelfPlayConfig) : Except Fault Session :=
  match Openings.load source arguments.openings arguments.fen with
  | .error fault => .error fault
  | .ok lines =>
    match buildOpenings lines with
    | .error fault => .error fault
    | .ok openings =>
      let assignment := assignOpenings generator openings.length arguments.games
        arguments.random arguments.seed
      let chosen := assignment.filterMap fun i => openings[i]?
      let players : PerSide (Player Unit Square) :=
        config.map fun config => player config arguments.cacheSize
      let batch : Except Error Session := do
        let white ← players.white.selfPlayOptions
        let black ← players.black.selfPlayOptions
        let batch ← Batch.ofOpenings players chosen
        return ⟨arguments, lines, assignment, players, ⟨white, black⟩, batch⟩
      match batch with
      | .error error => .error error.toFault
      | .ok session => .ok session

def tablebase (session : Session) : Option (Tablebase Unit Position) :=
  session.arguments.tablebasePieces.map (perfectTablebase Unit)

def play (session : Session) : Session :=
  let networks := session.players.map (·.network)
  let (_, batch, _) :=
    Batch.playFor networks session.tablebase (roundLimit session.batch) session.batch ()
  { session with batch := batch }

def outputPath (session : Session) (clock : Clock) : String :=
  session.arguments.out.getD ("runs/selfplay/" ++ clock.stamp ++ "-value-selfplay.jsonl")

/-- The line of the game with the given place in the batch. -/
def gameEntry (session : Session) (index opening : Nat) : GameEntry where
  number := index + 1
  opening := ((session.lines[opening]?).map OpeningLine.describe).getD ""
  moves := ((session.batch.gameMoves? index).getD []).map Square.name
  result := (session.batch.results[index]?).getD .undecided
  finalFen := (session.batch.headFen? index).getD ""

def log (session : Session) : SessionLog where
  opening :=
    { games := session.arguments.games
      openings := session.lines.map OpeningLine.describe
      random := session.arguments.random
      seed := session.arguments.seed
      tablebasePieces := session.arguments.tablebasePieces
      options := session.options }
  games := session.assignment.mapIdx session.gameEntry
  summary :=
    .ofResults session.batch.results session.batch.pliesPlayed session.batch.aborted

end Session

/-- What came of preparing a session: warnings, and the session or why there is none. -/
structure Preparation where
  warnings : List String
  session : Except Fault Session

/-- Prepares the session that is asked for. -/
def prepare {ρ : Type} (source : FileSource) (generator : Generator ρ) (arguments : Arguments) :
    Preparation :=
  if arguments.games = 0 then ⟨[], .error (.ofMessage "--games must be at least 1")⟩
  else
    match loadConfig source arguments.config with
    | .error fault => ⟨[], .error fault⟩
    | .ok config => ⟨warnings config, Session.prepare source generator arguments config⟩

/-- The fault of a log that could not be written. -/
def outputFault (path : String) (error : FileError) : Fault :=
  (Fault.ofMessage error.message).within ("failed to open " ++ path)

end SelfPlay.Command
