import SelfPlay.Lookahead.Batch
import SelfPlay.Text.Json

/-!
# The log of a session

A log has a line about the session, one about each game and one that sums the results up.
-/

namespace SelfPlay.Command

open SelfPlay.Numeric
open SelfPlay.Text (Json)

/-- When a session took place. -/
structure Clock where
  /-- When it began, in a form for names of files. -/
  stamp : String
  started : String
  /-- When all games had been played. -/
  finished : String
  /-- How many milliseconds the games took. -/
  elapsed : Nat
deriving Repr

def optionsJson (options : SelfPlayOptions Binary32) : Json :=
  .object [
    (SelfPlayOptions.reuseTreeName, .bool options.reuseTree),
    (SelfPlayOptions.resignPercentageName, .single options.resignPercentage),
    (SelfPlayOptions.resignWdlStyleName, .bool options.resignWdlStyle),
    (SelfPlayOptions.resignEarliestMoveName, .int options.resignEarliestMove),
    (SelfPlayOptions.minimumAllowedVisitsName, .int options.minimumAllowedVisits),
    (SelfPlayOptions.chess960Name, .bool options.chess960)]

/-- What the first line says. -/
structure MetaEntry where
  games : Nat
  openings : List String
  random : Bool
  /-- What the draw started from. -/
  seed : Option Nat
  /-- The greatest number of stones of positions that were solved. -/
  tablebasePieces : Option Nat
  options : PerSide (SelfPlayOptions Binary32)
deriving Repr

/-- What the line of a game says. -/
structure GameEntry where
  /-- The game's number, counted from one. -/
  number : Nat
  opening : String
  moves : List String
  result : GameResult
  finalFen : String
deriving Repr

/-- What the last line says. -/
structure SummaryEntry where
  games : Nat
  whiteWins : Nat
  blackWins : Nat
  draws : Nat
  /-- The games that are not over. -/
  unfinished : Nat
  /-- The moves played in all games, forced ones not counted. -/
  pliesPlayed : Nat
  /-- Whether a stop was asked for. -/
  aborted : Bool
deriving Repr

structure SessionLog where
  opening : MetaEntry
  games : List GameEntry
  summary : SummaryEntry
deriving Repr

def MetaEntry.toJson (entry : MetaEntry) (clock : Clock) : Json :=
  .object [
    ("type", .text "meta"),
    ("timestamp", .text clock.started),
    ("games", .int entry.games),
    ("openings", .list (entry.openings.map .text)),
    ("random", .bool entry.random),
    ("seed", .ofOption (fun n => .int n) entry.seed),
    ("tablebase_pieces", .ofOption (fun n => .int n) entry.tablebasePieces),
    ("white", optionsJson entry.options.white),
    ("black", optionsJson entry.options.black)]

def GameEntry.toJson (entry : GameEntry) : Json :=
  .object [
    ("type", .text "game"),
    ("game_id", .int entry.number),
    ("opening", .text entry.opening),
    ("moves", .list (entry.moves.map .text)),
    ("result", .text entry.result.label),
    ("final_fen", .text entry.finalFen)]

def SummaryEntry.toJson (entry : SummaryEntry) (clock : Clock) : Json :=
  .object [
    ("type", .text "summary"),
    ("timestamp", .text clock.finished),
    ("total_games", .int entry.games),
    ("white_wins", .int entry.whiteWins),
    ("black_wins", .int entry.blackWins),
    ("draws", .int entry.draws),
    ("unfinished", .int entry.unfinished),
    ("plies_played", .int entry.pliesPlayed),
    ("aborted", .bool entry.aborted),
    ("elapsed_ms", .int clock.elapsed)]

def SessionLog.lines (log : SessionLog) (clock : Clock) : List String :=
  (log.opening.toJson clock).render :: log.games.map (fun entry => entry.toJson.render) ++
    [(log.summary.toJson clock).render]

/-- The content of a file that holds a log. -/
def SessionLog.content (log : SessionLog) (clock : Clock) : String :=
  String.join ((log.lines clock).map (· ++ "\n"))

def SummaryEntry.ofResults (results : List GameResult) (pliesPlayed : Nat) (aborted : Bool) :
    SummaryEntry where
  games := results.length
  whiteWins := results.count (.won .white)
  blackWins := results.count (.won .black)
  draws := results.count .draw
  unfinished := results.count .undecided
  pliesPlayed := pliesPlayed
  aborted := aborted

end SelfPlay.Command
