import Mathlib.Data.List.Forall2
import SelfPlay.Command.Log
import SelfPlay.Proofs.Text.JsonReading

/-!
# Logs read again

What a log tells a reader of JSON who knows the names of its fields: one line about the session, one
for each game in order and one that sums them up, with nothing before, between or after them.
-/

namespace SelfPlay.Command

open SelfPlay.Numeric
open SelfPlay.Text (Json Parsed)
open SelfPlay.Text.Json (get?_parsed strings?_parsed natural?_parsed naturalOrNull?_parsed
  boolean?_parsed)
open SelfPlay.Text.Parsed (string? strings? natural? naturalOrNull? boolean?)

/-- The result that a word stands for. -/
def resultNamed? : String → Option GameResult
  | "white_won" => some (.won .white)
  | "black_won" => some (.won .black)
  | "draw" => some .draw
  | "undecided" => some .undecided
  | _ => none

theorem resultNamed?_label (result : GameResult) : resultNamed? result.label = some result := by
  cases result with
  | won side => cases side <;> rfl
  | undecided | draw => rfl

/-- A side's options as an object. -/
structure OptionsStandIn (options : SelfPlayOptions Binary32) (value : Parsed) : Prop where
  reuseTree : value.get? boolean? "reuse-tree" = some options.reuseTree
  resignPercentage : value.get? some "resign-percentage" =
    some (.word (Json.ofSingle options.resignPercentage))
  resignWdlStyle : value.get? boolean? "resign-wdlstyle" = some options.resignWdlStyle
  resignEarliestMove : value.get? natural? "resign-earliest-move" = some options.resignEarliestMove
  minimumAllowedVisits : value.get? natural? "minimum-allowed-visits" =
    some options.minimumAllowedVisits
  chess960 : value.get? boolean? "chess960" = some options.chess960

/-- What the line about a session says. -/
structure MetaEntry.StandsOn (entry : MetaEntry) (clock : Clock) (line : Parsed) : Prop where
  type : line.get? string? "type" = some "meta"
  timestamp : line.get? string? "timestamp" = some clock.started
  games : line.get? natural? "games" = some entry.games
  openings : line.get? strings? "openings" = some entry.openings
  random : line.get? boolean? "random" = some entry.random
  seed : line.get? naturalOrNull? "seed" = some entry.seed
  tablebasePieces : line.get? naturalOrNull? "tablebase_pieces" = some entry.tablebasePieces
  white : ∃ value, line.get? some "white" = some value ∧ OptionsStandIn entry.options.white value
  black : ∃ value, line.get? some "black" = some value ∧ OptionsStandIn entry.options.black value

/-- What the line of a game says. -/
structure GameEntry.StandsOn (entry : GameEntry) (line : Parsed) : Prop where
  type : line.get? string? "type" = some "game"
  number : line.get? natural? "game_id" = some entry.number
  opening : line.get? string? "opening" = some entry.opening
  moves : line.get? strings? "moves" = some entry.moves
  result : (line.get? string? "result").bind resultNamed? = some entry.result
  finalFen : line.get? string? "final_fen" = some entry.finalFen

/-- What the last line says. -/
structure SummaryEntry.StandsOn (entry : SummaryEntry) (clock : Clock) (line : Parsed) : Prop where
  type : line.get? string? "type" = some "summary"
  timestamp : line.get? string? "timestamp" = some clock.finished
  games : line.get? natural? "total_games" = some entry.games
  whiteWins : line.get? natural? "white_wins" = some entry.whiteWins
  blackWins : line.get? natural? "black_wins" = some entry.blackWins
  draws : line.get? natural? "draws" = some entry.draws
  unfinished : line.get? natural? "unfinished" = some entry.unfinished
  pliesPlayed : line.get? natural? "plies_played" = some entry.pliesPlayed
  aborted : line.get? boolean? "aborted" = some entry.aborted
  elapsed : line.get? natural? "elapsed_ms" = some clock.elapsed

/-- A content is the lines of a log and nothing else. -/
def SessionLog.StandsIn (log : SessionLog) (clock : Clock) (content : String) : Prop :=
  ∃ first games last, Parsed.ofLines? content = some (first :: games ++ [last]) ∧
    log.opening.StandsOn clock first ∧ List.Forall₂ GameEntry.StandsOn log.games games ∧
    log.summary.StandsOn clock last

/-! ## What is written is what is read -/

theorem optionsStandIn_optionsJson (options : SelfPlayOptions Binary32) :
    OptionsStandIn options (optionsJson options).parsed where
  reuseTree := get?_parsed rfl (boolean?_parsed _)
  resignPercentage := get?_parsed rfl rfl
  resignWdlStyle := get?_parsed rfl (boolean?_parsed _)
  resignEarliestMove := get?_parsed rfl (natural?_parsed _)
  minimumAllowedVisits := get?_parsed rfl (natural?_parsed _)
  chess960 := get?_parsed rfl (boolean?_parsed _)

theorem MetaEntry.standsOn_toJson (entry : MetaEntry) (clock : Clock) :
    entry.StandsOn clock (entry.toJson clock).parsed where
  type := get?_parsed rfl rfl
  timestamp := get?_parsed rfl rfl
  games := get?_parsed rfl (natural?_parsed _)
  openings := get?_parsed rfl (strings?_parsed _)
  random := get?_parsed rfl (boolean?_parsed _)
  seed := get?_parsed rfl (naturalOrNull?_parsed _)
  tablebasePieces := get?_parsed rfl (naturalOrNull?_parsed _)
  white := ⟨_, get?_parsed rfl rfl, optionsStandIn_optionsJson _⟩
  black := ⟨_, get?_parsed rfl rfl, optionsStandIn_optionsJson _⟩

theorem GameEntry.standsOn_toJson (entry : GameEntry) : entry.StandsOn entry.toJson.parsed where
  type := get?_parsed rfl rfl
  number := get?_parsed rfl (natural?_parsed _)
  opening := get?_parsed rfl rfl
  moves := get?_parsed rfl (strings?_parsed _)
  result := by
    rw [show entry.toJson.parsed.get? string? "result" = some entry.result.label from
      get?_parsed rfl rfl]
    exact resultNamed?_label entry.result
  finalFen := get?_parsed rfl rfl

theorem SummaryEntry.standsOn_toJson (entry : SummaryEntry) (clock : Clock) :
    entry.StandsOn clock (entry.toJson clock).parsed where
  type := get?_parsed rfl rfl
  timestamp := get?_parsed rfl rfl
  games := get?_parsed rfl (natural?_parsed _)
  whiteWins := get?_parsed rfl (natural?_parsed _)
  blackWins := get?_parsed rfl (natural?_parsed _)
  draws := get?_parsed rfl (natural?_parsed _)
  unfinished := get?_parsed rfl (natural?_parsed _)
  pliesPlayed := get?_parsed rfl (natural?_parsed _)
  aborted := get?_parsed rfl (boolean?_parsed _)
  elapsed := get?_parsed rfl (natural?_parsed _)

/-- **The content of a log says what the log says.** -/
theorem SessionLog.standsIn_content (log : SessionLog) (clock : Clock) :
    log.StandsIn clock (log.content clock) := by
  have hcontent : log.content clock = String.join
      ((log.opening.toJson clock :: log.games.map GameEntry.toJson ++
        [log.summary.toJson clock]).map (·.render ++ "\n")) := by
    unfold content lines
    simp only [List.map_append, List.map_cons, List.map_map, List.map_nil]
    rfl
  refine ⟨_, (log.games.map GameEntry.toJson).map Json.parsed, _, ?_,
    log.opening.standsOn_toJson clock, ?_, log.summary.standsOn_toJson clock⟩
  · rw [hcontent, Json.ofLines?_join]
    simp only [List.map_append, List.map_cons, List.map_nil]
  · rw [List.map_map, List.forall₂_map_right_iff]
    exact List.forall₂_same.mpr fun entry _ => entry.standsOn_toJson

end SelfPlay.Command
