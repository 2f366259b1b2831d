import SelfPlay.Command.Invocation
import SelfPlay.Proofs.Command.LogReading
import SelfPlay.Proofs.Command.Session
import SelfPlay.Proofs.Files.Folders
import SelfPlay.Proofs.Files.StoredBlocks
import SelfPlay.Proofs.Lookahead.Adjudication
import SelfPlay.Proofs.Lookahead.Replay
import SelfPlay.Proofs.TicTacToe.History

/-!
# Logs that agree with themselves

The lines of a log are written from different sources: the description of an opening from the lines
that were read, moves and positions from the records of the batch, results from its games, and the
last line from its counters. Whoever reads a log can check one against the other: the moves can be
played again from the opening, they end in the position given, that position explains the result,
and the last line counts what the lines before it say.
-/

namespace SelfPlay.Command

open SelfPlay.TicTacToe
open SelfPlay.Lookahead (Batch BatchGame Explains)

/-- The results that a final position can have: the rules' one, or else, if there are no more stones
than the solver is asked about, what the position is worth. -/
inductive IsResultOf (most : Option Nat) (position : Position) : GameResult → Prop
  | rules : position.result.isTerminal = true → IsResultOf most position position.result
  | solver {stones : Nat} : position.result = .undecided → most = some stones →
      position.occupied.count ≤ stones →
      IsResultOf most position ((outcomeOf (solve position)).toResult position.sideToMove)

/-- What the line of a game says about its opening and its record. `most` is the greatest number of
stones that the solver is asked about. -/
structure GameEntry.Tells (entry : GameEntry) (most : Option Nat) (line : OpeningLine)
    (record : GameRecord Position Square) : Prop where
  opening_eq : entry.opening = line.describe
  /-- The moves begin with the forced ones and lead to the record by legal play. -/
  replays : ∃ opening moves, line.build Position Square.ofName Position.startText = .ok opening ∧
    OpeningLine.readMoves Square.ofName entry.moves = .ok moves ∧ opening.moves <+: moves ∧
    GameRecord.ofOpening opening.fen moves = .ok record
  finalFen_eq : entry.finalFen = record.head.toFen
  /-- Nothing about the final position is lost in its text. -/
  readsBack : Position.ofFen entry.finalFen = .ok record.head
  result : IsResultOf most record.head entry.result

/-- A summary counts the results of entries. -/
structure SummaryEntry.Counts (summary : SummaryEntry) (entries : List GameEntry) : Prop where
  games_eq : summary.games = entries.length
  whiteWins_eq : summary.whiteWins = entries.countP (·.result = .won .white)
  blackWins_eq : summary.blackWins = entries.countP (·.result = .won .black)
  draws_eq : summary.draws = entries.countP (·.result = .draw)
  unfinished_eq : summary.unfinished = entries.countP (·.result = .undecided)
  total : summary.whiteWins + summary.blackWins + summary.draws + summary.unfinished =
    summary.games

/-- Every result is one of the four. -/
theorem sum_count_results (results : List GameResult) :
    results.count (.won .white) + results.count (.won .black) + results.count .draw +
      results.count .undecided = results.length := by
  induction results with
  | nil => rfl
  | cons result rest ih =>
    simp only [List.count_cons, List.length_cons]
    cases result with
    | won side => cases side <;> simp <;> omega
    | undecided | draw => simp; omega

theorem SummaryEntry.counts_ofResults (entries : List GameEntry) (pliesPlayed : Nat)
    (aborted : Bool) :
    (ofResults (entries.map (·.result)) pliesPlayed aborted).Counts entries := by
  have hcount (result : GameResult) :
      (entries.map (·.result)).count result = entries.countP (·.result = result) := by
    rw [List.count_eq_countP, List.countP_map]
    refine List.countP_congr fun entry _ => ?_
    simp
  exact ⟨List.length_map .., hcount _, hcount _, hcount _, hcount _, sum_count_results _⟩

/-- How a content is delivered under a path: it is printed, or it is what a reader of the path finds
afterwards unless a device stands there that forgets everything. Only where the path admits no file
can it be neither, and that is reported. -/
inductive Invocation.Delivers {ρ : Type} (invocation : Invocation) (surroundings : Surroundings ρ)
    (path content : String) : Prop
  | printed : path = Path.standard → invocation.code = success → invocation.output = content →
      invocation.files = surroundings.files → Delivers invocation surroundings path content
  | stored : path ≠ Path.standard → invocation.code = success → invocation.output = "" →
      invocation.files.HoldsNull path ∨
        ({ surroundings with files := invocation.files } : Surroundings ρ).source.openReader path =
          .ok (.ofBytes (Text.toUtf8 content)) →
      Delivers invocation surroundings path content
  | refused (error : FileError) : path ≠ Path.standard → ¬ surroundings.files.Admits path →
      invocation.code = failure → invocation.output = "" →
      invocation.report = (outputFault path error).report →
      Delivers invocation surroundings path content

theorem Invocation.delivers_deliver {ρ : Type} {surroundings : Surroundings ρ}
    (hcodec : surroundings.codec.RoundTrips) (warnings : List String) (session : Session) :
    (deliver surroundings warnings session).Delivers surroundings
      (session.outputPath surroundings.clock) (session.log.content surroundings.clock) := by
  unfold deliver
  simp only
  split
  · rename_i hstandard
    exact .printed hstandard rfl rfl rfl
  · rename_i hpath
    split
    · rename_i error files hwrite
      refine .refused error hpath (fun hadmits => ?_) rfl rfl rfl
      obtain ⟨made, hmade⟩ := hadmits.exists_write (storedBytes surroundings.codec
        (session.outputPath surroundings.clock)
        (Text.toUtf8 (session.log.content surroundings.clock)))
      rw [hwrite] at hmade
      cases hmade
    · rename_i files hwrite
      exact .stored hpath rfl rfl (FileSystem.openReader_of_write hcodec hpath hwrite _)

namespace Session

variable {session : Session} {source : FileSource} {arguments : Arguments}
  {openings : List (Opening Square)} {final : Batch Position Square}

theorem isResultOf_of_explains {record : GameRecord Position Square} {result : GameResult}
    (h : Explains session.tablebase solved record result) :
    IsResultOf session.arguments.tablebasePieces record.head result := by
  cases h with
  | rules hover => exact .rules hover
  | tablebase hopen htb hdecides =>
    obtain ⟨stones, hstones, rfl⟩ := Option.map_eq_some_iff.mp htb
    have hresult : result =
        (outcomeOf (solve record.head)).toResult record.head.sideToMove := by
      rw [hdecides.result_eq]
      unfold solved Wdl.toResult
      cases outcomeOf (solve record.head) <;> rfl
    rw [hresult]
    exact .solver hopen hstones hdecides.fewPieces
  | stuck hopen hnone =>
    -- where no move is legal the rules have decided the game
    have hover := Position.isTerminal_of_legalMoves_eq_nil hnone
    rw [show record.head.result = _ from hopen.rules] at hover
    cases hover

theorem writesPlainly (chess960 : Bool) : Board.WritesPlainly Position chess960 :=
  .inr fun _ _ => rfl

/-- A game of a session that was played, with its opening as written and as built, and with what is
logged about it. -/
structure Logs (session : Session) (final : Batch Position Square) (number : Nat)
    (line : OpeningLine) (opening : Opening Square) (game : BatchGame Position Square) : Prop where
  line_eq : session.lines[number % session.lines.length]? = some line
  built : line.build Position Square.ofName Position.startText = .ok opening
  game_eq : final.games[number]? = some game
  continues : game.Continues opening final.chess960
  sound : game.Sound session.tablebase solved
  entry_eq : session.play.log.games[number]? = some
    { number := number + 1
      opening := line.describe
      moves := (game.record.moves final.chess960).map Square.name
      result := game.result
      finalFen := game.record.head.toFen }

theorem openings_ne_nil (h : session.IsReady source arguments openings) : openings ≠ [] := by
  have hlines := Openings.ne_nil_of_load h.loaded
  rw [← List.length_pos_iff] at hlines ⊢
  rwa [← h.built.length_eq]

theorem exists_logs (h : session.IsReady source arguments openings)
    (hfinal : session.PlayedTo final) {i : Nat} (hi : i < arguments.games) :
    ∃ line opening game, session.Logs final i line opening game ∧
      (takeTurns session.lines arguments.games)[i]? = some line ∧
      (takeTurns openings arguments.games)[i]? = some opening := by
  have hlines := Openings.ne_nil_of_load h.loaded
  have hlength := h.built.length_eq
  have hlt : i % session.lines.length < session.lines.length :=
    Nat.mod_lt _ (List.length_pos_iff.mpr hlines)
  have hlt' : i % session.lines.length < openings.length := by rwa [← hlength]
  have hline := List.getElem?_eq_getElem hlt
  have hopening : (takeTurns openings arguments.games)[i]? =
      some openings[i % session.lines.length] := by
    rw [getElem?_takeTurns (openings_ne_nil h) hi, ← hlength]
    exact List.getElem?_eq_getElem hlt'
  obtain ⟨game, hgame, hcontinues⟩ :=
    Batch.continues_of_leads (writesPlainly _) h.begun hfinal.leads hopening
  refine ⟨_, _, game, ⟨hline, h.built.get hlt hlt', hgame, hcontinues,
    Batch.sound_of_leads session.tablebase_isFixed h.begun hfinal.leads hgame, ?_⟩, ?_, hopening⟩
  · have hassigned : session.assignment[i]? = some (i % session.lines.length) := by
      rw [h.assignment_eq, ← hlength, inTurn, List.getElem?_map, List.getElem?_range hi,
        Option.map_some]
    rw [hfinal.play_eq]
    simp only [log, List.getElem?_mapIdx, hassigned, Option.map_some, gameEntry, hline,
      Option.getD_some, Batch.gameMoves?, Batch.headFen?, Batch.results, List.getElem?_map, hgame]
    rfl
  · rw [getElem?_takeTurns hlines hi]
    exact hline

theorem length_games (h : session.IsReady source arguments openings)
    (hfinal : session.PlayedTo final) : session.play.log.games.length = arguments.games := by
  rw [hfinal.play_eq]
  simp only [log]
  rw [List.length_mapIdx, h.assignment_eq, length_inTurn]

theorem length_games_final (h : session.IsReady source arguments openings)
    (hfinal : session.PlayedTo final) : final.games.length = arguments.games := by
  rw [Batch.length_of_leads hfinal.leads, Batch.length_games_of_ofOpenings h.begun,
    length_takeTurns (openings_ne_nil h)]

/-- The lines of the games give the results of the batch. -/
theorem map_result_games (h : session.IsReady source arguments openings)
    (hfinal : session.PlayedTo final) :
    session.play.log.games.map (·.result) = final.results := by
  apply List.ext_getElem?
  intro i
  rw [Batch.results, List.getElem?_map, List.getElem?_map]
  by_cases hi : i < arguments.games
  · obtain ⟨line, opening, game, hlogs, -, -⟩ := exists_logs h hfinal hi
    rw [hlogs.entry_eq, hlogs.game_eq, Option.map_some, Option.map_some]
  · rw [List.getElem?_eq_none (by rw [length_games h hfinal]; omega),
      List.getElem?_eq_none (by rw [length_games_final h hfinal]; omega)]
    rfl

theorem isTerminal_of_mem_games (h : session.IsReady source arguments openings)
    (hfinal : session.PlayedTo final) {entry : GameEntry} (hmem : entry ∈ session.play.log.games) :
    entry.result.isTerminal = true := by
  have hresult : entry.result ∈ final.results := by
    rw [← map_result_games h hfinal]
    exact List.mem_map_of_mem hmem
  obtain ⟨game, hgame, hsame⟩ := List.mem_map.mp hresult
  rw [← hsame]
  exact hfinal.decided game hgame

/-- **What is logged about a game is true of it.** -/
theorem Logs.tells {number : Nat} {line : OpeningLine} {opening : Opening Square}
    {game : BatchGame Position Square} (h : session.Logs final number line opening game)
    (hfinal : session.PlayedTo final) {entry : GameEntry}
    (hentry : session.play.log.games[number]? = some entry) :
    entry.number = number + 1 ∧
      entry.Tells session.arguments.tablebasePieces line game.record := by
  rw [h.entry_eq] at hentry
  cases hentry
  have hregular : game.record.head.IsRegular :=
    (isLegalPlay_of_ofOpening h.continues.replays).regular _ List.mem_cons_self
  refine ⟨rfl, rfl, ⟨opening, _, h.built, ?_, h.continues.forced, h.continues.replays⟩, rfl,
    Position.ofFen_toFen hregular, ?_⟩
  · exact OpeningLine.readMoves_map Square.ofName_name _
  · exact isResultOf_of_explains
      (h.sound.explained (hfinal.decided _ (List.mem_of_getElem? h.game_eq)))

/-- The moves that were counted are those that are logged beyond the forced ones. -/
theorem pliesPlayed_eq (h : session.IsReady source arguments openings)
    (hfinal : session.PlayedTo final) :
    final.pliesPlayed = (List.zipWith (fun line entry => entry.moves.length - line.moves.length)
      (takeTurns session.lines arguments.games) session.play.log.games).sum := by
  rw [Batch.pliesPlayed_eq_sum_openings h.begun hfinal.leads]
  congr 1
  apply List.ext_getElem?
  intro i
  rw [List.getElem?_zipWith, List.getElem?_zipWith]
  by_cases hi : i < arguments.games
  · obtain ⟨line, opening, game, hlogs, hline, hopening⟩ := exists_logs h hfinal hi
    obtain ⟨-, hmoves, -⟩ := OpeningLine.build_eq_ok_iff.mp hlogs.built
    rw [hline, hopening, hlogs.game_eq, hlogs.entry_eq]
    simp only [List.length_map, OpeningLine.length_of_readMoves hmoves]
  · have hopening : (takeTurns openings arguments.games)[i]? = none :=
      List.getElem?_eq_none (by rw [length_takeTurns (openings_ne_nil h)]; omega)
    have hline : (takeTurns session.lines arguments.games)[i]? = none :=
      List.getElem?_eq_none (by rw [length_takeTurns (Openings.ne_nil_of_load h.loaded)]; omega)
    rw [hopening, hline]

end Session

/-- Nothing was refused in an invocation that succeeds. -/
theorem Invocation.exists_session_of_code {ρ : Type} {surroundings : Surroundings ρ}
    {args : List String} {arguments : Arguments} (hargs : Arguments.parse? args = some arguments)
    (h : (run surroundings args).code = success) :
    ∃ session, (prepare surroundings.source surroundings.generator arguments).session =
      .ok session := by
  cases hready : (prepare surroundings.source surroundings.generator arguments).session with
  | ok session => exact ⟨session, rfl⟩
  | error fault =>
    unfold run at h
    rw [hargs] at h
    simp only [hready] at h
    cases h

/-- A log agrees with itself, with what was asked for and with the session that was prepared for it.
The games are numbered from one on, and their openings are those that were read, in turn; what is
said of each game is true of it. The last line counts the results that are given, of which none is missing, and
the moves beyond the forced ones. -/
structure SessionLog.Agrees (log : SessionLog) (arguments : Arguments) (session : Session) :
    Prop where
  opening_games : log.opening.games = arguments.games
  opening_openings : log.opening.openings = session.lines.map OpeningLine.describe
  opening_random : log.opening.random = false
  opening_seed : log.opening.seed = arguments.seed
  opening_tablebasePieces : log.opening.tablebasePieces = arguments.tablebasePieces
  opening_options : log.opening.options = session.options
  length_games : log.games.length = arguments.games
  tells : ∀ i entry, log.games[i]? = some entry → entry.number = i + 1 ∧
    ∃ line record, session.lines[i % session.lines.length]? = some line ∧
      entry.Tells arguments.tablebasePieces line record
  counts : log.summary.Counts log.games
  summary_games : log.summary.games = arguments.games
  unfinished_eq : log.summary.unfinished = 0
  aborted_eq : log.summary.aborted = false
  pliesPlayed_eq : log.summary.pliesPlayed =
    (List.zipWith (fun line entry => entry.moves.length - line.moves.length)
      (takeTurns session.lines arguments.games) log.games).sum

theorem Session.agrees_play {session : Session} {source : FileSource} {arguments : Arguments}
    {openings : List (Opening Square)} (hturn : arguments.random = false)
    (h : session.IsReady source arguments openings) :
    session.play.log.Agrees arguments session := by
  obtain ⟨final, hfinal⟩ := h.exists_playedTo
  have hlength := length_games h hfinal
  have hsummary : session.play.log.summary =
      .ofResults (session.play.log.games.map (·.result)) final.pliesPlayed final.aborted := by
    rw [map_result_games h hfinal, hfinal.play_eq]
    rfl
  have hcounts : session.play.log.summary.Counts session.play.log.games := by
    rw [hsummary]
    exact SummaryEntry.counts_ofResults _ _ _
  have hopening : session.play.log.opening =
      { games := arguments.games
        openings := session.lines.map OpeningLine.describe
        random := arguments.random
        seed := arguments.seed
        tablebasePieces := arguments.tablebasePieces
        options := session.options } := by
    rw [hfinal.play_eq, ← h.arguments_eq]
    rfl
  constructor
  case opening_games | opening_openings | opening_seed | opening_tablebasePieces |
      opening_options => rw [hopening]
  case opening_random => rw [hopening, hturn]
  case length_games => exact hlength
  case tells =>
    intro i entry hentry
    have hi : i < arguments.games := by
      rw [← hlength]
      exact (List.getElem?_eq_some_iff.mp hentry).1
    obtain ⟨line, opening, game, hlogs, -, -⟩ := exists_logs h hfinal hi
    obtain ⟨hnumber, htells⟩ := hlogs.tells hfinal hentry
    rw [h.arguments_eq] at htells
    exact ⟨hnumber, line, game.record, hlogs.line_eq, htells⟩
  case counts => exact hcounts
  case summary_games => exact hcounts.games_eq.trans hlength
  case unfinished_eq =>
    rw [hcounts.unfinished_eq, List.countP_eq_zero]
    intro entry hmem hopen
    have hover := isTerminal_of_mem_games h hfinal hmem
    rw [of_decide_eq_true hopen] at hover
    cases hover
  case aborted_eq =>
    rw [hsummary]
    exact hfinal.aborted_eq
  case pliesPlayed_eq =>
    rw [hsummary]
    exact pliesPlayed_eq h hfinal

/-- **The log of every session agrees with itself**, whatever openings it was given, in a file, on
standard input or otherwise, and however many stones the solver is asked about, as long as openings
are not drawn at random. What the invocation delivers can be read as one line about the session, one
for each game and one that sums them up. The games are numbered from one on, and their openings are
those that were read, in turn. Each game's moves can be read and played again from its opening,
forced moves first; they end in the position that is given last; and this position has the result
that is given. The last line counts these results, of which none is missing, and the moves beyond the
forced ones. -/
theorem log_agrees_with_itself {ρ : Type} {surroundings : Surroundings ρ} {args : List String}
    {arguments : Arguments} {session : Session} (hcodec : surroundings.codec.RoundTrips)
    (hargs : Arguments.parse? args = some arguments) (hturn : arguments.random = false)
    (hready : (prepare surroundings.source surroundings.generator arguments).session =
      .ok session) :
    ∃ content,
      (Invocation.run surroundings args).Delivers surroundings
        (session.outputPath surroundings.clock) content ∧
      session.play.log.StandsIn surroundings.clock content ∧
      Openings.load surroundings.source arguments.openings arguments.fen = .ok session.lines ∧
      0 < arguments.games ∧ session.play.log.Agrees arguments session := by
  obtain ⟨openings, h⟩ := isReady_of_prepare hturn hready
  refine ⟨_, ?_, session.play.log.standsIn_content surroundings.clock, h.loaded, h.games_pos,
    Session.agrees_play hturn h⟩
  unfold Invocation.run
  rw [hargs]
  simp only [hready]
  exact Invocation.delivers_deliver hcodec _ session.play

/-- Two openings: one that the solver is asked about at once, and one that white wins with the next
move. -/
def twoOpenings : List UInt8 := Text.toUtf8 "fen x../.o./... moves a1 a2\nxo./ox./x.o\n"

def noon : Clock :=
  ⟨"20250601-120000", "2025-06-01T12:00:00+00:00", "2025-06-01T12:00:01+00:00", 1000⟩

/-- The openings are on standard input and in a compressed file. -/
def atNoon : Surroundings Unit where
  files := ⟨.folder [("openings.txt.gz", .file (StoredBlocks.compress twoOpenings))], []⟩
  input := .ofBytes twoOpenings
  codec := StoredBlocks.codec
  generator := firstChoice
  clock := noon

def threeGames (openings out : String) : Arguments :=
  { Arguments.default with
    games := 3
    openings := some openings
    tablebasePieces := some 4
    out := some out }

def threeGamesArguments (openings out : String) : List String :=
  ["--games", "3", "--openings", openings, "--tablebase-pieces", "4", "--out", out]

/-- Three games from two openings, of which the third begins like the first. The log is printed when
the openings came from standard input, and found in a file in a new directory when they came from a
compressed file. One move was made beyond the forced ones. -/
theorem three_games_log_agrees :
    (∃ session content,
      (prepare atNoon.source atNoon.generator (threeGames "-" "-")).session = .ok session ∧
      (Invocation.run atNoon (threeGamesArguments "-" "-")).output = content ∧
      session.play.log.StandsIn noon content ∧
      session.play.log.games.map (·.result) = [.draw, .won .white, .draw] ∧
      session.play.log.summary.pliesPlayed = 1 ∧
      session.play.log.Agrees (threeGames "-" "-") session) ∧
    ∃ session content made,
      (prepare atNoon.source atNoon.generator
        (threeGames "openings.txt.gz" "logs/three.jsonl")).session = .ok session ∧
      (Invocation.run atNoon (threeGamesArguments "openings.txt.gz" "logs/three.jsonl")).files =
        made ∧
      ({ atNoon with files := made } : Surroundings Unit).source.openReader "logs/three.jsonl" =
        .ok (.ofBytes (Text.toUtf8 content)) ∧
      session.play.log.StandsIn noon content ∧
      session.play.log.Agrees (threeGames "openings.txt.gz" "logs/three.jsonl") session := by
  constructor
  · have hargs : Arguments.parse? (threeGamesArguments "-" "-") = some (threeGames "-" "-") := by
      decide +kernel
    have hplayed : ((prepare atNoon.source atNoon.generator
        (threeGames "-" "-")).session.toOption.any fun session => decide (
          session.outputPath noon = Path.standard ∧
          session.play.log.games.map (·.result) = [.draw, .won .white, .draw] ∧
          session.play.log.summary.pliesPlayed = 1)) = true := by decide +kernel
    cases hready : (prepare atNoon.source atNoon.generator (threeGames "-" "-")).session with
    | error fault =>
      rw [hready] at hplayed
      cases hplayed
    | ok session =>
      rw [hready] at hplayed
      obtain ⟨hpath, hresults, hplies⟩ := of_decide_eq_true hplayed
      obtain ⟨content, hdelivers, hstands, -, -, hagrees⟩ :=
        log_agrees_with_itself StoredBlocks.codec_roundTrips hargs rfl hready
      refine ⟨session, content, rfl, ?_, hstands, hresults, hplies, hagrees⟩
      cases hdelivers with
      | printed _ _ houtput _ => exact houtput
      | stored hfile | refused _ hfile => exact absurd hpath hfile
  · have hargs : Arguments.parse? (threeGamesArguments "openings.txt.gz" "logs/three.jsonl") =
        some (threeGames "openings.txt.gz" "logs/three.jsonl") := by decide +kernel
    have hcode : (Invocation.run atNoon
        (threeGamesArguments "openings.txt.gz" "logs/three.jsonl")).code = Invocation.success := by
      decide +kernel
    have hfilled : ((Invocation.run atNoon
        (threeGamesArguments "openings.txt.gz" "logs/three.jsonl")).files.read
          "logs/three.jsonl").toOption.all (·.bytes.isEmpty) = false := by decide +kernel
    obtain ⟨session, hready⟩ := Invocation.exists_session_of_code hargs hcode
    obtain ⟨openings, h⟩ := isReady_of_prepare rfl hready
    obtain ⟨content, hdelivers, hstands, -, -, hagrees⟩ :=
      log_agrees_with_itself StoredBlocks.codec_roundTrips hargs rfl hready
    rw [h.outputPath_eq rfl] at hdelivers
    refine ⟨session, content, _, hready, rfl, ?_, hstands, hagrees⟩
    cases hdelivers with
    | printed hstandard => exact absurd hstandard (by decide)
    | refused _ _ _ hfailed =>
      rw [hcode] at hfailed
      cases hfailed
    | stored _ _ _ hkept =>
      refine hkept.resolve_left fun hnull => ?_
      rw [hnull.all_isEmpty] at hfilled
      cases hfilled

end SelfPlay.Command
