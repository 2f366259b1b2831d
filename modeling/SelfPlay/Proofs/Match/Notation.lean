import SelfPlay.Proofs.Match.Protocol
import SelfPlay.TicTacToe.Heuristic
import SelfPlay.TicTacToe.HouseRules

/-!
# The notation of moves

Moves are written down at three places: a game lists its moves, lines are rewritten before a player
is told of them, and a discarded move is put at the end of the game's list as the engine gave it.
The first two agree for every line on every board. The third agrees only where there is nothing to
rewrite.
-/

namespace SelfPlay

open SelfPlay.Numeric

section

variable {P M : Type} [BoardMove M] [Board P M]

/-- A best move as a line. -/
def BestMove.line (info : BestMove M) : List M := info.move :: info.ponder.toList

theorem BestMove.line_toLegacy (position : P) (info : BestMove M) :
    (info.toLegacy position).line = legacyLine position info.line := by
  obtain ⟨move, ponder⟩ := info
  cases ponder <;> rfl

namespace GameRecord

theorem moves_play (record : GameRecord P M) (move : M) (chess960 : Bool) :
    (record.play move).moves chess960 = record.moves chess960 ++
      [written chess960 record.head (BoardMove.relativeTo move record.sideToMove)] := by
  simp only [moves, play, playRelative, List.map_cons, List.reverse_cons]

/-- What follows in a game is written behind what was there before. -/
theorem moves_foldl_play (record : GameRecord P M) (line : List M) (chess960 : Bool) :
    ∃ rest, (line.foldl play record).moves chess960 = record.moves chess960 ++ rest := by
  induction line generalizing record with
  | nil => exact ⟨[], (List.append_nil _).symm⟩
  | cons move line ih =>
    obtain ⟨rest, hrest⟩ := ih (record.play move)
    rw [moves_play, List.append_assoc] at hrest
    exact ⟨_, hrest⟩

/-- A line is written as it is written when it is played. -/
theorem moves_foldl_play_eq_legacyLine (record : GameRecord P M) (line : List M) :
    (line.foldl play record).moves false = record.moves false ++ legacyLine record.head line := by
  induction line generalizing record with
  | nil => exact (List.append_nil _).symm
  | cons move line ih =>
    rw [List.foldl_cons, ih, moves_play, List.append_assoc]
    rfl

/-- With the king taking its own rook a move is written as it is. -/
theorem written_true [LawfulMove M] (position : P) (move : M) :
    written true position (BoardMove.relativeTo move (Board.sideToMove position)) = move :=
  BoardMove.relativeTo_relativeTo move _

/-- Otherwise it is written as it is if the position does not ask for anything else. -/
theorem written_eq_iff [LawfulMove M] (position : P) (move : M) (chess960 : Bool) :
    written chess960 position (BoardMove.relativeTo move (Board.sideToMove position)) = move ↔
      chess960 = true ∨
        Board.legacyMove position (BoardMove.relativeTo move (Board.sideToMove position)) =
          BoardMove.relativeTo move (Board.sideToMove position) := by
  cases chess960 with
  | true => simp [written_true]
  | false =>
    simp only [written, Bool.false_eq_true, if_false, false_or]
    constructor
    · intro h
      have hback := congrArg (BoardMove.relativeTo · (Board.sideToMove position)) h
      simp only [BoardMove.relativeTo_relativeTo] at hback
      exact hback
    · intro h
      rw [h, BoardMove.relativeTo_relativeTo]

end GameRecord

theorem GameTree.record_foldl_play [DecidableEq M] (tree : GameTree P M) (line : List M) :
    (line.foldl GameTree.play tree).record = line.foldl GameRecord.play tree.record := by
  induction line generalizing tree with
  | nil => rfl
  | cons move line ih => exact ih (tree.play move)

/-- A line rewritten for a player keeps its length, and it is what the game's list of moves gets when
the line is played. -/
theorem legacyLine_isWritten [DecidableEq M] (tree : GameTree P M) (line : List M) :
    (legacyLine tree.record.head line).length = line.length ∧
      (line.foldl GameTree.play tree).record.moves false =
        tree.record.moves false ++ legacyLine tree.record.head line := by
  rw [GameTree.record_foldl_play]
  exact ⟨length_legacyLine _ line, GameRecord.moves_foldl_play_eq_legacyLine _ line⟩

end

section

variable {ω P M R : Type} [BoardMove M] [Board P M]

/-- The move that is announced is the one that the game's list gets when the move is played. -/
theorem Launch.moves_play [LawfulMove M] (launch : Launch ω P M R) (settings : Settings M R)
    (info : BestMove M) :
    (launch.tree.record.play info.move).moves settings.chess960 =
      launch.tree.record.moves settings.chess960 ++
        [(launch.announcement settings info).move] := by
  rw [GameRecord.moves_play, announcement]
  cases settings.chess960 with
  | true =>
    have hwritten := GameRecord.written_true launch.tree.record.head info.move
    rw [if_pos rfl]
    exact congrArg (launch.tree.record.moves true ++ [·]) hwritten
  | false => rfl

variable [DecidableEq M]

namespace Phase

variable {settings : Settings M R} {phase last : Phase ω P M R}

/-- What is announced was offered just before, by the engine that runs. -/
theorem Reads.announced {before after : Journal ω P M R} {told : BestMove M} {asked : Bool}
    {made : Nat} {landed : Option (Launch ω P M R × Node M)}
    (h : (resting asked made landed).Reads settings (before ++ .announced told :: after) last) :
    ∃ launch info, before.flying = some launch ∧ before.getLast? = some (.offered info) ∧
      told = launch.announcement settings info := by
  obtain ⟨now, next, hbefore, htakes, -⟩ := h.split
  have hflying : before.flying = now.flying := hbefore.flying
  cases htakes with
  | @announced _ launch info =>
    rcases List.eq_nil_or_concat before with rfl | ⟨earlier, entry, rfl⟩
    · cases hbefore
    · rw [List.concat_eq_append] at hbefore hflying ⊢
      obtain ⟨first, -, hoffered⟩ := hbefore.split_last
      cases hoffered
      exact ⟨launch, info, hflying, List.getLast?_concat, rfl⟩

/-- What is discarded is a best move of the engine that came back last. -/
theorem Reads.discarded {before after : Journal ω P M R} {report : DiscardedMove M} {world : ω}
    {asked : Bool} {made : Nat}
    (h : (resting asked made none).Reads settings (before ++ .discarded report world :: after)
      last) :
    ∃ launch head, before.landed = some (launch, head) ∧
      launch.Discards settings head report world := by
  obtain ⟨now, next, hbefore, htakes, -⟩ := h.split
  have hlanded : before.landed = now.landed := hbefore.landed
  cases htakes with
  | @discarded _ _ launch head _ _ hdiscards => exact ⟨launch, head, hlanded, hdiscards⟩

end Phase

variable [Scalar R]

/-- **What players are told agrees with the game.** A line of thinking, or a best move with the
expected reply, is rewritten to what the game's list of moves gets when the line is played from the
searched tree. So, in either notation, whenever a best move that was announced is then played, the
list has the announced move at its place. -/
theorem announcements_agree_with_moves [LawfulMove M] {options : PerSide (SelfPlayOptions R)}
    {shared : Bool} {opening : Opening M} {start : Game ω P M R}
    (hbegin : Game.begin options shared opening = .ok start) (setup : MatchSetup ω P M R)
    (world : ω) (acts : List (Act ω)) :
    let final := (start.perform setup world acts).1
    (∀ (tree : GameTree P M) (info : ThinkingInfo M),
      (info.toLegacy tree.record.head).line.length = info.line.length ∧
      (info.line.foldl GameTree.play tree).record.moves false =
        tree.record.moves false ++ (info.toLegacy tree.record.head).line) ∧
    (∀ (tree : GameTree P M) (info : BestMove M),
      (info.toLegacy tree.record.head).line.length = info.line.length ∧
      (info.line.foldl GameTree.play tree).record.moves false =
        tree.record.moves false ++ (info.toLegacy tree.record.head).line) ∧
    ∀ (before after : Journal ω P M R) (told : BestMove M),
      start.journal setup world acts = before ++ .announced told :: after →
      ∃ launch info, before.flying = some launch ∧ before.getLast? = some (.offered info) ∧
        ∀ line : List M, final.record = line.foldl GameRecord.play (launch.tree.record.play info.move) →
          ∃ rest, final.moves = launch.tree.record.moves start.chess960 ++ told.move :: rest := by
  refine ⟨fun tree info => legacyLine_isWritten tree info.line, fun tree info => ?_, ?_⟩
  · rw [BestMove.line_toLegacy]
    exact legacyLine_isWritten tree info.line
  · intro before after told hsplit
    obtain ⟨hfresh, -⟩ := Game.fresh_of_begin hbegin
    have hfits := hfresh.fits_perform setup world acts
    obtain ⟨landed, hreads⟩ := hfits.reads
    rw [hsplit] at hreads
    obtain ⟨launch, info, hflying, hoffered, rfl⟩ := hreads.announced
    refine ⟨launch, info, hflying, hoffered, fun line hplayed => ?_⟩
    have hchess960 : (start.perform setup world acts).1.chess960 = start.chess960 :=
      congrArg Settings.chess960 hfits.unchanged
    have hmoves : (launch.tree.record.play info.move).moves start.chess960 =
        launch.tree.record.moves start.chess960 ++
          [(launch.announcement start.settings info).move] := launch.moves_play start.settings info
    obtain ⟨rest, hrest⟩ :=
      GameRecord.moves_foldl_play (launch.tree.record.play info.move) line start.chess960
    refine ⟨rest, ?_⟩
    change (start.perform setup world acts).1.record.moves _ = _
    rw [hchess960, hplayed, hrest, hmoves, List.append_assoc]
    rfl

end

namespace TicTacToe

open HousePosition (castle kingMove)

/-- A square that has nothing to do with castling. -/
def centre : Square := ⟨⟨1, by decide⟩, ⟨1, by decide⟩⟩

/-- What an engine finds out that has tried castling so often. -/
def castlingHead (visits : Nat) : Node Square :=
  .ofEdges [⟨castle, visits, none⟩, ⟨centre, 9, none⟩]

/-- An engine that castles and, when that is given up, moves to the centre. The world counts what
was given up. -/
def castlingEngine (visits : Nat) : SearchEngine Nat Square Binary32 where
  run _ := .bestMove ⟨castle, none⟩ (.finish none (castlingHead visits))
  bestMove given := if given = 0 then castle else centre
  bestEval _ := ⟨0, 0, 0⟩
  playouts _ := 1
  abort world := world
  resetBestMove given := given + 1
  historyFill _ := .no

/-- Both sides play by such engines. -/
def castlingSetup (visits : Nat) : MatchSetup Nat HousePosition Square Binary32 where
  players := ⟨.ofNetwork (heuristicNetwork Nat), .ofNetwork (heuristicNetwork Nat)⟩
  factory := ⟨fun _ => [], fun _ world => (.ok (castlingEngine visits), world)⟩

/-- A best move needs five visits. -/
def fiveVisits : SelfPlayOptions Binary32 :=
  { (SelfPlayOptions.default : SelfPlayOptions Binary32) with minimumAllowedVisits := 5 }

/-- A game from the empty board with a right to castle. -/
def castlingGame : Game Nat HousePosition Square Binary32 where
  options := ⟨fiveVisits, fiveVisits⟩
  opening := ⟨"C:.../.../...", []⟩
  trees := .shared ⟨⟨⟨⟨0, 0, 0⟩, true, none, none⟩, []⟩, .empty⟩
  chess960 := false
  result := .undecided
  abort := .idle
  samples := []
  moveCount := 0
  totalNodes := 0
  marks := .start

theorem begin_castlingGame :
    Game.begin ⟨fiveVisits, fiveVisits⟩ true ⟨"C:.../.../...", []⟩ = .ok castlingGame := by
  have hstart : Board.ofFen "C:.../.../..." =
    .ok (⟨⟨0, 0, 0⟩, true, none, none⟩ : HousePosition) := rfl
  refine Game.begin_eq_ok_iff.mpr ⟨rfl, .ofStart ⟨⟨0, 0, 0⟩, true, none, none⟩, ?_, rfl⟩
  unfold GameRecord.ofOpening
  rw [hstart]
  rfl

/-- One thread for each side. -/
def castlingRequest : PlayRequest := ⟨⟨1, 1⟩, false, false⟩

/-- The engine that is made for the first move. -/
def castlingLaunch (visits : Nat) : Launch Nat HousePosition Square Binary32 :=
  ⟨0, castlingGame.trees.get .white, castlingEngine visits⟩

end TicTacToe

open TicTacToe TicTacToe.HousePosition in
/-- Castling is announced as the king's own move, it is played, and it is listed like that. -/
theorem castling_announcement_agrees :
    Game.begin ⟨fiveVisits, fiveVisits⟩ true ⟨"C:.../.../...", []⟩ = .ok castlingGame ∧
    castlingGame.journal (castlingSetup 9) 0 [.play castlingRequest 1] =
      [.launched (castlingLaunch 9), .began (castlingLaunch 9), .offered ⟨castle, none⟩] ++
        .announced ⟨kingMove, none⟩ :: [.ended (castlingLaunch 9) none (castlingHead 9) 0] ∧
    ∃ rest, (castlingGame.perform (castlingSetup 9) 0 [.play castlingRequest 1]).1.moves =
      kingMove :: rest := by
  have hjournal : castlingGame.journal (castlingSetup 9) 0 [.play castlingRequest 1] =
    [.launched (castlingLaunch 9), .began (castlingLaunch 9), .offered ⟨castle, none⟩] ++
      .announced ⟨kingMove, none⟩ :: [.ended (castlingLaunch 9) none (castlingHead 9) 0] := rfl
  have hplayed : (castlingGame.perform (castlingSetup 9) 0 [.play castlingRequest 1]).1.record =
    ([] : List Square).foldl GameRecord.play
      ((castlingLaunch 9).tree.record.play castle) := rfl
  obtain ⟨-, -, htold⟩ := announcements_agree_with_moves begin_castlingGame (castlingSetup 9) 0
    [.play castlingRequest 1]
  obtain ⟨launch, info, hflying, hoffered, hmoves⟩ := htold _ _ _ hjournal
  cases hflying
  cases hoffered
  exact ⟨begin_castlingGame, hjournal, hmoves [] hplayed⟩

section

variable {ω P M R : Type} [BoardMove M] [DecidableEq M] [Board P M] [Scalar R]

/-- **Discarded moves are written as the engine gave them.** What a player is told of a discarded move
is the opening's start position, and the moves of the game with the discarded one behind them: the
best move of the engine that has searched, which has too few visits and does not end the game. These
are the moves that the game would have if the move was played, unless it castles and is written
otherwise. -/
theorem discards_keep_notation [LawfulMove M] {options : PerSide (SelfPlayOptions R)} {shared : Bool}
    {opening : Opening M} {start : Game ω P M R}
    (hbegin : Game.begin options shared opening = .ok start) (setup : MatchSetup ω P M R)
    (world : ω) (acts : List (Act ω)) :
    ∀ (before after : Journal ω P M R) (report : DiscardedMove M) (now : ω),
      start.journal setup world acts = before ++ .discarded report now :: after →
      ∃ launch head, before.landed = some (launch, head) ∧
        launch.Discards start.settings head report now ∧ report.fen = opening.fen ∧
        let move := launch.engine.bestMove now
        let relative := BoardMove.relativeTo move launch.tree.sideToMove
        (report.moves = (launch.tree.record.play move).moves start.chess960 ↔
          start.chess960 = true ∨ Board.legacyMove launch.tree.record.head relative = relative) := by
  intro before after report now hsplit
  obtain ⟨hfresh, hopening⟩ := Game.fresh_of_begin hbegin
  obtain ⟨landed, hreads⟩ := (hfresh.fits_perform setup world acts).reads
  rw [hsplit] at hreads
  obtain ⟨launch, head, hlanded, hdiscards⟩ := hreads.discarded
  refine ⟨launch, head, hlanded, hdiscards, ?_, ?_⟩
  · rw [hdiscards.report, ← hopening]
    rfl
  · intro move relative
    have hwritten := GameRecord.written_eq_iff launch.tree.record.head move start.chess960
    rw [hdiscards.report, GameRecord.moves_play]
    simp only [Game.settings, List.append_cancel_left_eq, List.cons.injEq, and_true]
    rw [eq_comm]
    exact hwritten

end

open TicTacToe TicTacToe.HousePosition in
/-- Castling with too few visits is reported as it was offered, while the game would list it
otherwise. -/
theorem castling_discard_keeps_notation :
    Game.begin ⟨fiveVisits, fiveVisits⟩ true ⟨"C:.../.../...", []⟩ = .ok castlingGame ∧
    (castlingLaunch 1).Discards castlingGame.settings (castlingHead 1)
      ⟨"C:.../.../...", [castle]⟩ 0 ∧
    [castle] ≠ ((castlingLaunch 1).tree.record.play castle).moves castlingGame.chess960 := by
  have hjournal : castlingGame.journal (castlingSetup 1) 0 [.play castlingRequest 1] =
    [.launched (castlingLaunch 1), .began (castlingLaunch 1), .offered ⟨castle, none⟩,
        .announced ⟨kingMove, none⟩, .ended (castlingLaunch 1) none (castlingHead 1) 0] ++
      .discarded ⟨"C:.../.../...", [castle]⟩ 0 :: [] := rfl
  obtain ⟨launch, head, hlanded, hdiscards, -, hagrees⟩ :=
    discards_keep_notation begin_castlingGame (castlingSetup 1) 0 [.play castlingRequest 1] _ _ _ _
      hjournal
  have hlaunch : (castlingLaunch 1, castlingHead 1) = (launch, head) := Option.some.inj hlanded
  cases hlaunch
  refine ⟨begin_castlingGame, hdiscards, fun hsame => ?_⟩
  exact absurd (hagrees.mp hsame) (by decide)

open TicTacToe TicTacToe.HousePosition in
/-- The report of a discarded castling move is not the list of moves that the game would have with
it. -/
theorem castling_discard_differs :
    castlingGame.journal (castlingSetup 1) 0 [.play castlingRequest 1] =
      [.launched (castlingLaunch 1), .began (castlingLaunch 1), .offered ⟨castle, none⟩,
        .announced ⟨kingMove, none⟩, .ended (castlingLaunch 1) none (castlingHead 1) 0,
        .discarded ⟨"C:.../.../...", [castle]⟩ 0] ∧
    ({ castlingGame with trees := castlingGame.trees.play castle } :
      Game Nat HousePosition Square Binary32).moves = [kingMove] ∧
    [castle] ≠ [kingMove] := ⟨rfl, rfl, by decide⟩

end SelfPlay
