import SelfPlay.Proofs.Lookahead.Interruption
import SelfPlay.Proofs.Lookahead.Plies
import SelfPlay.Proofs.Lookahead.Resumption
import SelfPlay.Proofs.Match.Bookkeeping
import SelfPlay.TicTacToe.HouseRules

/-!
# Games of a batch replay from their moves

A record stores moves as the side to move sees them, each with its position. Written down and played
again from the start position they lead to the same record, provided that writing changes nothing
but the point of view: then each move passes the check for legality that it passed as an edge.
-/

namespace SelfPlay

variable {ω P M : Type} [BoardMove M] [Board P M]

/-- Moves are written down as they are, from white's point of view. -/
def Board.WritesPlainly (P : Type) {M : Type} [Board P M] (chess960 : Bool) : Prop :=
  chess960 = true ∨ ∀ (position : P) (move : M), legacyMove position move = move

namespace GameRecord

variable {fen : String} {chess960 : Bool} {record final : GameRecord P M}

theorem moves_play_of_writesPlainly [LawfulMove M] (hplain : Board.WritesPlainly P chess960)
    (record : GameRecord P M) (move : M) :
    (record.play move).moves chess960 = record.moves chess960 ++ [move] := by
  rw [moves_play, sideToMove,
    (written_eq_iff record.head move chess960).mpr (hplain.imp_right fun h => h _ _)]

variable [DecidableEq M]

theorem playLegal_append (record : GameRecord P M) (moves more : List M) :
    record.playLegal (moves ++ more) =
      match record.playLegal moves with
      | .error error => .error error
      | .ok next => next.playLegal more := by
  induction moves generalizing record with
  | nil => rfl
  | cons move rest ih =>
    rw [List.cons_append, playLegal, playLegal]
    split
    · exact ih (record.play move)
    · rfl

/-- The moves of a game are those that it was given. -/
theorem moves_playLegal [LawfulMove M] (hplain : Board.WritesPlainly P chess960) {moves : List M}
    (h : record.playLegal moves = .ok final) :
    final.moves chess960 = record.moves chess960 ++ moves := by
  induction moves generalizing record with
  | nil =>
    cases h
    rw [List.append_nil]
  | cons move rest ih =>
    rw [playLegal] at h
    split at h
    · rw [ih h, moves_play_of_writesPlainly hplain, List.append_assoc, List.singleton_append]
    · cases h

theorem moves_ofOpening [LawfulMove M] (hplain : Board.WritesPlainly P chess960) {moves : List M}
    (h : ofOpening fen moves = .ok record) : record.moves chess960 = moves := by
  obtain ⟨start, -, hmoves⟩ := ofOpening_eq_ok_iff.mp h
  rw [moves_playLegal hplain hmoves]
  rfl

theorem moveCount_ofOpening {moves : List M} (h : ofOpening fen moves = .ok record) :
    record.moveCount = moves.length := by
  obtain ⟨start, -, hmoves⟩ := ofOpening_eq_ok_iff.mp h
  have hcount := moveCount_playLegal hmoves
  rw [hcount]
  exact Nat.zero_add _

/-- The record is the one that its moves lead to from a start position. -/
def Replays (record : GameRecord P M) (fen : String) (chess960 : Bool) : Prop :=
  ofOpening fen (record.moves chess960) = .ok record

theorem replays_of_ofOpening [LawfulMove M] (hplain : Board.WritesPlainly P chess960)
    {moves : List M} (h : ofOpening fen moves = .ok record) : record.Replays fen chess960 := by
  rw [Replays, moves_ofOpening hplain h]
  exact h

/-- A legal move more is a move more to replay. -/
theorem Replays.play [LawfulMove M] (hplain : Board.WritesPlainly P chess960)
    (h : record.Replays fen chess960) {move : M} (hlegal : move ∈ Board.legalMoves record.head) :
    (record.play (BoardMove.relativeTo move record.sideToMove)).Replays fen chess960 := by
  obtain ⟨start, hstart, hmoves⟩ := ofOpening_eq_ok_iff.mp h
  refine ofOpening_eq_ok_iff.mpr ⟨start, hstart, ?_⟩
  rw [moves_play_of_writesPlainly hplain, playLegal_append, hmoves]
  simp only
  rw [playLegal, if_pos (by rwa [BoardMove.relativeTo_relativeTo])]
  rfl

end GameRecord

variable [DecidableEq M]

theorem GameTree.ofOpening_of_replays {fen : String} {chess960 : Bool} {record : GameRecord P M}
    (h : record.Replays fen chess960) :
    ofOpening fen (record.moves chess960) = .ok ⟨record, .empty⟩ := by
  unfold ofOpening
  rw [h]

theorem GameTree.record_of_ofOpening {fen : String} {moves : List M} {tree : GameTree P M}
    (h : ofOpening fen moves = .ok tree) : GameRecord.ofOpening fen moves = .ok tree.record := by
  unfold ofOpening at h
  split at h
  · cases h
  · rename_i hrecord
    cases h
    exact hrecord

namespace Lookahead

/-- What a run keeps of the game of an opening: that it replays, forced moves first. -/
structure BatchGame.Continues (game : BatchGame P M) (opening : Opening M) (chess960 : Bool) :
    Prop where
  fresh : game.tree.IsFresh
  replays : game.record.Replays opening.fen chess960
  forced : opening.moves <+: game.record.moves chess960

theorem BatchGame.Continues.progress [LawfulMove M] {game after : BatchGame P M}
    {opening : Opening M} {chess960 : Bool} (hplain : Board.WritesPlainly P chess960)
    {rules : GameRecord P M → GameResult → Prop} (h : game.Continues opening chess960)
    (hprogress : game.Progress rules after) : after.Continues opening chess960 := by
  obtain ⟨rest, hrest⟩ := BatchGame.moves_of_progress hprogress chess960
  refine ⟨BatchGame.isFresh_of_progress h.fresh hprogress, ?_, ?_⟩
  · rcases BatchGame.record_of_progress h.fresh hprogress with hsame | ⟨move, hmove, hplayed⟩
    · rw [hsame]
      exact h.replays
    · rw [hplayed]
      exact h.replays.play hplain hmove
  · rw [hrest]
    exact h.forced.trans (List.prefix_append _ _)

namespace Batch

variable {networks : PerSide (Network ω)} {tablebase : Option (Tablebase ω P)}
  {players : PerSide (Player ω M)} {openings : List (Opening M)} {start batch : Batch P M}

theorem exists_game_of_ofOpenings (hstart : ofOpenings players openings = .ok start) {i : Nat}
    {opening : Opening M} (hi : openings[i]? = some opening) :
    ∃ game, start.games[i]? = some game ∧
      GameRecord.ofOpening opening.fen opening.moves = .ok game.record := by
  obtain ⟨chess960, trees, -, htrees, rfl⟩ := ofOpenings_eq_ok_iff.mp hstart
  have hopenings := treesOf_eq_ok_iff.mp htrees
  obtain ⟨hlt, rfl⟩ := List.getElem?_eq_some_iff.mp hi
  have hlt' : i < trees.length := by rw [← hopenings.length_eq]; exact hlt
  exact ⟨⟨trees[i], .undecided⟩, by simp [hlt'],
    GameTree.record_of_ofOpening (hopenings.get hlt hlt')⟩

/-- What start positions have and legal moves keep all games of a batch have, whatever its state. -/
theorem keeps_record_of_leads [LawfulMove M] {Q : GameRecord P M → Prop}
    (hofStart : ∀ {fen : String} {position : P}, Board.ofFen fen = .ok position →
      Q (.ofStart position))
    (hplay : ∀ {record : GameRecord P M} {move : M}, Q record →
      move ∈ Board.legalMoves record.head → Q (record.playRelative move))
    (hstart : ofOpenings players openings = .ok start)
    (hleads : start.Leads networks tablebase batch) {i : Nat} {game : BatchGame P M}
    (hi : batch.games[i]? = some game) : Q game.record := by
  have hlt := (List.getElem?_eq_some_iff.mp hi).1
  rw [length_of_leads hleads, length_games_of_ofOpenings hstart] at hlt
  obtain ⟨first, hfirst, hopening⟩ :=
    exists_game_of_ofOpenings hstart (List.getElem?_eq_getElem hlt)
  have hfresh := isFresh_of_ofOpenings hstart first (List.mem_of_getElem? hfirst)
  have hkept : ∀ game after : BatchGame P M, game.tree.IsFresh ∧ Q game.record →
      game.Progress (fun _ _ => True) after → after.tree.IsFresh ∧ Q after.record := by
    intro game after hgame hprogress
    refine ⟨BatchGame.isFresh_of_progress hgame.1 hprogress, ?_⟩
    rcases BatchGame.record_of_progress hgame.1 hprogress with hsame | ⟨move, hmove, hplayed⟩
    · rw [hsame]
      exact hgame.2
    · rw [hplayed, GameRecord.play, GameRecord.sideToMove, BoardMove.relativeTo_relativeTo]
      exact hplay hgame.2 hmove
  obtain ⟨after, hafter, hgood⟩ := keeps_of_leads _ (BatchGame.follows_true tablebase) hkept hleads
    hfirst ⟨hfresh, GameRecord.keeps_of_ofOpening hofStart hplay hopening⟩
  rw [hi] at hafter
  cases hafter
  exact hgood.2

/-- **Each game of a batch continues its opening**, whatever the state of the batch. -/
theorem continues_of_leads [LawfulMove M] (hplain : Board.WritesPlainly P batch.chess960)
    (hstart : ofOpenings players openings = .ok start)
    (hleads : start.Leads networks tablebase batch) {i : Nat} {opening : Opening M}
    (hi : openings[i]? = some opening) :
    ∃ game, batch.games[i]? = some game ∧ game.Continues opening batch.chess960 := by
  obtain ⟨game, hgame, hrecord⟩ := exists_game_of_ofOpenings hstart hi
  refine keeps_of_leads (fun game => game.Continues opening batch.chess960)
    (BatchGame.follows_true tablebase) (fun _ _ => BatchGame.Continues.progress hplain) hleads hgame
    ⟨isFresh_of_ofOpenings hstart game (List.mem_of_getElem? hgame),
      GameRecord.replays_of_ofOpening hplain hrecord, [], ?_⟩
  rw [GameRecord.moves_ofOpening hplain hrecord, List.append_nil]

/-- The moves counted are those that the games list beyond the forced ones. -/
theorem pliesPlayed_eq_sum_openings (hstart : ofOpenings players openings = .ok start)
    (hleads : start.Leads networks tablebase batch) :
    batch.pliesPlayed = (List.zipWith (fun opening game =>
      (game.record.moves batch.chess960).length - opening.moves.length) openings
        batch.games).sum := by
  have hforced : start.games.map (·.record.moveCount) = openings.map (·.moves.length) := by
    apply List.ext_getElem?
    intro i
    rw [List.getElem?_map, List.getElem?_map]
    cases hi : openings[i]? with
    | none =>
      rw [List.getElem?_eq_none_iff] at hi
      rw [List.getElem?_eq_none (by rw [length_games_of_ofOpenings hstart]; exact hi)]
      rfl
    | some opening =>
      obtain ⟨game, hgame, hrecord⟩ := exists_game_of_ofOpenings hstart hi
      rw [hgame, Option.map_some, Option.map_some, GameRecord.moveCount_ofOpening hrecord]
  have hsum := pliesPlayed_eq_sum hleads
  rw [pliesPlayed_of_ofOpenings hstart, Nat.zero_add,
    ← List.zipWith_map_left (f := fun (game : BatchGame P M) => game.record.moveCount)
      (g := fun forced (after : BatchGame P M) => after.record.moveCount - forced), hforced,
    List.zipWith_map_left] at hsum
  simp only [GameRecord.length_moves]
  exact hsum

end Batch

/-- **Every game of a batch replays from its moves**, in whatever state calls to play and requests to
stop have left the batch, failed calls included, if moves are written down plainly. The moves of the
game begin with its opening's forced ones; the opening's start position and these moves make a tree
again, with the game's own record and so with its current position; and the moves beyond the forced
ones are those that the batch has counted. -/
theorem games_replay_from_moves [LawfulMove M] {players : PerSide (Player ω M)}
    {openings : List (Opening M)} {start batch : Batch P M}
    (hstart : Batch.ofOpenings players openings = .ok start)
    {networks : PerSide (Network ω)} {tablebase : Option (Tablebase ω P)}
    (hleads : start.Leads networks tablebase batch)
    (hplain : batch.chess960 = true ∨
      ∀ (position : P) (move : M), Board.legacyMove position move = move) :
    (∀ (i : Nat) (opening : Opening M), openings[i]? = some opening →
      ∃ (moves : List M) (tree : GameTree P M), batch.gameMoves? i = some moves ∧
        opening.moves <+: moves ∧ GameTree.ofOpening opening.fen moves = .ok tree ∧
        batch.headFen? i = some (Board.toFen tree.record.head) ∧
        batch.games[i]?.map (·.record) = some tree.record) ∧
    batch.games.length = openings.length ∧
    batch.pliesPlayed = (List.zipWith (fun opening game =>
      (game.record.moves batch.chess960).length - opening.moves.length) openings
        batch.games).sum := by
  refine ⟨?_, ?_, Batch.pliesPlayed_eq_sum_openings hstart hleads⟩
  · intro i opening hi
    obtain ⟨game, hgame, hcontinues⟩ := Batch.continues_of_leads hplain hstart hleads hi
    refine ⟨_, ⟨game.record, .empty⟩, ?_, hcontinues.forced,
      GameTree.ofOpening_of_replays hcontinues.replays, ?_, ?_⟩
    · rw [Batch.gameMoves?, hgame, Option.map_some]
    · rw [Batch.headFen?, hgame, Option.map_some]
    · rw [hgame, Option.map_some]
  · rw [Batch.length_of_leads hleads, Batch.length_games_of_ofOpenings hstart]

open TicTacToe

/-- A player whose network fails, and who wants castling written as the king taking its own rook. -/
def castlingPlayer : Player Nat Square :=
  { Player.ofNetwork flakyNetwork with
    options := OptionsDict.empty.set SelfPlayOptions.chess960Name "true" }

/-- In both openings white castles. -/
def castledOpenings : List (Opening Square) :=
  [⟨"C:.../.../...", [HousePosition.castle, centre]⟩, ⟨"C:.../.o./..x", [HousePosition.castle]⟩]

def castledBatch : Batch HousePosition Square :=
  ⟨true,
    [⟨⟨⟨⟨⟨0b000000001, 0b000010000, 2⟩, false, none, none⟩,
        [(⟨⟨0b000000001, 0, 1⟩, false, none, none⟩, centre),
          (⟨⟨0, 0, 0⟩, true, none, none⟩, HousePosition.castle)]⟩, .empty⟩, .undecided⟩,
      ⟨⟨⟨⟨⟨0b000000101, 0b000010000, 3⟩, false, none, none⟩,
        [(⟨⟨0b000000100, 0b000010000, 2⟩, true, none, none⟩, HousePosition.castle)]⟩, .empty⟩, .undecided⟩],
    0, false⟩

theorem ofOpenings_castledOpenings :
    Batch.ofOpenings ⟨castlingPlayer, castlingPlayer⟩ castledOpenings = .ok castledBatch := by
  have hwritten : Batch.castlingNotation (⟨castlingPlayer, castlingPlayer⟩ :
      PerSide (Player Nat Square)) = .ok true := by decide +kernel
  have hfirst : Board.ofFen "C:.../.../..." =
      .ok (⟨⟨0, 0, 0⟩, true, none, none⟩ : HousePosition) := rfl
  have hsecond : Board.ofFen "C:.../.o./..x" =
      .ok (⟨⟨0b000000100, 0b000010000, 2⟩, true, none, none⟩ : HousePosition) := rfl
  have htrees : Batch.treesOf castledOpenings = .ok (castledBatch.games.map (·.tree)) := by
    unfold castledOpenings Batch.treesOf GameTree.ofOpening GameRecord.ofOpening
    rw [hfirst]
    unfold Batch.treesOf GameTree.ofOpening GameRecord.ofOpening
    rw [hsecond]
    rfl
  exact Batch.ofOpenings_eq_ok_iff.mpr ⟨_, _, hwritten, htrees, rfl⟩

/-- The fourth network batch fails. What has been played until then can be replayed, castling
included. -/
theorem castled_games_replay_from_moves :
    ∃ (batch : Batch HousePosition Square) (tree other : GameTree HousePosition Square),
      (castledBatch.playFor ⟨flakyNetwork, flakyNetwork⟩ none 9 4).1 =
        .failed (.network (.ofMessage "no memory")) ∧
      batch = (castledBatch.playFor ⟨flakyNetwork, flakyNetwork⟩ none 9 4).2.1 ∧
      GameTree.ofOpening "C:.../.../..." [⟨0, 0⟩, ⟨1, 1⟩, ⟨2, 2⟩, ⟨0, 2⟩, ⟨1, 2⟩] = .ok tree ∧
      GameTree.ofOpening "C:.../.o./..x" [⟨0, 0⟩, ⟨2, 2⟩, ⟨1, 0⟩] = .ok other ∧
      batch.headFen? 0 = some (Board.toFen tree.record.head) ∧
      batch.headFen? 1 = some (Board.toFen other.record.head) ∧
      batch.pliesPlayed = 5 := by
  have hplay : (castledBatch.playFor ⟨flakyNetwork, flakyNetwork⟩ none 9 4).1 =
        .failed (.network (.ofMessage "no memory")) ∧
      (castledBatch.playFor ⟨flakyNetwork, flakyNetwork⟩ none 9 4).2.1.gameMoves? 0 =
        some [⟨0, 0⟩, ⟨1, 1⟩, ⟨2, 2⟩, ⟨0, 2⟩, ⟨1, 2⟩] ∧
      (castledBatch.playFor ⟨flakyNetwork, flakyNetwork⟩ none 9 4).2.1.gameMoves? 1 =
        some [⟨0, 0⟩, ⟨2, 2⟩, ⟨1, 0⟩] ∧
      (castledBatch.playFor ⟨flakyNetwork, flakyNetwork⟩ none 9 4).2.1.chess960 = true ∧
      (castledBatch.playFor ⟨flakyNetwork, flakyNetwork⟩ none 9 4).2.1.pliesPlayed = 5 := by
    decide +kernel
  obtain ⟨hfailed, hmoves, hothers, hwritten, hplies⟩ := hplay
  have hleads : castledBatch.Leads ⟨flakyNetwork, flakyNetwork⟩ none
      (castledBatch.playFor ⟨flakyNetwork, flakyNetwork⟩ none 9 4).2.1 :=
    Batch.leads_playFor 9 castledBatch 4
  obtain ⟨hreplay, -, -⟩ :=
    games_replay_from_moves ofOpenings_castledOpenings hleads (.inl hwritten)
  obtain ⟨moves, tree, hfirst, -, htree, hhead, -⟩ := hreplay 0 _ rfl
  obtain ⟨others, other, hsecond, -, hother, hlast, -⟩ := hreplay 1 _ rfl
  rw [hmoves] at hfirst
  rw [hothers] at hsecond
  cases hfirst
  cases hsecond
  exact ⟨_, tree, other, hfailed, rfl, htree, hother, hhead, hlast, hplies⟩

end Lookahead

end SelfPlay
