import Mathlib.Data.List.Defs
import SelfPlay.Proofs.Lookahead.Replay
import SelfPlay.Proofs.Match.Inheritance

/-!
# A tree agrees with its game

A game tree knows a game three times over: as positions, as the moves between them, and as the node
below which searches go on. Moves come in as they look on the board and are kept as the side to move
sees them. Whatever is done to a tree, its positions are those that the kept moves lead through, the
moves that it lists are those that came in, and its node is the one that they lead to.
-/

namespace SelfPlay

namespace Board

variable {P M : Type} [BoardMove M] [Board P M]

/-- The position after an absolute move, legal or not. -/
def playAbsolute (position : P) (move : M) : P :=
  play position (BoardMove.relativeTo move (sideToMove position))

/-- Absolute moves of which each is legal in the position that those before it lead to. -/
def AllowsLine (start : P) (line : List M) : Prop :=
  ∀ before move after, line = before ++ move :: after →
    BoardMove.relativeTo move (sideToMove (before.foldl playAbsolute start)) ∈
      legalMoves (before.foldl playAbsolute start)

/-- A line of absolute moves as the sides see them that make them. -/
def relativeLine (position : P) : List M → List M
  | [] => []
  | move :: rest =>
    BoardMove.relativeTo move (sideToMove position) :: relativeLine (playAbsolute position move) rest

theorem allowsLine_nil (start : P) : AllowsLine start ([] : List M) := by
  intro before move after hline
  simp at hline

theorem allowsLine_cons {start : P} {move : M} {rest : List M} :
    AllowsLine start (move :: rest) ↔
      BoardMove.relativeTo move (sideToMove start) ∈ legalMoves start ∧
        AllowsLine (playAbsolute start move) rest := by
  constructor
  · intro h
    refine ⟨h [] move rest rfl, fun before next after hrest => ?_⟩
    exact h (move :: before) next after (by rw [hrest, List.cons_append])
  · rintro ⟨hfirst, hrest⟩ before next after hline
    cases before with
    | nil =>
      cases hline
      exact hfirst
    | cons earlier before =>
      rw [List.cons_append] at hline
      obtain ⟨rfl, htail⟩ := List.cons.inj hline
      exact hrest before next after htail

end Board

namespace GameRecord

variable {P M : Type} [Board P M] {record : GameRecord P M}

/-- The moves of the game as the sides saw them, oldest first. -/
def relativeMoves (record : GameRecord P M) : List M := (record.played.map (·.2)).reverse

/-- The positions of the game are those that its moves lead through. -/
structure IsPlayedFrom (record : GameRecord P M) (start : P) : Prop where
  head : record.head = record.relativeMoves.foldl Board.play start
  positions : record.history.positions.reverse = record.relativeMoves.scanl Board.play start

theorem isPlayedFrom_ofStart (start : P) : (ofStart start : GameRecord P M).IsPlayedFrom start :=
  ⟨rfl, List.scanl_nil.symm⟩

variable [BoardMove M]

theorem relativeMoves_play (record : GameRecord P M) (move : M) :
    (record.play move).relativeMoves =
      record.relativeMoves ++ [BoardMove.relativeTo move record.sideToMove] := by
  simp only [relativeMoves, play, playRelative, List.map_cons, List.reverse_cons]

theorem relativeMoves_foldl_play (record : GameRecord P M) (line : List M) :
    (line.foldl play record).relativeMoves =
      record.relativeMoves ++ Board.relativeLine record.head line := by
  induction line generalizing record with
  | nil => exact (List.append_nil _).symm
  | cons move rest ih =>
    rw [List.foldl_cons, ih, relativeMoves_play, List.append_assoc]
    rfl

/-- A move leads to one position more. -/
theorem IsPlayedFrom.play {start : P} (h : record.IsPlayedFrom start) (move : M) :
    (record.play move).IsPlayedFrom start := by
  have hhead : (record.play move).head =
      Board.play record.head (BoardMove.relativeTo move record.sideToMove) := rfl
  have hpositions : (record.play move).history.positions =
      (record.play move).head :: record.history.positions := rfl
  refine ⟨?_, ?_⟩
  · rw [relativeMoves_play, List.foldl_append, hhead, h.head]
    rfl
  · rw [hpositions, List.reverse_cons, relativeMoves_play, List.scanl_append, h.positions, hhead,
      h.head]
    rfl

variable [DecidableEq M]

theorem eq_foldl_of_playLegal {moves : List M} {final : GameRecord P M}
    (h : record.playLegal moves = .ok final) : final = moves.foldl GameRecord.play record := by
  induction moves generalizing record with
  | nil =>
    cases h
    rfl
  | cons move rest ih =>
    rw [playLegal] at h
    split at h
    · exact ih h
    · cases h

/-- Moves are played if and only if each of them is legal when it is its turn. -/
theorem exists_playLegal_iff (record : GameRecord P M) (moves : List M) :
    (∃ final, record.playLegal moves = .ok final) ↔ Board.AllowsLine record.head moves := by
  induction moves generalizing record with
  | nil => exact ⟨fun _ => Board.allowsLine_nil _, fun _ => ⟨record, rfl⟩⟩
  | cons move rest ih =>
    rw [playLegal, Board.allowsLine_cons]
    split
    · rename_i hlegal
      rw [ih]
      exact ⟨fun h => ⟨hlegal, h⟩, fun h => h.2⟩
    · rename_i hillegal
      refine ⟨?_, fun h => absurd h.1 hillegal⟩
      rintro ⟨final, ⟨⟩⟩

end GameRecord

/-- What is done to a tree from outside. -/
inductive TreeAct (M : Type) where
  | play (move : M)
  /-- All that is known about the current position is dropped. -/
  | trim
  /-- The node of the current position is changed, there or anywhere below. -/
  | edit (f : Node M → Node M)

/-- The absolute move that is made, if one is. -/
def TreeAct.move? {M : Type} : TreeAct M → Option M
  | .play move => some move
  | _ => none

namespace GameTree

variable {P M : Type} [BoardMove M] [Board P M] [DecidableEq M]

def act (tree : GameTree P M) : TreeAct M → GameTree P M
  | .play move => tree.play move
  | .trim => tree.trim
  | .edit f => { tree with head := f tree.head }

/-- The tree after acts, in order. -/
def perform (tree : GameTree P M) (acts : List (TreeAct M)) : GameTree P M := acts.foldl act tree

/-- Moves alone make up the game. -/
theorem record_perform (tree : GameTree P M) (acts : List (TreeAct M)) :
    (tree.perform acts).record = (acts.filterMap TreeAct.move?).foldl GameRecord.play tree.record := by
  induction acts generalizing tree with
  | nil => rfl
  | cons act rest ih =>
    refine (ih (tree.act act)).trans ?_
    cases act <;> rfl

/-- Playing a line leads to the node at its end. -/
theorem head_foldl_play (tree : GameTree P M) (line : List M) :
    (line.foldl play tree).head = tree.head.follow (Board.relativeLine tree.record.head line) := by
  induction line generalizing tree with
  | nil => rfl
  | cons move rest ih => exact ih (tree.play move)

theorem exists_ofOpening_iff {fen : String} {moves : List M} :
    (∃ tree : GameTree P M, ofOpening fen moves = .ok tree) ↔
      ∃ start : P, Board.ofFen fen = .ok start ∧ Board.AllowsLine start moves := by
  constructor
  · rintro ⟨tree, htree⟩
    obtain ⟨start, hstart, hmoves⟩ := GameRecord.ofOpening_eq_ok_iff.mp (record_of_ofOpening htree)
    exact ⟨start, hstart, (GameRecord.exists_playLegal_iff _ _).mp ⟨_, hmoves⟩⟩
  · rintro ⟨start, hstart, hlegal⟩
    obtain ⟨record, hrecord⟩ :=
      (GameRecord.exists_playLegal_iff (GameRecord.ofStart start) moves).mpr hlegal
    refine ⟨⟨record, .empty⟩, ?_⟩
    unfold ofOpening
    rw [GameRecord.ofOpening_eq_ok_iff.mpr ⟨start, hstart, hrecord⟩]

end GameTree

namespace GameRecord

variable {P M : Type} [BoardMove M] [Board P M] {record : GameRecord P M}

theorem IsPlayedFrom.foldl_play {start : P} (h : record.IsPlayedFrom start) (moves : List M) :
    (moves.foldl GameRecord.play record).IsPlayedFrom start := by
  induction moves generalizing record with
  | nil => exact h
  | cons move rest ih => exact ih (h.play move)

/-- With the king taking its own rook, moves are listed as they came in. -/
theorem moves_true_foldl_play [LawfulMove M] (record : GameRecord P M) (moves : List M) :
    (moves.foldl GameRecord.play record).moves true = record.moves true ++ moves := by
  induction moves generalizing record with
  | nil => exact (List.append_nil _).symm
  | cons move rest ih =>
    rw [List.foldl_cons, ih, moves_play_of_writesPlainly (.inl rfl), List.append_assoc,
      List.singleton_append]

end GameRecord

variable {P M : Type} [BoardMove M] [Board P M] [DecidableEq M]

/-- **A tree's positions, moves and node agree**, whatever is done to the tree. An opening makes a tree
if and only if its start position is one and each forced move is legal where it is made. From then on
there is one position more than there are moves, the positions are those that the moves lead through
from the start, and the moves listed are the forced ones and all that were made since, in order. And
playing a line, in any tree, leads to the node that is found by taking the first edge for each of its
moves to the node below, and to an empty one if an edge or a node is missing on the way. -/
theorem tree_agrees_with_game [LawfulMove M] (fen : String) (forced : List M) :
    ((∃ tree : GameTree P M, GameTree.ofOpening fen forced = .ok tree) ↔
      ∃ start : P, Board.ofFen fen = .ok start ∧ Board.AllowsLine start forced) ∧
    (∀ (tree : GameTree P M) (acts : List (TreeAct M)), GameTree.ofOpening fen forced = .ok tree →
      let after := (tree.perform acts).record
      after.history.length = after.moveCount + 1 ∧
      after.relativeMoves.length = after.moveCount ∧
      (∃ start : P, Board.ofFen fen = .ok start ∧
        after.history.positions.reverse = after.relativeMoves.scanl Board.play start) ∧
      after.moves true = forced ++ acts.filterMap TreeAct.move?) ∧
    ∀ (tree : GameTree P M) (line : List M),
      let after := line.foldl GameTree.play tree
      let relatives := Board.relativeLine tree.record.head line
      after.record.relativeMoves = tree.record.relativeMoves ++ relatives ∧
      (tree.head.Reaches relatives after.head ∨
        (∀ target, ¬tree.head.Reaches relatives target) ∧ after.head = .empty) := by
  refine ⟨GameTree.exists_ofOpening_iff, ?_, ?_⟩
  · intro tree acts htree after
    obtain ⟨start, hstart, hforced⟩ :=
      GameRecord.ofOpening_eq_ok_iff.mp (GameTree.record_of_ofOpening htree)
    have hrecord : tree.record = forced.foldl GameRecord.play (GameRecord.ofStart start) :=
      GameRecord.eq_foldl_of_playLegal hforced
    have hafter : after = (acts.filterMap TreeAct.move?).foldl GameRecord.play tree.record :=
      GameTree.record_perform tree acts
    have hplayed : after.IsPlayedFrom start := by
      rw [hafter, hrecord]
      exact ((GameRecord.isPlayedFrom_ofStart start).foldl_play forced).foldl_play _
    refine ⟨GameRecord.length_history after, ?_, ⟨start, hstart, hplayed.positions⟩, ?_⟩
    · simp [GameRecord.relativeMoves, GameRecord.moveCount]
    · rw [hafter, hrecord, GameRecord.moves_true_foldl_play, GameRecord.moves_true_foldl_play]
      rfl
  · intro tree line after relatives
    refine ⟨?_, ?_⟩
    · change (line.foldl GameTree.play tree).record.relativeMoves = _
      rw [GameTree.record_foldl_play]
      exact GameRecord.relativeMoves_foldl_play tree.record line
    · have hhead : after.head = tree.head.follow relatives := GameTree.head_foldl_play tree line
      rw [hhead]
      exact tree.head.reaches_follow relatives

open TicTacToe TicTacToe.HousePosition

/-- White castles, black takes the centre, and a tree is grown for what follows. -/
def castledActs : List (TreeAct Square) :=
  [.edit fun _ => castlingHead 4, .play kingMove.mirrored, .trim, .play castle.mirrored]

/-- Two edges for castling, of which the first leads somewhere. -/
def twofoldHead : Node Square :=
  .ofEdges [⟨castle, 1, some (castlingHead 4)⟩, ⟨castle, 7, none⟩]

/-- A game that goes on after castling lists all of its moves; and of two edges for castling the first
one is taken. -/
theorem castled_tree_agrees :
    ∃ (start : HousePosition) (tree : GameTree HousePosition Square),
      Board.ofFen "C:.../.../..." = .ok start ∧
      GameTree.ofOpening "C:.../.../..." [castle, centre] = .ok tree ∧
      Board.AllowsLine start [castle, centre] ∧
      (tree.perform castledActs).record.moves true =
        [castle, centre, kingMove.mirrored, castle.mirrored] ∧
      twofoldHead.Reaches [castle] (GameTree.play ⟨.ofStart start, twofoldHead⟩ castle).head := by
  have hstart : Board.ofFen "C:.../.../..." =
    .ok (⟨⟨0, 0, 0⟩, true, none, none⟩ : HousePosition) := rfl
  have htree : GameTree.ofOpening "C:.../.../..." [castle, centre] =
      .ok (⟨[castle, centre].foldl GameRecord.play
        (.ofStart (⟨⟨0, 0, 0⟩, true, none, none⟩ : HousePosition)), .empty⟩ :
        GameTree HousePosition Square) := by
    unfold GameTree.ofOpening GameRecord.ofOpening
    rw [hstart]
    rfl
  obtain ⟨hopening, hacts, hline⟩ :=
    tree_agrees_with_game (P := HousePosition) "C:.../.../..." [castle, centre]
  obtain ⟨start, hfen, hallows⟩ := hopening.mp ⟨_, htree⟩
  cases hstart.symm.trans hfen
  obtain ⟨-, -, -, hmoves⟩ := hacts _ castledActs htree
  refine ⟨_, _, hstart, htree, hallows, hmoves, ?_⟩
  have hreaches : twofoldHead.Reaches [castle] (castlingHead 4) := .step rfl rfl .here
  rcases (hline ⟨.ofStart ⟨⟨0, 0, 0⟩, true, none, none⟩, twofoldHead⟩ [castle]).2 with
    hhead | ⟨hnone, -⟩
  · exact hhead
  · exact absurd hreaches (hnone _)

end SelfPlay
