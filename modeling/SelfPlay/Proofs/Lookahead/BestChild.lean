import SelfPlay.Proofs.Lookahead.Children
import SelfPlay.Proofs.Lookahead.Choice
import SelfPlay.Proofs.Lookahead.Reach

/-!
# Every move is a best child

In a group step each game goes to the last of its best children: a child that the side to move has
won counts one, a drawn one zero, and any other one minus what the network makes of it.
-/

namespace SelfPlay.Lookahead

open SelfPlay.Numeric

variable {ω P M : Type} [Board P M]

namespace BatchGame

/-- The game goes to the child of a legal move that no child exceeds and all later ones fall short
of. -/
structure GoesToBest (values : List Binary32) (first : Nat) (game after : BatchGame P M)
    (j : Nat) (move : M) (value : Binary32) : Prop where
  legal : (Board.legalMoves game.record.head)[j]? = some move
  value_eq : game.childValue? values first j = some value
  greatest : ∀ k other, game.childValue? values first k = some other → other.le value = true
  last : ∀ k other, j < k → game.childValue? values first k = some other → other.lt value = true
  after_eq : after = ⟨⟨game.record.playRelative move, .empty⟩, game.result⟩

theorem GoesToBest.congr {values others : List Binary32} {first : Nat}
    {game after : BatchGame P M} {j : Nat} {move : M} {value : Binary32}
    (h : game.GoesToBest values first after j move value)
    (hvalues : ∀ k, game.childValue? values first k = game.childValue? others first k) :
    game.GoesToBest others first after j move value := by
  refine ⟨h.legal, by rw [← hvalues, h.value_eq], ?_, ?_, h.after_eq⟩
  · intro k other hother
    exact h.greatest k other (by rw [hvalues, hother])
  · intro k other hk hother
    exact h.last k other hk (by rw [hvalues, hother])

variable [BoardMove M] [DecidableEq M]

/-- The choice of a number is the choice of the legal move that has it. -/
theorem advance_of_selectBest [LawfulMove M] {game : BatchGame P M} (h : game.tree.IsFresh)
    {scores : List Binary32} {j : Nat} {move : M} (hselect : selectBest scores = some j)
    (hmove : (Board.legalMoves game.record.head)[j]? = some move) :
    game.expand.advance scores = ⟨⟨game.record.playRelative move, .empty⟩, game.result⟩ := by
  have hedges : game.expand.tree.head.edges = _ := GameTree.edges_expand h
  have hedge : game.expand.tree.head.edges[j]? = some (Edge.ofMove move) := by
    rw [hedges, List.getElem?_map]
    exact congrArg (Option.map Edge.ofMove) hmove
  have hfresh : game.expand.tree.IsFresh := GameTree.isFresh_expand h
  have hplay : game.expand.tree.record.play
      (BoardMove.relativeTo move game.expand.record.sideToMove) = game.record.playRelative move :=
    congrArg game.record.playRelative (BoardMove.relativeTo_relativeTo move _)
  unfold advance
  rw [hselect, Option.bind_some, hedge]
  simp only
  rw [GameTree.play_of_isFresh hfresh]
  exact congrArg (fun record => (⟨⟨record, .empty⟩, game.result⟩ : BatchGame P M)) hplay

/-- A game that can move goes to its best child. -/
theorem goesToBest_advance [LawfulMove M] {game : BatchGame P M} (h : game.tree.IsFresh)
    {values : List Binary32} (hvalues : ∀ value ∈ values, value.isNaN = false)
    (hmoves : Board.legalMoves game.record.head ≠ []) (format : InputFormat) (first : Nat) :
    ∃ j move value, game.GoesToBest values first
      (game.expand.advance (scores (valueOf values) first (candidates format game.expand.tree)))
      j move value := by
  have hscore := getElem?_scores h format values first
  generalize hscores : scores (valueOf values) first (candidates format game.expand.tree) = list
  rw [hscores] at hscore
  have hlength : list.length = (Board.legalMoves game.record.head).length := by
    rw [← hscores, length_scores, candidates_expand h, List.length_map]
  have hne : list ≠ [] := by
    rintro rfl
    exact hmoves (List.length_eq_zero_iff.mp hlength.symm)
  have hnumbers : ∀ value ∈ list, value.isNaN = false := by
    intro value hmem
    obtain ⟨j, hj⟩ := List.mem_iff_getElem?.mp hmem
    exact isNaN_childValue? hvalues ((hscore j).symm.trans hj)
  obtain ⟨j, value, hselect, hlast⟩ := selectBest_of_isNumber hne hnumbers
  have hvalue : game.childValue? values first j = some value :=
    (hscore j).symm.trans hlast.getElem?_eq
  have hlt := lt_length_of_selectBest hselect
  rw [hlength] at hlt
  have hmove := List.getElem?_eq_getElem hlt
  have hnumber := isNaN_childValue? hvalues hvalue
  refine ⟨j, _, value, hmove, hvalue, ?_, ?_, advance_of_selectBest h hselect hmove⟩
  · intro k other hother
    have hmem := List.mem_of_getElem? ((hscore k).trans hother)
    exact (Binary32.le_iff_key_le (hnumbers other hmem) hnumber).mpr (hlast.key_le other hmem)
  · intro k other hk hother
    have hget := (hscore k).trans hother
    exact (Binary32.lt_iff_key_lt (hnumbers other (List.mem_of_getElem? hget)) hnumber).mpr
      (hlast.key_lt k other hk hget)

/-- A game that cannot move is drawn. -/
theorem advance_of_legalMoves_eq_nil {game : BatchGame P M} (h : game.tree.IsFresh)
    (hmoves : Board.legalMoves game.record.head = []) (format : InputFormat)
    (values : List Binary32) (first : Nat) :
    game.expand.advance (scores (valueOf values) first (candidates format game.expand.tree)) =
      { game with result := .draw } := by
  have hscores : scores (valueOf values) first (candidates format game.expand.tree) = [] := by
    rw [candidates_expand h, hmoves]
    rfl
  have htree : game.expand.tree = game.tree := GameTree.expand_of_legalMoves_eq_nil h hmoves
  rw [hscores]
  unfold advance
  rw [htree]
  rfl

end BatchGame

namespace Batch

open BatchGame

/-- What the games of a batch do when `side` moves by the given values. -/
structure GoesToBest (side : Color) (values : List Binary32) (batch after : Batch P M) : Prop where
  length_eq : after.games.length = batch.games.length
  others : ∀ (i : Nat) (game : BatchGame P M), batch.games[i]? = some game →
    game.awaits side = false → after.games[i]? = some game
  stuck : ∀ (i : Nat) (game : BatchGame P M), batch.games[i]? = some game →
    game.awaits side = true → Board.legalMoves game.record.head = [] →
    after.games[i]? = some { game with result := .draw }
  best : ∀ (i : Nat) (game : BatchGame P M), batch.games[i]? = some game →
    game.awaits side = true → Board.legalMoves game.record.head ≠ [] →
    ∃ next j move value, after.games[i]? = some next ∧
      game.GoesToBest values (batch.openBefore side i) next j move value

theorem GoesToBest.congr_of_games {side : Color} {values : List Binary32}
    {batch after other : Batch P M} (h : batch.GoesToBest side values after)
    (hgames : other.games = after.games) : batch.GoesToBest side values other := by
  refine ⟨?_, ?_, ?_, ?_⟩ <;> rw [hgames]
  · exact h.length_eq
  · exact h.others
  · exact h.stuck
  · exact h.best

/-- Without an open child the values are not looked at. -/
theorem GoesToBest.congr_of_nil {side : Color} {values : List Binary32} {batch after : Batch P M}
    (h : batch.GoesToBest side values after) (hnone : openChildren side batch.games = [])
    (others : List Binary32) : batch.GoesToBest side others after := by
  refine ⟨h.length_eq, h.others, h.stuck, ?_⟩
  intro i game hi hawaits hmoves
  obtain ⟨next, j, move, value, hnext, hbest⟩ := h.best i game hi hawaits hmoves
  have hmem : game ∈ batch.games.filter (·.awaits side) :=
    List.mem_filter.mpr ⟨List.mem_of_getElem? hi, hawaits⟩
  have hgame : openOnes game.children = [] := List.flatMap_eq_nil_iff.mp hnone game hmem
  exact ⟨next, j, move, value, hnext, hbest.congr (childValue?_congr hgame values others _)⟩

variable [BoardMove M] [DecidableEq M]

/-- A group step with values that are numbers takes each game of the group to its best child. -/
theorem goesToBest_advance [LawfulMove M] {batch : Batch P M} (h : batch.IsFresh)
    (format : InputFormat) (side : Color) {values : List Binary32}
    (hvalues : ∀ value ∈ values, value.isNaN = false) :
    batch.GoesToBest side values ((batch.expandGroup side).advance format side values) := by
  have hget (i : Nat) (game : BatchGame P M) (hi : batch.games[i]? = some game) :
      ((batch.expandGroup side).advance format side values).games[i]? = some
        (if game.awaits side then
          game.expand.advance (scores (valueOf values)
            (batch.openBefore side i) (candidates format game.expand.tree))
        else game) := by
    unfold advance
    rw [getElem?_advanceAll, getElem?_expandGroup, hi, Option.map_some, Option.map_some,
      firstSample_expandGroup h, Nat.zero_add]
    by_cases hawaits : game.awaits side = true
    · have hstill : game.expand.awaits side = true := hawaits
      simp only [hawaits, if_true, hstill]
    · simp only [hawaits, Bool.false_eq_true, if_false]
  refine ⟨?_, ?_, ?_, ?_⟩
  · simp [advance, expandGroup, length_advanceAll]
  · intro i game hi hwaits
    rw [hget i game hi, hwaits, if_neg Bool.false_ne_true]
  · intro i game hi hawaits hstuck
    rw [hget i game hi, if_pos hawaits,
      advance_of_legalMoves_eq_nil (h game (List.mem_of_getElem? hi)) hstuck]
  · intro i game hi hawaits hmoves
    obtain ⟨j, move, value, hbest⟩ := BatchGame.goesToBest_advance
      (h game (List.mem_of_getElem? hi)) hvalues hmoves format
      (batch.openBefore side i)
    refine ⟨_, j, move, value, ?_, hbest⟩
    rw [hget i game hi, if_pos hawaits]

/-- What a group step does when the network answers; it may ask to stop as well. -/
theorem playGroup_of_ok {network : Network ω} {side : Color} {batch : Batch P M} {world : ω}
    {samples : List (List Plane)} {values : List Binary32}
    (hsamples : (batch.expandGroup side).groupSamples network.format side = samples)
    (hsome : samples ≠ []) (hvalues : (network.evaluate samples world).outcome = .ok values) :
    ∃ after : Batch P M,
      batch.playGroup network side world = (none, after, (network.evaluate samples world).world) ∧
        after.games = ((batch.expandGroup side).advance network.format side values).games := by
  have hnotEmpty : ¬samples.isEmpty = true := fun h => hsome (List.isEmpty_iff.mp h)
  unfold playGroup
  simp only
  rw [hsamples, if_neg hnotEmpty, hvalues]
  refine ⟨_, rfl, ?_⟩
  split <;> rfl

end Batch

variable [BoardMove M] [DecidableEq M]

/-- **Every ply is the best child.** In whatever state a batch is, a group step whose values are
numbers has the network value the encodings of just the open children of the group's games, takes
each game to its best child and draws the stuck ones. No other game changes. The value that a child
has by its number is that of its own encoding. Without an open child the network is not asked: the
world stays, and any other network would do. -/
theorem group_goesToBest [LawfulMove M] {players : PerSide (Player ω M)}
    {openings : List (Opening M)} {start batch settled : Batch P M}
    (hstart : Batch.ofOpenings players openings = .ok start) {networks : PerSide (Network ω)}
    {tablebase : Option (Tablebase ω P)} (hleads : start.Leads networks tablebase batch)
    {world world' : ω} (hsettle : batch.settle tablebase world = (settled, world')) {side : Color}
    {network : Network ω} (hnetwork : networks.get side = network) {values : List Binary32}
    (hcomputed : settled.encodings network.format side ≠ [] →
      (network.evaluate (settled.encodings network.format side) world').outcome = .ok values)
    (hnumbers : ∀ value ∈ values, value.isNaN = false) :
    (settled.expandGroup side).groupSamples network.format side =
        settled.encodings network.format side ∧
    (∀ (i j : Nat) (game : BatchGame P M) (child : History P), settled.games[i]? = some game →
      game.awaits side = true → game.children[j]? = some child → child.result = .undecided →
      (settled.encodings network.format side)[settled.openBefore side i + game.openBefore j]? =
        some (Batch.encodeOpen network.format child)) ∧
    ∃ after last, settled.playGroup (networks.get side) side world' = (none, after, last) ∧
      settled.GoesToBest side values after ∧
      (settled.encodings network.format side ≠ [] →
        last = (network.evaluate (settled.encodings network.format side) world').world) ∧
      (settled.encodings network.format side = [] →
        ∀ (other : Network ω) (elsewhere : ω), other.format = network.format →
          settled.playGroup other side elsewhere = (none, after, elsewhere)) := by
  have hfresh : settled.IsFresh := by
    have hbatch := Batch.isFresh_of_leads hleads (Batch.isFresh_of_ofOpenings hstart)
    have hthen := Batch.isFresh_settle hbatch tablebase world
    rw [hsettle] at hthen
    exact hthen
  have hsamples := Batch.groupSamples_expandGroup hfresh network.format side
  rw [hnetwork]
  refine ⟨hsamples, ?_, ?_⟩
  · intro i j game child hi hawaits hj hopen
    exact Batch.getElem?_encodings hfresh network.format hi hawaits hj hopen
  by_cases hnone : settled.encodings network.format side = []
  · have hidle (other : Network ω) (elsewhere : ω) (hformat : other.format = network.format) :
        settled.playGroup other side elsewhere =
          (none, (settled.expandGroup side).advance network.format side [], elsewhere) := by
      unfold Batch.playGroup
      simp only [hformat]
      rw [hsamples]
      exact if_pos (List.isEmpty_iff.mpr hnone)
    have hbest := Batch.goesToBest_advance hfresh network.format side (List.forall_mem_nil _)
    refine ⟨_, world', hidle network world' rfl,
      hbest.congr_of_nil (List.map_eq_nil_iff.mp hnone) values, ?_, fun _ => hidle⟩
    intro hsome
    exact absurd hnone hsome
  · obtain ⟨after, hplay, hgames⟩ := Batch.playGroup_of_ok hsamples hnone (hcomputed hnone)
    have hbest := Batch.goesToBest_advance hfresh network.format side hnumbers
    refine ⟨after, _, hplay, hbest.congr_of_games hgames, fun _ => rfl, ?_⟩
    intro hnone'
    exact absurd hnone' hnone

open TicTacToe in
/-- White's winning move is chosen among five, of which the network values the other four. -/
theorem winning_group_goesToBest :
    ∃ (settled after : Batch Position Square) (values : List Binary32),
      winningBatch.settle (none : Option (Tablebase Unit Position)) () = (settled, ()) ∧
      settled.playGroup (heuristicNetwork Unit) .white () = (none, after, ()) ∧
      values.length = 4 ∧ settled.GoesToBest .white values after ∧
      after.gameMoves? 0 = some [⟨2, 0⟩] := by
  let settled : Batch Position Square := (winningBatch.settle none ()).1
  let values := (settled.encodings .classical .white).map heuristicValue
  have hnumbers : ∀ value ∈ values, value.isNaN = false := by decide +kernel
  have hcomputed : settled.encodings (heuristicNetwork Unit).format .white ≠ [] →
      ((heuristicNetwork Unit).evaluate
        (settled.encodings (heuristicNetwork Unit).format .white) ()).outcome = .ok values :=
    fun _ => rfl
  have hnetwork : (linePlayers.map (·.network)).get .white = heuristicNetwork Unit := rfl
  have hsettle : winningBatch.settle (none : Option (Tablebase Unit Position)) () = (settled, ()) :=
    rfl
  have hleads : winningBatch.Leads (linePlayers.map (·.network)) none winningBatch := .refl
  obtain ⟨-, -, after, last, hplay, hbest, -, -⟩ := group_goesToBest ofOpenings_winningOpenings
    hleads hsettle hnetwork hcomputed hnumbers
  have hmoves : (settled.playGroup (heuristicNetwork Unit) .white ()).2.1.gameMoves? 0 =
      some [⟨2, 0⟩] := by decide +kernel
  rw [hnetwork] at hplay
  rw [hplay] at hmoves
  exact ⟨settled, after, values, hsettle, hplay, by decide +kernel, hbest, hmoves⟩

end SelfPlay.Lookahead
