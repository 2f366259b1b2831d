import SelfPlay.Proofs.Lookahead.BestChild
import SelfPlay.Proofs.Lookahead.Computations
import SelfPlay.Proofs.Lookahead.Replay
import SelfPlay.Proofs.TicTacToe.Heuristic
import SelfPlay.Proofs.TicTacToe.Lines
import SelfPlay.Proofs.TicTacToe.Text

/-!
# No immediate win is passed up

The last of equally good children is chosen, so a child that is open and valued at minus one by the
network would be preferred to a win that comes before it. A network whose values are numbers above
minus one has no such child. The one that counts open lines values some planes at minus one, but none
that a game shows it, since the sides take turns in a game.
-/

namespace SelfPlay

open SelfPlay.Numeric

/-- None of the network's values is minus one or less, and each is a number. -/
def Network.IsAboveMinusOne {ω : Type} (network : Network ω) : Prop :=
  ∀ samples world values, (network.evaluate samples world).outcome = .ok values →
    ∀ value ∈ values, value.IsAboveMinusOne

namespace Lookahead

section Board

variable {ω P M : Type} [Board P M]

namespace BatchGame

theorem valueOf_isAboveMinusOne {values : List Binary32}
    (h : ∀ value ∈ values, value.IsAboveMinusOne) (number : Nat) :
    (valueOf values number).IsAboveMinusOne := by
  unfold valueOf
  rw [List.getD_eq_getElem?_getD]
  cases hvalue : values[number]? with
  | none =>
    show (0 : Binary32).IsAboveMinusOne
    unfold Binary32.IsAboveMinusOne
    decide +kernel
  | some value => exact h value (List.mem_of_getElem? hvalue)

/-- A child that is won is passed over for another one that is won, if at all. -/
theorem GoesToBest.won {values : List Binary32} {first j : Nat} {game after : BatchGame P M}
    {move : M} {value : Binary32} (h : game.GoesToBest values first after j move value)
    (hvalues : ∀ value ∈ values, value.IsAboveMinusOne) {child : History P} {winner : Color}
    (hchild : child ∈ game.children) (hwon : child.result = .won winner) :
    ∃ side, (game.record.history.append move).result = .won side := by
  obtain ⟨k, hk⟩ := List.mem_iff_getElem?.mp hchild
  have hone : game.childValue? values first k = some 1 := by
    rw [childValue?, hk, Option.map_some, hwon]
  have hle := h.greatest k 1 hone
  have hmove : game.children[j]? = some (game.record.history.append move) := by
    rw [children, List.getElem?_map, h.legal, Option.map_some]
  have hvalue := h.value_eq
  rw [childValue?, hmove, Option.map_some, Option.some_inj] at hvalue
  cases hresult : (game.record.history.append move).result with
  | won side => exact ⟨side, rfl⟩
  | draw =>
    rw [hresult] at hvalue
    have hzero : (1 : Binary32).le 0 = false := by decide +kernel
    rw [← hvalue, hzero] at hle
    cases hle
  | undecided =>
    rw [hresult] at hvalue
    have hnegated : -valueOf values (first + game.openBefore j) = value := hvalue
    have hless := (valueOf_isAboveMinusOne hvalues (first + game.openBefore j)).neg_lt_one
    rw [hnegated] at hless
    exact absurd hless (Binary32.not_lt_of_le hle)

end BatchGame

namespace Batch

open BatchGame

variable {networks : PerSide (Network ω)} {tablebase : Option (Tablebase ω P)}
  {batch : Batch P M} {world : ω}

variable [BoardMove M] [DecidableEq M]

/-- A group step fails, or is made by the values that the network gave or by none. -/
theorem Grouped.values_cases {network : Network ω} {side : Color} {ending : Option PlayEnd}
    {next : Batch P M} {marks : List Bool} (h : batch.Grouped network side ending next marks) :
    next.games = (batch.expandGroup side).games ∨ ∃ values, (values = [] ∨ ∃ now,
        (network.evaluate ((batch.expandGroup side).groupSamples network.format side)
          now).outcome = .ok values) ∧
      next.games = ((batch.expandGroup side).advance network.format side values).games := by
  cases h with
  | silent => exact .inr ⟨[], .inl rfl, rfl⟩
  | @failed _ stop => exact .inl (by cases stop <;> rfl)
  | @valued values now stop _ houtcome =>
    exact .inr ⟨values, .inr ⟨now, houtcome⟩, by cases stop <;> rfl⟩

/-- A group step that moves a game takes it to its best child, by the values of the group. -/
theorem Grouped.goesToBest_of_moved [LawfulMove M] {network : Network ω} {side : Color}
    {ending : Option PlayEnd} {next : Batch P M} {marks : List Bool} (hfresh : batch.IsFresh)
    (h : batch.Grouped network side ending next marks)
    (hvalues : ∀ now values,
      (network.evaluate (batch.encodings network.format side) now).outcome = .ok values →
      ∀ value ∈ values, value.IsAboveMinusOne)
    {i : Nat} {game after : BatchGame P M} (hi : batch.games[i]? = some game)
    (hafter : next.games[i]? = some after) (hmoved : after.record ≠ game.record) :
    game.result = .undecided ∧ ∃ values first j move value,
      (∀ value ∈ values, value.IsAboveMinusOne) ∧
        game.GoesToBest values first after j move value := by
  rcases h.values_cases with hgames | ⟨values, hasked, hgames⟩
  · rw [hgames, getElem?_expandGroup, hi, Option.map_some, Option.some_inj] at hafter
    refine absurd ?_ hmoved
    rw [← hafter]
    split <;> rfl
  · have habove : ∀ value ∈ values, value.IsAboveMinusOne := by
      rcases hasked with rfl | ⟨now, houtcome⟩
      · exact List.forall_mem_nil _
      · rw [groupSamples_expandGroup hfresh] at houtcome
        exact hvalues now values houtcome
    have hbest := goesToBest_advance hfresh network.format side fun value hmem =>
      (habove value hmem).1
    rw [hgames] at hafter
    by_cases hawaits : game.awaits side = true
    · refine ⟨(awaits_iff.mp hawaits).1, ?_⟩
      by_cases hmoves : Board.legalMoves game.record.head = []
      · rw [hbest.stuck i game hi hawaits hmoves, Option.some_inj] at hafter
        exact absurd (congrArg BatchGame.record hafter).symm hmoved
      · obtain ⟨next, j, move, value, hnext, hgoes⟩ := hbest.best i game hi hawaits hmoves
        rw [hafter, Option.some_inj] at hnext
        exact ⟨values, _, j, move, value, habove, hnext ▸ hgoes⟩
    · rw [hbest.others i game hi (Bool.eq_false_iff.mpr hawaits), Option.some_inj] at hafter
      exact absurd (congrArg BatchGame.record hafter).symm hmoved

/-- **A move that a round makes in a game is one to the game's best child**, by numbers above minus one
if the networks give no others for the open children of the round. -/
theorem goesToBest_of_moved [LawfulMove M] (hfresh : batch.IsFresh)
    (hvalues : ∀ side now values,
      ((networks.get side).evaluate ((batch.settle tablebase world).1.encodings
        (networks.get side).format side) now).outcome = .ok values →
      ∀ value ∈ values, value.IsAboveMinusOne)
    {i : Nat} {game after : BatchGame P M} (hi : batch.games[i]? = some game)
    (hafter : (batch.round networks tablebase world).2.1.games[i]? = some after)
    (hmoved : after.record ≠ game.record) :
    ∃ values first j move value, (∀ value ∈ values, value.IsAboveMinusOne) ∧
      game.GoesToBest values first after j move value := by
  obtain ⟨now, hsettle⟩ := getElem?_settleAll tablebase batch.games world hi
  have hsettled : (batch.settle tablebase world).1.games[i]? =
      some (game.settle tablebase now).1 := hsettle
  have hrecord : (game.settle tablebase now).1.record = game.record :=
    congrArg GameTree.record (tree_settle tablebase game now)
  obtain ⟨ending, next, last, hround⟩ : ∃ ending next last,
    batch.round networks tablebase world = (ending, next, last) := ⟨_, _, _, rfl⟩
  obtain ⟨marks, hprogress, -⟩ := round_watched networks tablebase batch world hround
  rw [hround] at hafter
  cases hprogress with
  | stopped =>
    rw [hi, Option.some_inj] at hafter
    exact absurd (congrArg BatchGame.record hafter).symm hmoved
  | decided =>
    rw [hsettled, Option.some_inj] at hafter
    rw [← hafter] at hmoved
    exact absurd hrecord hmoved
  | grouped _ _ hgrouped =>
    rw [← hrecord] at hmoved
    obtain ⟨hopen, hbest⟩ := hgrouped.goesToBest_of_moved (isFresh_settle hfresh tablebase world)
      (hvalues _) hsettled hafter hmoved
    -- settling has left an open game as it was
    have hsame := getElem?_of_settle hsettled hopen
    rw [hi, Option.some_inj] at hsame
    rwa [← hsame] at hbest

end Batch

end Board

/-! ## Tic-tac-toe -/

section TicTacToe

open SelfPlay.TicTacToe

variable {ω : Type} {networks : PerSide (Network ω)} {tablebase : Option (Tablebase ω Position)}
  {players : PerSide (Player ω Square)} {openings : List (Opening Square)}
  {start batch : Batch Position Square}

theorem isRegular_of_leads (hstart : Batch.ofOpenings players openings = .ok start)
    (hleads : start.Leads networks tablebase batch) {game : BatchGame Position Square}
    (hmem : game ∈ batch.games) : game.record.head.IsRegular := by
  obtain ⟨i, hi⟩ := List.mem_iff_getElem?.mp hmem
  exact Batch.keeps_record_of_leads (Q := fun record => record.head.IsRegular)
    (fun hread => Position.isRegular_of_ofFen hread)
    (fun hregular hmove => hregular.play hmove) hstart hleads hi

/-- What counting open lines makes of the open children of games in which the sides take turns. -/
theorem heuristicNetwork_above (hregular : ∀ game ∈ batch.games, game.record.head.IsRegular)
    (side : Color) (now : ω) {values : List Binary32}
    (houtcome : ((heuristicNetwork ω).evaluate (batch.encodings .classical side) now).outcome =
      .ok values) : ∀ value ∈ values, value.IsAboveMinusOne := by
  have hmap : (batch.encodings .classical side).map heuristicValue = values :=
    Except.ok.inj houtcome
  intro value hvalue
  rw [← hmap, Batch.encodings, List.map_map] at hvalue
  obtain ⟨child, hchild, rfl⟩ := List.mem_map.mp hvalue
  obtain ⟨game, hgame, hopen⟩ := List.mem_flatMap.mp hchild
  obtain ⟨move, hmove, rfl⟩ := List.mem_map.mp (List.mem_filter.mp hopen).1
  have hplayed := (hregular game (List.mem_filter.mp hgame).1).play hmove
  have hshown : Batch.encodeOpen .classical (game.record.history.append move) =
    (encode (game.record.head.play move :: game.record.history.positions) .classical historyPlanes
      .fenOnly).planes := rfl
  rw [Function.comp_apply, hshown]
  exact heuristicValue_isAboveMinusOne hplayed _ (by decide) _

/-- **No immediate win is passed up.** Let the networks count open lines, or give no value that is minus
one, less, or no number. In whatever state a batch of accepted openings is, with or without a tablebase: a
game that makes a move where some legal move completes a line for the side to move makes such a move. -/
theorem immediate_win_taken (hstart : Batch.ofOpenings players openings = .ok start)
    (hnetworks : ∀ side, networks.get side = heuristicNetwork ω ∨
      (networks.get side).IsAboveMinusOne)
    (hleads : start.Leads networks tablebase batch) {i : Nat}
    {game after : BatchGame Position Square} (hi : batch.games[i]? = some game) {world : ω}
    (hafter : (batch.round networks tablebase world).2.1.games[i]? = some after)
    (hmoved : after.record ≠ game.record)
    (hwin : ∃ move ∈ game.record.head.legalMoves, game.record.head.CompletesLine move) :
    ∃ move ∈ game.record.head.legalMoves, after.record = game.record.playRelative move ∧
      game.record.head.CompletesLine move := by
  have hfresh := Batch.isFresh_of_leads hleads (Batch.isFresh_of_ofOpenings hstart)
  have hregular : ∀ settled ∈ (batch.settle tablebase world).1.games,
      settled.record.head.IsRegular := by
    intro settled hmem
    obtain ⟨j, hj⟩ := List.mem_iff_getElem?.mp hmem
    obtain ⟨before, now, hbefore, rfl⟩ := Batch.exists_settle_of_getElem? hj
    have hrecord : (before.settle tablebase now).1.record = before.record :=
      congrArg GameTree.record (BatchGame.tree_settle tablebase before now)
    rw [hrecord]
    exact isRegular_of_leads hstart hleads (List.mem_of_getElem? hbefore)
  obtain ⟨values, first, j, move, value, habove, hbest⟩ := Batch.goesToBest_of_moved hfresh (by
    intro side now values houtcome
    rcases hnetworks side with hheuristic | hbounded
    · rw [hheuristic] at houtcome
      exact heuristicNetwork_above hregular side now houtcome
    · exact hbounded _ now values houtcome) hi hafter hmoved
  obtain ⟨winning, hwinning, hline⟩ := hwin
  have hopen := (Position.mem_legalMoves.mp hwinning).1
  obtain ⟨winner, hwon⟩ := (Position.exists_won_play_iff hopen).mpr hline
  have hchild : game.record.history.append winning ∈ game.children :=
    List.mem_map_of_mem hwinning
  have hchosen : ∃ side, (game.record.head.play move).result = .won side :=
    hbest.won habove hchild hwon
  refine ⟨move, List.mem_of_getElem? hbest.legal, ?_, (Position.exists_won_play_iff hopen).mp hchosen⟩
  rw [hbest.after_eq]
  rfl

/-- White has two stones on the lowest rank, and five moves of which one is the third stone there. -/
theorem winning_batch_takes_win :
    ∃ (game after : BatchGame Position Square) (move : Square),
      winningBatch.games[0]? = some game ∧
      (winningBatch.round (linePlayers.map (·.network)) (none : Option (Tablebase Unit Position))
        ()).2.1.games[0]? = some after ∧
      after.record = game.record.playRelative move ∧ game.record.head.CompletesLine move := by
  have hmoves : (winningBatch.round (linePlayers.map (·.network))
      (none : Option (Tablebase Unit Position)) ()).2.1.games[0]?.map
        (fun game => game.record.moveCount) = some 1 := by decide +kernel
  obtain ⟨after, hafter, hone⟩ := Option.map_eq_some_iff.mp hmoves
  let game : BatchGame Position Square := ⟨⟨⟨⟨0x003, 0x018, 4⟩, []⟩, .empty⟩, .undecided⟩
  have hgame : winningBatch.games[0]? = some game := rfl
  have hmoved : after.record ≠ game.record := by
    intro hsame
    rw [hsame] at hone
    cases hone
  let networks : PerSide (Network Unit) := linePlayers.map (·.network)
  have hnetworks (side : Color) :
      networks.get side = heuristicNetwork Unit ∨ (networks.get side).IsAboveMinusOne := by
    cases side with
    | white => exact .inl rfl
    | black => exact .inl rfl
  have hline : game.record.head.CompletesLine ⟨2, 0⟩ := by
    unfold Position.CompletesLine
    decide
  have hwin : ∃ move ∈ game.record.head.legalMoves, game.record.head.CompletesLine move :=
    ⟨⟨2, 0⟩, by decide, hline⟩
  obtain ⟨move, -, hplayed, hline⟩ := immediate_win_taken ofOpenings_winningOpenings hnetworks
    .refl hgame hafter hmoved hwin
  exact ⟨game, after, move, hgame, hafter, hplayed, hline⟩

end TicTacToe

end Lookahead

end SelfPlay
