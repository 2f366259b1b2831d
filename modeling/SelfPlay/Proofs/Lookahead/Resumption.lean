import SelfPlay.Proofs.Lookahead.Start
import SelfPlay.Proofs.Lookahead.Turn
import SelfPlay.Proofs.Repetition

/-!
# A failed network batch is atomic and retryable

When the network fails, the games of the group have their edges made already, and nothing else has
happened to them since they were settled (`retryable_of_groupFails`). Making the edges again leaves
them alone, and so does settling a game again when the tablebase gives a position one answer. So the
batch that is left makes the round that failed (`Looked`), and play goes on as if nothing had
happened, provided that the values depend on the samples alone.

No batch is assumed to come from openings: all this holds of any edges that the trees may have.
-/

namespace SelfPlay

open SelfPlay.Numeric

variable {ω P M : Type} [Board P M]

/-- Whenever the network answers, it values each sample by `value` alone. It may fail, and it may ask
to stop. -/
def Network.AnswersBy (network : Network ω) (value : List Plane → Binary32) : Prop :=
  ∀ batch world values, (network.evaluate batch world).outcome = .ok values →
    ∀ (k : Nat) (planes : List Plane), batch[k]? = some planes → valueOf values k = value planes

/-- Edges are not made twice. -/
theorem Node.expand_expand (node : Node M) (moves : List M) :
    (node.expand moves).expand moves = node.expand moves := by
  unfold expand
  by_cases hnone : node.edges.isEmpty = true
  · rw [if_pos hnone, edges_ofEdges, ite_self]
  · rw [if_neg hnone, if_neg hnone]

namespace Lookahead

/-- Networks answer and a tablebase probes by the samples and positions alone. -/
structure Judgement.Answers (judgement : Judgement ω P) : Prop where
  values : ∀ side, (judgement.networks.get side).AnswersBy (judgement.value.get side)
  fixed : ∀ tb ∈ judgement.tablebase, tb.IsFixed judgement.answer

namespace BatchGame

theorem expand_expand (game : BatchGame P M) : game.expand.expand = game.expand := by
  unfold expand GameTree.expand
  simp only [Node.expand_expand]

theorem rest_expand (judgement : Judgement ω P) (game : BatchGame P M) :
    game.expand.rest judgement = (game.rest judgement).expand := by
  have hresult : game.expand.result = game.result := rfl
  unfold rest settled
  rw [hresult]
  split <;> rfl

/-- The game with its edges made if it is its turn. -/
def expandFor (side : Color) (game : BatchGame P M) : BatchGame P M :=
  if game.awaits side then game.expand else game

theorem record_expandFor (side : Color) (game : BatchGame P M) :
    (game.expandFor side).record = game.record := by
  unfold expandFor
  split <;> rfl

theorem result_expandFor (side : Color) (game : BatchGame P M) :
    (game.expandFor side).result = game.result := by
  unfold expandFor
  split <;> rfl

theorem awaits_expandFor (side other : Color) (game : BatchGame P M) :
    (game.expandFor side).awaits other = game.awaits other := by
  unfold awaits
  rw [result_expandFor, record_expandFor]

theorem expandFor_expandFor (side : Color) (game : BatchGame P M) :
    (game.expandFor side).expandFor side = game.expandFor side := by
  rw [expandFor, awaits_expandFor]
  split
  · rename_i hawaits
    rw [expandFor, if_pos hawaits, expand_expand]
  · rfl

theorem rest_expandFor (judgement : Judgement ω P) (side : Color) (game : BatchGame P M) :
    ((game.rest judgement).expandFor side).rest judgement =
      (game.rest judgement).expandFor side := by
  unfold expandFor
  split
  · rw [rest_expand, rest_rest]
  · rw [rest_rest]

variable [BoardMove M] [DecidableEq M]

theorem moved_expandFor (format : InputFormat) (value : List Plane → Binary32) {side : Color}
    {game : BatchGame P M} (h : game.awaits side = true) :
    (game.expandFor side).moved format value = game.moved format value := by
  rw [expandFor, if_pos h]
  unfold moved
  rw [expand_expand]

end BatchGame

namespace Batch

theorem games_expandGroup (batch : Batch P M) (side : Color) :
    (batch.expandGroup side).games = batch.games.map (BatchGame.expandFor side) := rfl

theorem expandGroup_expandGroup (batch : Batch P M) (side : Color) :
    (batch.expandGroup side).expandGroup side = batch.expandGroup side := by
  have hgames : ((batch.expandGroup side).expandGroup side).games =
      (batch.expandGroup side).games := by
    rw [games_expandGroup, games_expandGroup, List.map_map]
    exact List.map_congr_left fun game _ => BatchGame.expandFor_expandFor side game
  exact congrArg (fun games => { batch with games := games }) hgames

theorem firstUndecided?_expandGroup (batch : Batch P M) (side : Color) :
    (batch.expandGroup side).firstUndecided? =
      batch.firstUndecided?.map (BatchGame.expandFor side) := by
  unfold firstUndecided?
  rw [games_expandGroup, List.find?_map]
  congr 2
  funext game
  rw [Function.comp_apply, BatchGame.result_expandFor]

theorem rest_expandGroup (judgement : Judgement ω P) (batch : Batch P M) (side : Color) :
    ((batch.rest judgement).expandGroup side).rest judgement =
      (batch.rest judgement).expandGroup side := by
  have hgames : (((batch.rest judgement).expandGroup side).rest judgement).games =
      ((batch.rest judgement).expandGroup side).games := by
    unfold rest
    rw [games_expandGroup, List.map_map, List.map_map, List.map_map]
    exact List.map_congr_left fun game _ => BatchGame.rest_expandFor judgement side game
  exact congrArg (fun games => { batch with games := games }) hgames

variable [BoardMove M]

/-- All that is seen of the games of a batch is as it was. -/
structure Unmoved (batch after : Batch P M) : Prop where
  results : after.results = batch.results
  records : after.games.map (·.record) = batch.games.map (·.record)
  gameMoves : ∀ i, after.gameMoves? i = batch.gameMoves? i
  headFen : ∀ i, after.headFen? i = batch.headFen? i
  pliesPlayed : after.pliesPlayed = batch.pliesPlayed

/-- Moves and positions are read off the records. -/
theorem unmoved_of_records {batch after : Batch P M} (hresults : after.results = batch.results)
    (hrecords : after.games.map (·.record) = batch.games.map (·.record))
    (hchess960 : after.chess960 = batch.chess960) (hplies : after.pliesPlayed = batch.pliesPlayed) :
    batch.Unmoved after := by
  have hread {α : Type} (read : GameRecord P M → α) (i : Nat) :
      after.games[i]?.map (fun game => read game.record) =
        batch.games[i]?.map fun game => read game.record := by
    have hrecord := congrArg (fun records => records[i]?.map read) hrecords
    simp only [List.getElem?_map, Option.map_map] at hrecord
    exact hrecord
  refine ⟨hresults, hrecords, fun i => ?_, hread fun record => Board.toFen record.head, hplies⟩
  unfold gameMoves?
  rw [hchess960]
  exact hread (fun record => record.moves batch.chess960) i

theorem unmoved_expandGroup (batch : Batch P M) (side : Color) :
    batch.Unmoved (batch.expandGroup side) := by
  have hgame {α : Type} {read : BatchGame P M → α}
      (hread : ∀ game, read (game.expandFor side) = read game) :
      (batch.expandGroup side).games.map read = batch.games.map read := by
    rw [games_expandGroup, List.map_map]
    exact List.map_congr_left fun game _ => hread game
  exact unmoved_of_records (hgame (BatchGame.result_expandFor side))
    (hgame (BatchGame.record_expandFor side)) rfl rfl

variable [DecidableEq M]

/-- The moves of a group are the same when its edges have been made before. -/
theorem moved_expandGroup (format : InputFormat) (value : List Plane → Binary32) (side : Color)
    (batch : Batch P M) :
    (batch.expandGroup side).moved format value side = batch.moved format value side := by
  unfold moved
  rw [expandGroup_expandGroup, games_expandGroup, List.map_map]
  have hgames : ∀ game ∈ batch.games, ((fun game : BatchGame P M =>
      if game.awaits side then game.moved format value else game) ∘ BatchGame.expandFor side) game =
        if game.awaits side then game.moved format value else game := by
    intro game _
    rw [Function.comp_apply, BatchGame.awaits_expandFor]
    split
    · rename_i hawaits
      exact BatchGame.moved_expandFor format value hawaits
    · rename_i hwaits
      exact if_neg hwaits
  rw [List.map_congr_left hgames]
  rfl

variable {judgement : Judgement ω P}

/-- What a failed round leaves behind, as far as the next one can tell. -/
inductive Looked (judgement : Judgement ω P) (batch : Batch P M) : Batch P M → Prop
  | untouched : Looked judgement batch batch
  | expanded {first : BatchGame P M} : (batch.rest judgement).firstUndecided? = some first →
      Looked judgement batch ((batch.rest judgement).expandGroup first.record.sideToMove)

/-- A round that is not disturbed: all games are decided, or those of one side make their moves. -/
inductive Turned (judgement : Judgement ω P) (batch : Batch P M) :
    Option PlayEnd → Batch P M → Prop
  | decided : (batch.rest judgement).firstUndecided? = none →
      Turned judgement batch (some .finished) (batch.rest judgement)
  | moved {first : BatchGame P M} : (batch.rest judgement).firstUndecided? = some first →
      Turned judgement batch none (batch.turned judgement first.record.sideToMove)

theorem turned_unique {batch next next' : Batch P M} {ending ending' : Option PlayEnd}
    (h : batch.Turned judgement ending next) (h' : batch.Turned judgement ending' next') :
    ending' = ending ∧ next' = next := by
  cases h with
  | decided hnone =>
    cases h' with
    | decided => exact ⟨rfl, rfl⟩
    | moved hfirst =>
      rw [hnone] at hfirst
      cases hfirst
  | moved hfirst =>
    cases h' with
    | decided hnone =>
      rw [hnone] at hfirst
      cases hfirst
    | moved hfirst' =>
      rw [hfirst] at hfirst'
      cases hfirst'
      exact ⟨rfl, rfl⟩

/-- Edges that have been made already make no difference. -/
theorem turned_of_looked {batch other next : Batch P M} {ending : Option PlayEnd}
    (hlooked : batch.Looked judgement other) (h : other.Turned judgement ending next) :
    batch.Turned judgement ending next := by
  cases hlooked with
  | untouched => exact h
  | @expanded first hfirst =>
    -- settling the games again changes nothing, so the same side is to move
    have hrest := rest_expandGroup judgement batch first.record.sideToMove
    have hstill : (((batch.rest judgement).expandGroup first.record.sideToMove).rest
        judgement).firstUndecided? = some (first.expandFor first.record.sideToMove) := by
      rw [hrest, firstUndecided?_expandGroup, hfirst, Option.map_some]
    cases h with
    | decided hnone =>
      rw [hstill] at hnone
      cases hnone
    | moved hfirst' =>
      rw [hstill] at hfirst'
      cases hfirst'
      rw [BatchGame.record_expandFor, turned, hrest, moved_expandGroup]
      exact .moved hfirst

/-- A group step fails, or somebody asks to stop meanwhile, or the games of the group move by the
values of their own positions. -/
theorem playGroup_of_answersBy {network : Network ω} {value : List Plane → Binary32}
    (h : network.AnswersBy value) {side : Color} {batch next : Batch P M} {world last : ω}
    {ending : Option PlayEnd}
    (hgroup : batch.playGroup network side world = (ending, next, last)) :
    Disturbed (fun batch : Batch P M => batch.aborted = true) ending next ∨
      ending = none ∧ next = batch.moved network.format value side := by
  unfold playGroup at hgroup
  generalize hsamples : (batch.expandGroup side).groupSamples network.format side = samples
  simp only [hsamples] at hgroup
  split at hgroup
  · rename_i hempty
    cases hgroup
    refine .inr ⟨rfl, advance_expandGroup ?_⟩
    intro k planes hk
    rw [hsamples, List.isEmpty_iff.mp hempty] at hk
    simp at hk
  · split at hgroup
    · cases hgroup
      exact .inl (.inl ⟨_, rfl⟩)
    · rename_i values houtcome
      cases hgroup
      by_cases hstop : (network.evaluate samples world).stopRequested = true
      · rw [if_pos hstop]
        exact .inl (.inr rfl)
      · rw [if_neg hstop]
        refine .inr ⟨rfl, advance_expandGroup ?_⟩
        intro k planes hk
        rw [hsamples] at hk
        exact h samples world values houtcome k planes hk

theorem turned_of_round (h : judgement.Answers) {batch next : Batch P M} {world last : ω}
    {ending : Option PlayEnd}
    (hround : batch.round judgement.networks judgement.tablebase world = (ending, next, last))
    (hquiet : ¬Disturbed (fun batch : Batch P M => batch.aborted = true) ending next) :
    batch.Turned judgement ending next := by
  have hsettle : (batch.settle judgement.tablebase world).1 = batch.rest judgement :=
    settle_of_isFixed h.fixed batch world
  unfold round at hround
  split at hround
  · rename_i haborted
    cases hround
    exact absurd (.inr haborted) hquiet
  · simp only [hsettle] at hround
    split at hround
    · rename_i hnone
      cases hround
      exact .decided hnone
    · rename_i first hfirst
      rcases playGroup_of_answersBy (h.values _) hround with hdisturbed | ⟨rfl, rfl⟩
      · exact absurd hdisturbed hquiet
      · exact .moved hfirst

theorem round_of_aborted {networks : PerSide (Network ω)} {tablebase : Option (Tablebase ω P)}
    {batch : Batch P M} (h : batch.aborted = true) (world : ω) :
    batch.round networks tablebase world = (some .finished, batch, world) := if_pos h

theorem ne_cutShort_of_round {networks : PerSide (Network ω)} {tablebase : Option (Tablebase ω P)}
    {batch next : Batch P M} {world last : ω} {ending : PlayEnd}
    (hround : batch.round networks tablebase world = (some ending, next, last)) :
    ending ≠ .cutShort := by
  rintro rfl
  unfold round at hround
  split at hround
  · cases hround
  · simp only at hround
    split at hround
    · cases hround
    · unfold playGroup at hround
      simp only at hround
      split at hround
      · cases hround
      · split at hround <;> cases hround

theorem repeats_round (h : judgement.Answers) :
    Repeats (fun (batch : Batch P M) world =>
        batch.round judgement.networks judgement.tablebase world)
      (fun batch => batch.aborted = true) (Looked judgement) where
  refl _ := .untouched
  rests := by
    rintro state next ending ⟨world, last, hround, -⟩
    exact ne_cutShort_of_round hround
  stays := by
    intro state next world last ending haborted hround
    cases (round_of_aborted haborted world).symm.trans hround
    exact haborted
  agrees := by
    rintro state other next next' ending ending' hlooked ⟨world, last, hround, hquiet⟩
      ⟨world', last', hround', hquiet'⟩
    exact turned_unique (turned_of_round h hround hquiet)
      (turned_of_looked hlooked (turned_of_round h hround' hquiet'))

theorem playFor_eq_runFor (networks : PerSide (Network ω)) (tablebase : Option (Tablebase ω P))
    (rounds : Nat) (batch : Batch P M) (world : ω) :
    batch.playFor networks tablebase rounds world =
      runFor (fun (batch : Batch P M) world => batch.round networks tablebase world) rounds batch
        world := by
  induction rounds generalizing batch world with
  | zero => rfl
  | succ rounds ih =>
    unfold playFor runFor
    split
    · rename_i hround
      simp only [hround]
    · rename_i hround
      simp only [hround]
      exact ih _ _

/-- In the next group step the network fails. Before it, the games have been `settled`. -/
structure GroupFails (networks : PerSide (Network ω)) (tablebase : Option (Tablebase ω P))
    (batch : Batch P M) (world : ω) (settled : Batch P M) (fault : Fault) : Prop where
  goesOn : batch.aborted = false
  settles : (batch.settle tablebase world).1 = settled
  fails : ∃ first samples, settled.firstUndecided? = some first ∧
    (settled.expandGroup first.record.sideToMove).groupSamples
      (networks.get first.record.sideToMove).format first.record.sideToMove = samples ∧
    samples ≠ [] ∧
    ((networks.get first.record.sideToMove).evaluate samples
      (batch.settle tablebase world).2).outcome = .error fault

/-- A failed group step gives the network's error and moves nothing. -/
theorem unmoved_of_groupFails {networks : PerSide (Network ω)} {tablebase : Option (Tablebase ω P)}
    {batch settled : Batch P M} {world : ω} {fault : Fault}
    (h : batch.GroupFails networks tablebase world settled fault) :
    ∃ after last, batch.round networks tablebase world =
        (some (.failed (.network fault)), after, last) ∧ settled.Unmoved after ∧
      (after.aborted = true ∨ ∃ first, settled.firstUndecided? = some first ∧
        after = settled.expandGroup first.record.sideToMove) := by
  obtain ⟨hgoesOn, hsettles, first, samples, hfirst, hsamples, hsome, hfault⟩ := h
  have hround : batch.round networks tablebase world =
      settled.playGroup (networks.get first.record.sideToMove) first.record.sideToMove
        (batch.settle tablebase world).2 := by
    unfold round
    rw [if_neg (Bool.eq_false_iff.mp hgoesOn)]
    simp only [hsettles, hfirst]
  have hunmoved := unmoved_expandGroup settled first.record.sideToMove
  unfold playGroup at hround
  simp only [hsamples, List.isEmpty_iff, if_neg hsome, hfault] at hround
  refine ⟨_, _, hround, ?_⟩
  split
  · exact ⟨unmoved_of_records hunmoved.results hunmoved.records rfl hunmoved.pliesPlayed, .inl rfl⟩
  · exact ⟨hunmoved, .inr ⟨first, hfirst, rfl⟩⟩

end Batch

variable [BoardMove M] [DecidableEq M]

open Batch in
/-- **A failed network batch is atomic and retryable.** When the network fails during a group step,
play gives the network's error, and all games stand as they stood when the step was begun. If values
depend on the samples and rulings on the positions alone, playing on ends as play would have ended
without the failure, unless the network fails again or somebody asks to stop. -/
theorem failed_batch_retryable {networks : PerSide (Network ω)}
    {tablebase : Option (Tablebase ω P)} {batch begun settled : Batch P M} {world now : ω}
    {before : Nat} (hbefore : batch.playFor networks tablebase before world = (.cutShort, begun, now))
    {fault : Fault} (hfails : begun.GroupFails networks tablebase now settled fault) :
    ∃ after last,
      (∀ rounds, before < rounds → batch.playFor networks tablebase rounds world =
        (.failed (.network fault), after, last)) ∧
      settled.Unmoved after ∧
      ∀ value answer, (∀ side, (networks.get side).AnswersBy (PerSide.get value side)) →
        (∀ tb ∈ tablebase, tb.IsFixed answer) →
        ∀ rounds world' final last', batch.playFor networks tablebase rounds world' =
          (.finished, final, last') → final.aborted = false →
        ∀ again, rounds ≤ again → ∀ world'',
          (∃ last'', after.playFor networks tablebase again world'' = (.finished, final, last'')) ∨
          ∃ ending stuck last'', after.playFor networks tablebase again world'' =
            (ending, stuck, last'') ∧
            ((∃ error, ending = .failed error) ∨ stuck.aborted = true) := by
  obtain ⟨after, last, hround, hunmoved, hafter⟩ := unmoved_of_groupFails hfails
  refine ⟨after, last, ?_, hunmoved, ?_⟩
  · intro rounds hlt
    obtain ⟨more, rfl⟩ : ∃ more, rounds = before + (more + 1) := ⟨rounds - before - 1, by omega⟩
    rw [playFor_eq_runFor] at hbefore ⊢
    obtain ⟨-, hadd⟩ := runFor_of_cutShort (fun _ => True) ne_cutShort_of_round
      (fun _ _ => trivial) hbefore trivial
    rw [hadd, runFor_of_round_eq_some more hround]
  · intro value answer hvalues hfixed rounds world' final last' hplay hgoesOn again hle world''
    let judgement : Judgement ω P := ⟨networks, value, tablebase, answer⟩
    have hanswers : judgement.Answers := ⟨hvalues, hfixed⟩
    have hrepeats := repeats_round (P := P) (M := M) hanswers
    obtain ⟨ending, stuck, last'', hagain⟩ : ∃ ending stuck last'',
      after.playFor networks tablebase again world'' = (ending, stuck, last'') := ⟨_, _, _, rfl⟩
    rw [hagain]
    rw [playFor_eq_runFor] at hbefore hplay hagain
    rcases hafter with haborted | ⟨first, hfirst, rfl⟩
    · exact .inr ⟨ending, stuck, last'', rfl, .inr (hrepeats.stopped_of_runFor haborted hagain)⟩
    · have hsettled : settled = begun.rest judgement := by
        rw [← hfails.settles]
        exact settle_of_isFixed hfixed begun now
      have hbegun : ¬begun.aborted = true := Bool.eq_false_iff.mp hfails.goesOn
      have hfinal : ¬final.aborted = true := Bool.eq_false_iff.mp hgoesOn
      have hlooked : begun.Looked judgement (settled.expandGroup first.record.sideToMove) := by
        rw [hsettled] at hfirst ⊢
        exact .expanded hfirst
      rcases hrepeats.resumes hbefore hbegun hplay hfinal hlooked hle hagain with
        ⟨rfl, rfl⟩ | ⟨error, hfailed⟩ | hstopped
      · exact .inl ⟨last'', rfl⟩
      · exact .inr ⟨ending, stuck, last'', rfl, .inl ⟨error, Option.some.inj hfailed⟩⟩
      · exact .inr ⟨ending, stuck, last'', rfl, .inr hstopped⟩

open TicTacToe

/-- A network that counts open lines, in a world that counts down to a batch that fails. -/
def flakyNetwork : Network Nat where
  format := .classical
  evaluate batch left :=
    ⟨if left = 1 then .error (.ofMessage "no memory") else .ok (batch.map heuristicValue), false,
      left - 1⟩

theorem flakyNetwork_answersBy : flakyNetwork.AnswersBy heuristicValue := by
  intro batch left values houtcome k planes hk
  have hanswer : (flakyNetwork.evaluate batch left).outcome =
      if left = 1 then .error (.ofMessage "no memory") else .ok (batch.map heuristicValue) := rfl
  rw [hanswer] at houtcome
  by_cases hleft : left = 1
  · rw [if_pos hleft] at houtcome
    cases houtcome
  · rw [if_neg hleft] at houtcome
    obtain rfl := Except.ok.inj houtcome
    rw [valueOf, List.getD_eq_getElem?_getD, List.getElem?_map, hk, Option.map_some,
      Option.getD_some]

theorem groupFails_winningBatch :
    winningBatch.GroupFails ⟨flakyNetwork, flakyNetwork⟩ (some (perfectTablebase Nat 4)) 1
      (winningBatch.settle (some (perfectTablebase Nat 4)) 1).1 (.ofMessage "no memory") := by
  have hside : (winningBatch.settle (some (perfectTablebase Nat 4)) 1).1.firstUndecided?.map
      (·.record.sideToMove) = some .black := by decide +kernel
  have hworld : (winningBatch.settle (some (perfectTablebase Nat 4)) 1).2 = 1 := by decide +kernel
  have hsome : (((winningBatch.settle (some (perfectTablebase Nat 4)) 1).1.expandGroup
      .black).groupSamples .classical .black).isEmpty = false := by decide +kernel
  obtain ⟨first, hfirst, hblack⟩ := Option.map_eq_some_iff.mp hside
  refine ⟨rfl, rfl, first, _, hfirst, rfl, ?_, ?_⟩
  · rw [hblack]
    exact List.isEmpty_eq_false_iff.mp hsome
  · rw [hworld, hblack]
    rfl

/-- The tablebase decides one game, and the network fails in the other. Taken up again, black wins
that one as it would have. -/
theorem flaky_batch_retryable :
    ∃ settled after final : Batch Position Square,
      winningBatch.GroupFails ⟨flakyNetwork, flakyNetwork⟩ (some (perfectTablebase Nat 4)) 1 settled
        (.ofMessage "no memory") ∧
      winningBatch.playFor ⟨flakyNetwork, flakyNetwork⟩ (some (perfectTablebase Nat 4)) 2 1 =
        (.failed (.network (.ofMessage "no memory")), after, 0) ∧
      after.results = [.won .white, .undecided] ∧
      winningBatch.playFor ⟨flakyNetwork, flakyNetwork⟩ (some (perfectTablebase Nat 4)) 2 0 =
        (.finished, final, 0) ∧
      final.gameMoves? 1 = some [⟨2, 1⟩] ∧
      ∃ last, after.playFor ⟨flakyNetwork, flakyNetwork⟩ (some (perfectTablebase Nat 4)) 2 0 =
        (.finished, final, last) := by
  have hfixed : ∀ tb ∈ some (perfectTablebase Nat 4 : Tablebase Nat Position),
      tb.IsFixed fun position => (outcomeOf (solve position), .ok) := by
    intro tb htb
    cases htb
    exact perfectTablebase_isFixed Nat 4
  have hvalues : ∀ side, ((⟨flakyNetwork, flakyNetwork⟩ : PerSide (Network Nat)).get side).AnswersBy
      ((⟨heuristicValue, heuristicValue⟩ : PerSide _).get side) := by
    intro side
    cases side <;> exact flakyNetwork_answersBy
  have hfail : (winningBatch.playFor ⟨flakyNetwork, flakyNetwork⟩
        (some (perfectTablebase Nat 4)) 2 1).2.2 = 0 ∧
      (winningBatch.playFor ⟨flakyNetwork, flakyNetwork⟩
        (some (perfectTablebase Nat 4)) 2 1).2.1.results = [.won .white, .undecided] ∧
      ((winningBatch.playFor ⟨flakyNetwork, flakyNetwork⟩ (some (perfectTablebase Nat 4))
        2 1).2.1.playFor ⟨flakyNetwork, flakyNetwork⟩ (some (perfectTablebase Nat 4)) 2 0).1 =
          .finished ∧
      ((winningBatch.playFor ⟨flakyNetwork, flakyNetwork⟩ (some (perfectTablebase Nat 4)) 2
        1).2.1.playFor ⟨flakyNetwork, flakyNetwork⟩ (some (perfectTablebase Nat 4)) 2
          0).2.1.aborted = false := by decide +kernel
  have hwhole : (winningBatch.playFor ⟨flakyNetwork, flakyNetwork⟩
        (some (perfectTablebase Nat 4)) 2 0).1 = .finished ∧
      (winningBatch.playFor ⟨flakyNetwork, flakyNetwork⟩
        (some (perfectTablebase Nat 4)) 2 0).2.2 = 0 ∧
      (winningBatch.playFor ⟨flakyNetwork, flakyNetwork⟩
        (some (perfectTablebase Nat 4)) 2 0).2.1.aborted = false ∧
      (winningBatch.playFor ⟨flakyNetwork, flakyNetwork⟩
        (some (perfectTablebase Nat 4)) 2 0).2.1.gameMoves? 1 = some [⟨2, 1⟩] := by decide +kernel
  have hbefore : winningBatch.playFor ⟨flakyNetwork, flakyNetwork⟩ (some (perfectTablebase Nat 4))
      0 1 = (.cutShort, winningBatch, 1) := rfl
  obtain ⟨after, last, hfailed, -, hresumes⟩ :=
    failed_batch_retryable hbefore groupFails_winningBatch
  have htwo := hfailed 2 (by decide)
  generalize hplay : winningBatch.playFor ⟨flakyNetwork, flakyNetwork⟩
    (some (perfectTablebase Nat 4)) 2 0 = whole at hwhole
  obtain ⟨ending, final, left⟩ := whole
  obtain ⟨rfl, rfl, hgoesOn, hwon⟩ := hwhole
  rw [htwo] at hfail
  obtain ⟨rfl, hresults, hfinished, hunasked⟩ := hfail
  refine ⟨_, after, final, groupFails_winningBatch, htwo, hresults, rfl, hwon, ?_⟩
  rcases hresumes _ _ hvalues hfixed 2 0 final 0 hplay hgoesOn 2 (Nat.le_refl 2) 0 with
    hsame | ⟨ending, stuck, last, hstuck, ⟨error, rfl⟩ | hstopped⟩
  · exact hsame
  · rw [hstuck] at hfinished
    cases hfinished
  · rw [hstuck, hstopped] at hunasked
    cases hunasked

end Lookahead

end SelfPlay
