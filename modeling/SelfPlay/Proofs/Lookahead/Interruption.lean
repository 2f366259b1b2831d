import SelfPlay.Proofs.Lookahead.Adjudication
import SelfPlay.Proofs.Lookahead.Computations
import SelfPlay.Proofs.Match.Notation

/-!
# A batch that is asked to stop

A stop that is asked for while a network computes does not keep the games of that group from making
their moves; it keeps everything after that from happening. So a run that was stopped and one that
was not are taken side by side, round by round, and as long as no stop was asked for they are in the
same state and have computed as many network batches.
-/

namespace SelfPlay.Lookahead

open SelfPlay.Numeric

variable {ω P M : Type} [BoardMove M] [DecidableEq M] [Board P M]

/-- Networks that value samples and encode positions as in a judgement. They may also fail or ask to
stop. -/
structure Judgement.Fits (judgement : Judgement ω P) (networks : PerSide (Network ω)) : Prop where
  values : ∀ side, (networks.get side).AnswersBy (judgement.value.get side)
  format : ∀ side, (networks.get side).format = (judgement.networks.get side).format

theorem Judgement.Holds.fits {judgement : Judgement ω P} (h : judgement.Holds) :
    judgement.Fits judgement.networks := by
  refine ⟨fun side => ?_, fun _ => rfl⟩
  intro samples world values houtcome k planes hk
  rw [(h.pointwise side samples world).1] at houtcome
  obtain rfl := Except.ok.inj houtcome
  simp [valueOf, hk]

theorem BatchGame.moves_of_progress {rules : GameRecord P M → GameResult → Prop}
    {game after : BatchGame P M} (h : game.Progress rules after) (chess960 : Bool) :
    ∃ rest, after.record.moves chess960 = game.record.moves chess960 ++ rest := by
  cases h with
  | stay | settle | expand | stuck => exact ⟨[], (List.append_nil _).symm⟩
  | play => exact ⟨_, GameRecord.moves_play _ _ _⟩

namespace Batch

variable {judgement : Judgement ω P} {networks : PerSide (Network ω)} {batch next : Batch P M}
  {world : ω} {ending : Option PlayEnd} {marks : List Bool}

/-- A round that does not fail: all games are decided, or those of one side make their moves. The
marks tell whether a stop was asked for. -/
inductive Marked (judgement : Judgement ω P) (batch : Batch P M) :
    Option PlayEnd → Batch P M → List Bool → Prop
  | decided : (batch.rest judgement).firstUndecided? = none →
      Marked judgement batch (some .finished) (batch.rest judgement) []
  | silent {first : BatchGame P M} : (batch.rest judgement).firstUndecided? = some first →
      ((batch.rest judgement).expandGroup first.record.sideToMove).groupSamples
        (judgement.networks.get first.record.sideToMove).format first.record.sideToMove = [] →
      Marked judgement batch none (batch.turned judgement first.record.sideToMove) []
  | valued {first : BatchGame P M} (stop : Bool) :
      (batch.rest judgement).firstUndecided? = some first →
      ((batch.rest judgement).expandGroup first.record.sideToMove).groupSamples
        (judgement.networks.get first.record.sideToMove).format first.record.sideToMove ≠ [] →
      Marked judgement batch none
        ((batch.turned judgement first.record.sideToMove).abortIf stop) [stop]

theorem marked_of_progress (hfits : judgement.Fits networks)
    (hfixed : ∀ tb ∈ judgement.tablebase, tb.IsFixed judgement.answer)
    (hrun : batch.aborted = false)
    (h : batch.Progress networks judgement.tablebase world ending next marks)
    (hsound : ∀ error, ending ≠ some (.failed error)) :
    batch.Marked judgement ending next marks := by
  have hsettle : (batch.settle judgement.tablebase world).1 = batch.rest judgement :=
    settle_of_isFixed hfixed batch world
  cases h with
  | stopped haborted =>
    rw [hrun] at haborted
    cases haborted
  | decided _ hnone =>
    rw [hsettle] at hnone ⊢
    exact .decided hnone
  | @grouped first _ _ _ _ hfirst hgrouped =>
    rw [hsettle] at hfirst hgrouped
    have hformat := hfits.format first.record.sideToMove
    cases hgrouped with
    | silent hnone =>
      have hmoved : ((batch.rest judgement).expandGroup first.record.sideToMove).advance
          (networks.get first.record.sideToMove).format first.record.sideToMove [] =
            (batch.rest judgement).moved (networks.get first.record.sideToMove).format
              (judgement.value.get first.record.sideToMove) first.record.sideToMove := by
        apply advance_expandGroup
        intro k planes hk
        rw [hnone] at hk
        simp at hk
      rw [hmoved, hformat]
      rw [hformat] at hnone
      exact .silent hfirst hnone
    | failed => exact absurd rfl (hsound _)
    | valued stop hsome houtcome =>
      rw [advance_expandGroup (hfits.values _ _ _ _ houtcome), hformat]
      rw [hformat] at hsome
      exact .valued stop hfirst hsome

/-- Networks that never ask to stop leave no other marks. -/
theorem marks_of_progress (hnever : ∀ side samples world,
      ((networks.get side).evaluate samples world).stopRequested = false)
    {tablebase : Option (Tablebase ω P)}
    (h : batch.Progress networks tablebase world ending next marks) :
    ∀ mark ∈ marks, mark = false := by
  cases h with
  | stopped => simp
  | decided => simp
  | grouped _ _ hgrouped =>
    cases hgrouped with
    | silent => simp
    | failed _ hstop =>
      rw [hnever] at hstop
      simp [← hstop]
    | valued _ _ _ hstop =>
      rw [hnever] at hstop
      simp [← hstop]

/-- What a round makes of a batch does not depend on whether a stop is asked for meanwhile, but for
the request itself. -/
theorem Marked.beside {ending' : Option PlayEnd} {next' : Batch P M} {marks' : List Bool}
    (h : batch.Marked judgement ending next marks)
    (hnever : ∀ mark ∈ marks, mark = false)
    (h' : batch.Marked judgement ending' next' marks') :
    ending' = ending ∧ next.aborted = batch.aborted ∧
      ((marks = [] ∧ marks' = [] ∧ next' = next) ∨
        ∃ stop, ending = none ∧ marks = [false] ∧ marks' = [stop] ∧ next' = next.abortIf stop) := by
  cases h with
  | decided hnone =>
    cases h' with
    | decided => exact ⟨rfl, rfl, .inl ⟨rfl, rfl, rfl⟩⟩
    | silent hfirst | valued _ hfirst =>
      rw [hnone] at hfirst
      cases hfirst
  | silent hfirst hsilent =>
    cases h' with
    | decided hnone =>
      rw [hnone] at hfirst
      cases hfirst
    | silent hfirst' =>
      rw [hfirst] at hfirst'
      cases hfirst'
      exact ⟨rfl, rfl, .inl ⟨rfl, rfl, rfl⟩⟩
    | valued _ hfirst' hsome =>
      rw [hfirst] at hfirst'
      cases hfirst'
      exact absurd hsilent hsome
  | valued stop hfirst hsome =>
    obtain rfl : stop = false := hnever stop List.mem_cons_self
    cases h' with
    | decided hnone =>
      rw [hnone] at hfirst
      cases hfirst
    | silent hfirst' hsilent =>
      rw [hfirst] at hfirst'
      cases hfirst'
      exact absurd hsilent hsome
    | valued stop' hfirst' =>
      rw [hfirst] at hfirst'
      cases hfirst'
      exact ⟨rfl, rfl, .inr ⟨stop', rfl, rfl, rfl, rfl⟩⟩

/-- After so many rounds and one more, a run has just made the moves of its network batch number
`k`, counted from zero. -/
structure Computes (networks : PerSide (Network ω)) (tablebase : Option (Tablebase ω P))
    (batch : Batch P M) (world : ω) (rounds k : Nat) (reached : Batch P M) : Prop where
  before : (batch.computations networks tablebase rounds world).length = k
  played : ∃ last, batch.playFor networks tablebase (rounds + 1) world = (.cutShort, reached, last)
  after : (batch.computations networks tablebase (rounds + 1) world).length = k + 1

variable {tablebase : Option (Tablebase ω P)}

theorem Computes.ofRound {last : ω} {mark : Bool}
    (hround : batch.round networks tablebase world = (none, next, last))
    (hmarks : ∀ rounds, batch.computations networks tablebase (rounds + 1) world =
      [mark] ++ next.computations networks tablebase rounds last) :
    Computes networks tablebase batch world 0 0 next := by
  refine ⟨rfl, ⟨last, playFor_of_round_eq_none 0 hround⟩, ?_⟩
  rw [hmarks]
  rfl

theorem Computes.later {last : ω} {rounds k : Nat} {reached : Batch P M}
    (hround : batch.round networks tablebase world = (none, next, last))
    (hmarks : ∀ rounds, batch.computations networks tablebase (rounds + 1) world =
      marks ++ next.computations networks tablebase rounds last)
    (h : Computes networks tablebase next last rounds k reached) :
    Computes networks tablebase batch world (rounds + 1) (marks.length + k) reached := by
  refine ⟨?_, ?_, ?_⟩
  · rw [hmarks, List.length_append, h.before]
  · obtain ⟨after, hplay⟩ := h.played
    exact ⟨after, (playFor_of_round_eq_none _ hround).trans hplay⟩
  · rw [hmarks, List.length_append, h.after, Nat.add_assoc]

/-- A run computes nothing after it has come to rest. -/
theorem Computes.lt_of_rests {rounds full k : Nat} {reached final : Batch P M} {last : ω}
    {ending : PlayEnd} (h : Computes networks tablebase batch world rounds k reached)
    (hplay : batch.playFor networks tablebase full world = (ending, final, last))
    (hrests : ending ≠ .cutShort) : rounds < full := by
  by_contra hge
  obtain ⟨now, hplayed⟩ := h.played
  obtain ⟨more, hmore⟩ : ∃ more, rounds + 1 = full + more := ⟨rounds + 1 - full, by omega⟩
  rw [hmore, playFor_of_rests hplay hrests] at hplayed
  cases hplayed
  exact hrests rfl

/-- A batch that was asked to stop is left as it is, by any networks. -/
theorem playFor_of_aborted (networks : PerSide (Network ω)) (tablebase : Option (Tablebase ω P))
    (haborted : batch.aborted = true) (rounds : Nat) (world : ω) :
    (batch.playFor networks tablebase rounds world).2 = (batch, world) ∧
      batch.computations networks tablebase rounds world = [] := by
  cases rounds with
  | zero => exact ⟨rfl, rfl⟩
  | succ rounds =>
    refine ⟨congrArg Prod.snd (playFor_of_round_eq_some rounds (round_of_aborted haborted world)), ?_⟩
    have hwatched : batch.round (networks.map Network.watched) (tablebase.map Tablebase.watched)
        ⟨world, []⟩ = (some .finished, batch, ⟨world, []⟩) := round_of_aborted haborted _
    unfold computations
    rw [playFor_of_round_eq_some rounds hwatched]

/-- A round of a judgement's own networks does not fail. -/
theorem round_sound_of_holds (h : judgement.Holds) (hrun : batch.aborted = false) {last : ω}
    (hround : batch.round judgement.networks judgement.tablebase world = (ending, next, last)) :
    ∀ error, ending ≠ some (.failed error) := by
  rintro error rfl
  rcases round_of_holds h hrun world with ⟨-, after, hends⟩ | ⟨_, _, -, -, after, hmoves⟩
  · cases hround.symm.trans hends
  · cases hround.symm.trans hmoves

/-- A round of the full run and one of networks that may ask to stop, taken side by side from the
same batch. -/
theorem Progress.beside (h : judgement.Holds) (hfits : judgement.Fits networks)
    (hrun : batch.aborted = false) {next' : Batch P M} {ending' : Option PlayEnd}
    {world' : ω} {marks' : List Bool}
    (hfull : batch.Progress judgement.networks judgement.tablebase world ending next marks)
    (hfullSound : ∀ error, ending ≠ some (.failed error))
    (hstopping : batch.Progress networks judgement.tablebase world' ending' next' marks')
    (hsound : ∀ error, ending' ≠ some (.failed error)) :
    ending' = ending ∧ next.aborted = batch.aborted ∧
      ((marks = [] ∧ marks' = [] ∧ next' = next) ∨
        ∃ stop, ending = none ∧ marks = [false] ∧ marks' = [stop] ∧ next' = next.abortIf stop) := by
  have hnever : ∀ side samples world,
      ((judgement.networks.get side).evaluate samples world).stopRequested = false :=
    fun side samples world => (h.pointwise side samples world).2
  have hmarked := marked_of_progress h.fits h.fixed hrun hfull hfullSound
  exact hmarked.beside (marks_of_progress hnever hfull)
    (marked_of_progress hfits h.fixed hrun hstopping hsound)

/-- **A run that is stopped in a computation ends where the full run is after it.** -/
theorem exists_computes (h : judgement.Holds) (hfits : judgement.Fits networks) {rounds k : Nat}
    (hrun : batch.aborted = false) (world world' : ω) {ending : PlayEnd} {final : Batch P M}
    {last' : ω}
    (hplay : batch.playFor networks judgement.tablebase rounds world' = (ending, final, last'))
    (hsound : ∀ error, ending ≠ .failed error)
    (hasked : (batch.computations networks judgement.tablebase rounds world')[k]? = some true) :
    ∃ before reached, Computes judgement.networks judgement.tablebase batch world before k reached ∧
      final = reached.requestAbort := by
  induction rounds generalizing batch world world' k with
  | zero =>
    have hnone : batch.computations networks judgement.tablebase 0 world' = [] := rfl
    rw [hnone] at hasked
    cases hasked
  | succ rounds ih =>
    obtain ⟨first', next', now', hround'⟩ : ∃ ending next now,
        batch.round networks judgement.tablebase world' = (ending, next, now) := ⟨_, _, _, rfl⟩
    obtain ⟨first, next, now, hround⟩ : ∃ ending next now,
        batch.round judgement.networks judgement.tablebase world = (ending, next, now) :=
      ⟨_, _, _, rfl⟩
    have hsound' : ∀ error, first' ≠ some (.failed error) := by
      rintro error rfl
      rw [playFor_of_round_eq_some rounds hround'] at hplay
      cases hplay
      exact hsound error rfl
    obtain ⟨marks', hprogress', hmarks'⟩ := computations_succ hround'
    obtain ⟨marks, hprogress, hmarks⟩ := computations_succ hround
    rw [hmarks'] at hasked
    obtain ⟨rfl, hstill, ⟨rfl, rfl, rfl⟩ | ⟨stop, rfl, rfl, rfl, rfl⟩⟩ :=
      hprogress.beside h hfits hrun (round_sound_of_holds h hrun hround) hprogress' hsound'
    · -- Nothing was computed, and nobody could ask for a stop.
      cases first' with
      | some first' => cases hasked
      | none =>
        rw [playFor_of_round_eq_none rounds hround'] at hplay
        obtain ⟨before, reached, hcomputes, hfinal⟩ :=
          ih (hstill.trans hrun) now now' hplay hasked
        refine ⟨before + 1, reached, ?_, hfinal⟩
        have hlater := hcomputes.later hround hmarks
        rw [List.length_nil, Nat.zero_add] at hlater
        exact hlater
    · rw [playFor_of_round_eq_none rounds hround'] at hplay
      cases stop with
      | true =>
        have hstopped : (next.abortIf true).aborted = true := rfl
        obtain ⟨hsame, hnone⟩ :=
          playFor_of_aborted networks judgement.tablebase hstopped rounds now'
        rw [hplay] at hsame
        obtain ⟨rfl, -⟩ := Prod.mk.inj hsame
        cases k with
        | zero => exact ⟨0, next, .ofRound hround hmarks, rfl⟩
        | succ k =>
          simp only [hnone, List.append_nil] at hasked
          cases hasked
      | false =>
        cases k with
        | zero => cases hasked
        | succ k =>
          obtain ⟨before, reached, hcomputes, hfinal⟩ :=
            ih (hstill.trans hrun) now now' hplay hasked
          refine ⟨before + 1, reached, ?_, hfinal⟩
          have hlater := hcomputes.later hround hmarks
          rw [List.length_singleton, Nat.add_comm 1 k] at hlater
          exact hlater

/-- A run that was stopped has come to rest, or does so in the next round. -/
theorem finishes_of_aborted {rounds : Nat} {final : Batch P M} {last : ω} {ending : PlayEnd}
    (hplay : batch.playFor networks tablebase rounds world = (ending, final, last))
    (hsound : ∀ error, ending ≠ .failed error) (haborted : final.aborted = true) (more : Nat) :
    batch.playFor networks tablebase (rounds + (more + 1)) world = (.finished, final, last) := by
  cases ending with
  | cutShort =>
    rw [playFor_of_cutShort hplay]
    exact playFor_of_round_eq_some more (round_of_aborted haborted last)
  | finished => exact playFor_of_rests hplay (by decide) _
  | failed error => exact absurd rfl (hsound error)

theorem chess960_round (networks : PerSide (Network ω)) (tablebase : Option (Tablebase ω P))
    (batch : Batch P M) (world : ω) :
    (batch.round networks tablebase world).2.1.chess960 = batch.chess960 := by
  obtain ⟨ending, next, last, hround⟩ : ∃ ending next last,
      batch.round networks tablebase world = (ending, next, last) := ⟨_, _, _, rfl⟩
  obtain ⟨marks, hprogress, -⟩ := round_watched networks tablebase batch world hround
  rw [hround]
  cases hprogress with
  | stopped => rfl
  | decided => rfl
  | grouped _ _ hgrouped =>
    cases hgrouped with
    | silent => rfl
    | @failed _ stop => cases stop <;> rfl
    | valued stop => cases stop <;> rfl

theorem chess960_of_leads {later : Batch P M} (h : batch.Leads networks tablebase later) :
    later.chess960 = batch.chess960 := by
  induction h with
  | refl => rfl
  | tail _ hstep ih =>
    cases hstep with
    | round world => rw [chess960_round, ih]
    | requestAbort => exact ih

/-- What is played later comes after what has been played. -/
theorem gameMoves?_of_leads {later : Batch P M} (h : batch.Leads networks tablebase later) {i : Nat}
    {moves : List M} (hmoves : batch.gameMoves? i = some moves) :
    ∃ rest, later.gameMoves? i = some (moves ++ rest) := by
  obtain ⟨game, hgame, rfl⟩ := Option.map_eq_some_iff.mp hmoves
  obtain ⟨after, hafter, rest, hrest⟩ := keeps_of_leads
    (fun after => ∃ rest, after.record.moves batch.chess960 =
      game.record.moves batch.chess960 ++ rest) (BatchGame.follows_true tablebase)
    (fun before after hkept hprogress => by
      obtain ⟨rest, hrest⟩ := hkept
      obtain ⟨more, hmore⟩ := BatchGame.moves_of_progress hprogress batch.chess960
      exact ⟨rest ++ more, by rw [hmore, hrest, List.append_assoc]⟩)
    h hgame ⟨[], (List.append_nil _).symm⟩
  refine ⟨rest, ?_⟩
  unfold gameMoves?
  rw [hafter, chess960_of_leads h, Option.map_some, hrest]

end Batch

/-- **An interrupted batch is a prefix of the full run.** Let networks value samples by their planes
alone and a tablebase answer by position. If a stop is asked for while one of the network batches is
computed, and nothing fails, then play comes to rest with the batch as the full run has it right
after the moves of that computation. The moves of a game are then the first of those that it has
later in the full run, a result stays what it is, and further play changes nothing. -/
theorem stopped_batch_is_prefix {networks stopping : PerSide (Network ω)}
    {value : PerSide (List Plane → Binary32)}
    (hnetworks : ∀ side, (networks.get side).IsPointwise (value.get side))
    (hstopping : ∀ side, (stopping.get side).AnswersBy (value.get side))
    (hformat : ∀ side, (stopping.get side).format = (networks.get side).format)
    {tablebase : Option (Tablebase ω P)} {answer : P → Wdl × ProbeState}
    (htablebase : ∀ tb ∈ tablebase, tb.IsFixed answer) {batch : Batch P M}
    (hrun : batch.aborted = false) (world : ω) {rounds k : Nat} {world' last' : ω}
    {ending : PlayEnd} {final : Batch P M}
    (hplay : batch.playFor stopping tablebase rounds world' = (ending, final, last'))
    (hsound : ∀ error, ending ≠ .failed error)
    (hasked : (batch.computations stopping tablebase rounds world')[k]? = some true) :
    (∀ more, batch.playFor stopping tablebase (rounds + (more + 1)) world' =
      (.finished, final, last')) ∧
    (∃ before reached, Batch.Computes networks tablebase batch world before k reached ∧
      final = reached.requestAbort ∧
      ∀ full later last ending, before < full →
        batch.playFor networks tablebase full world = (ending, later, last) →
        (∀ i moves, final.gameMoves? i = some moves →
          ∃ rest, later.gameMoves? i = some (moves ++ rest)) ∧
        ∀ (i : Nat) (result : GameResult), final.results[i]? = some result →
          result.isTerminal = true → later.results[i]? = some result) ∧
    ∀ (others : PerSide (Network ω)) (other : Option (Tablebase ω P)) (again : Nat) (now : ω),
      final.playFor others other (again + 1) now = (.finished, final, now) := by
  let judgement : Judgement ω P := ⟨networks, value, tablebase, answer⟩
  have hholds : judgement.Holds := ⟨hnetworks, htablebase⟩
  have hfits : judgement.Fits stopping := ⟨hstopping, hformat⟩
  obtain ⟨before, reached, hcomputes, rfl⟩ :=
    Batch.exists_computes hholds hfits hrun world world' hplay hsound hasked
  have haborted : reached.requestAbort.aborted = true := rfl
  refine ⟨Batch.finishes_of_aborted hplay hsound haborted, ⟨before, reached, hcomputes, rfl, ?_⟩,
    fun others other again now =>
      Batch.playFor_of_round_eq_some again (Batch.round_of_aborted haborted now)⟩
  intro full later last ending hfull hlater
  obtain ⟨more, rfl⟩ : ∃ more, full = before + 1 + more := ⟨full - (before + 1), by omega⟩
  obtain ⟨now, hreached⟩ := hcomputes.played
  have hrest : reached.playFor networks tablebase more now = (ending, later, last) :=
    (Batch.playFor_of_cutShort hreached more).symm.trans hlater
  have hleads := Batch.leads_of_playFor hrest
  refine ⟨fun i moves hmoves => Batch.gameMoves?_of_leads hleads hmoves, ?_⟩
  intro i result hresult hover
  unfold Batch.results at hresult ⊢
  rw [List.getElem?_map] at hresult ⊢
  obtain ⟨game, hfinal, rfl⟩ := Option.map_eq_some_iff.mp hresult
  have hgame : reached.games[i]? = some game := hfinal
  rw [Batch.getElem?_of_leads hgame hover hleads]
  rfl

open TicTacToe

/-- A network that counts open lines, in a world that counts down to a stop. -/
def stoppingNetwork : Network Nat where
  format := .classical
  evaluate samples left := ⟨.ok (samples.map heuristicValue), left == 1, left - 1⟩

theorem stoppingNetwork_answersBy : stoppingNetwork.AnswersBy heuristicValue := by
  intro samples left values houtcome k planes hk
  have hanswer : (stoppingNetwork.evaluate samples left).outcome =
      .ok (samples.map heuristicValue) := rfl
  rw [hanswer] at houtcome
  obtain rfl := Except.ok.inj houtcome
  rw [valueOf, List.getD_eq_getElem?_getD, List.getElem?_map, hk, Option.map_some,
    Option.getD_some]

/-- White makes its winning move in the first computation, in which a stop is asked for. So nobody
notices that it has won, and black does not come to its own winning move. -/
theorem stopped_winning_batch_is_prefix :
    ∃ final reached full : Batch Position Square,
      winningBatch.playFor ⟨stoppingNetwork, stoppingNetwork⟩ none 1 1 = (.cutShort, final, 0) ∧
      winningBatch.playFor ⟨stoppingNetwork, stoppingNetwork⟩ none 2 1 = (.finished, final, 0) ∧
      final.results = [.undecided, .undecided] ∧ final.gameMoves? 0 = some [⟨2, 0⟩] ∧
      final = reached.requestAbort ∧
      (∃ before, Batch.Computes ⟨heuristicNetwork Nat, heuristicNetwork Nat⟩ none winningBatch 0
        before 0 reached) ∧
      winningBatch.playFor ⟨heuristicNetwork Nat, heuristicNetwork Nat⟩ none 5 0 =
        (.finished, full, 0) ∧
      full.results = [.won .white, .won .black] ∧
      ∃ rest, full.gameMoves? 0 = some ([⟨2, 0⟩] ++ rest) := by
  have hfacts : (winningBatch.playFor ⟨stoppingNetwork, stoppingNetwork⟩ none 1 1).1 = .cutShort ∧
      (winningBatch.playFor ⟨stoppingNetwork, stoppingNetwork⟩ none 1 1).2.2 = 0 ∧
      (winningBatch.playFor ⟨stoppingNetwork, stoppingNetwork⟩ none 1 1).2.1.results =
        [.undecided, .undecided] ∧
      (winningBatch.playFor ⟨stoppingNetwork, stoppingNetwork⟩ none 1 1).2.1.gameMoves? 0 =
        some [⟨2, 0⟩] := by decide +kernel
  have hfull : (winningBatch.playFor ⟨heuristicNetwork Nat, heuristicNetwork Nat⟩ none 5 0).1 =
        .finished ∧
      (winningBatch.playFor ⟨heuristicNetwork Nat, heuristicNetwork Nat⟩ none 5 0).2.2 = 0 ∧
      (winningBatch.playFor ⟨heuristicNetwork Nat, heuristicNetwork Nat⟩ none 5 0).2.1.results =
        [.won .white, .won .black] := by decide +kernel
  have hasked : (winningBatch.computations ⟨stoppingNetwork, stoppingNetwork⟩ none 1 1)[0]? =
      some true := by decide +kernel
  have hnetworks : ∀ side, ((⟨heuristicNetwork Nat, heuristicNetwork Nat⟩ :
      PerSide (Network Nat)).get side).IsPointwise
        ((⟨heuristicValue, heuristicValue⟩ : PerSide _).get side) := by
    intro side
    cases side <;> exact heuristicNetwork_isPointwise Nat
  have hstopping : ∀ side, ((⟨stoppingNetwork, stoppingNetwork⟩ :
      PerSide (Network Nat)).get side).AnswersBy
        ((⟨heuristicValue, heuristicValue⟩ : PerSide _).get side) := by
    intro side
    cases side <;> exact stoppingNetwork_answersBy
  have hformat : ∀ side, ((⟨stoppingNetwork, stoppingNetwork⟩ : PerSide (Network Nat)).get
      side).format = ((⟨heuristicNetwork Nat, heuristicNetwork Nat⟩ : PerSide (Network Nat)).get
        side).format := by
    intro side
    cases side <;> rfl
  have hnone : ∀ tb ∈ (none : Option (Tablebase Nat Position)),
      tb.IsFixed fun position => (outcomeOf (solve position), .ok) := by
    intro tb htb
    cases htb
  have hsound : ∀ error, PlayEnd.cutShort ≠ .failed error := fun error => PlayEnd.noConfusion
  generalize hplay : winningBatch.playFor ⟨stoppingNetwork, stoppingNetwork⟩ none 1 1 = run
    at hfacts
  generalize hwhole : winningBatch.playFor ⟨heuristicNetwork Nat, heuristicNetwork Nat⟩ none 5 0 =
    whole at hfull
  obtain ⟨ending, final, left⟩ := run
  obtain ⟨whole, full, last⟩ := whole
  obtain ⟨rfl, rfl, hresults, hmoves⟩ := hfacts
  obtain ⟨rfl, rfl, hwon⟩ := hfull
  obtain ⟨hfinishes, ⟨before, reached, hcomputes, hfinal, hlater⟩, -⟩ :=
    stopped_batch_is_prefix hnetworks hstopping hformat hnone rfl 0 hplay hsound hasked
  have hbefore : before < 5 := hcomputes.lt_of_rests hwhole (by decide)
  obtain ⟨hextends, -⟩ := hlater 5 full _ _ hbefore hwhole
  exact ⟨final, reached, full, rfl, hfinishes 0, hresults, hmoves, hfinal, ⟨before, hcomputes⟩, rfl,
    hwon, hextends 0 _ hmoves⟩

end SelfPlay.Lookahead
