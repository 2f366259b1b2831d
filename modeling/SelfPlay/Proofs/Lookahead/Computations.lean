import SelfPlay.Proofs.Lookahead.Reach
import SelfPlay.Proofs.Lookahead.Resumption

/-!
# Network batches that were computed

A network in a `Watched` world does what it always does and also leaves a mark for each batch that it
computes, which tells whether a stop was asked for meanwhile. Play does not see the marks, so those
of a watched run are the computations of the bare run. A round leaves one mark, or none if the games
that move have no sample between them.
-/

namespace SelfPlay

open SelfPlay.Numeric

/-- A world with, for each network batch, whether a stop was asked for while it was computed. -/
structure Watched (ω : Type) where
  world : ω
  asked : List Bool

def Network.watched {ω : Type} (network : Network ω) : Network (Watched ω) where
  format := network.format
  evaluate samples now :=
    let evaluation := network.evaluate samples now.world
    ⟨evaluation.outcome, evaluation.stopRequested,
      ⟨evaluation.world, now.asked ++ [evaluation.stopRequested]⟩⟩

def Tablebase.watched {ω P : Type} (tablebase : Tablebase ω P) : Tablebase (Watched ω) P where
  maxPieces := tablebase.maxPieces
  probe position now :=
    let (answer, world) := tablebase.probe position now.world
    (answer, ⟨world, now.asked⟩)

namespace Lookahead

variable {ω P M : Type} [Board P M]

namespace BatchGame

theorem settle_watched (tablebase : Option (Tablebase ω P)) (game : BatchGame P M) (world : ω)
    (asked : List Bool) :
    game.settle (tablebase.map Tablebase.watched) ⟨world, asked⟩ =
      ((game.settle tablebase world).1, ⟨(game.settle tablebase world).2, asked⟩) := by
  unfold settle
  split
  · rfl
  · simp only
    split
    · rfl
    · cases tablebase with
      | none => rfl
      | some tablebase =>
        have hcovers : tablebase.watched.covers game.record.head =
            tablebase.covers game.record.head := rfl
        simp only [Option.map_some, Tablebase.adjudicate, hcovers]
        split <;> rfl

theorem settleAll_watched (tablebase : Option (Tablebase ω P)) (games : List (BatchGame P M))
    (world : ω) (asked : List Bool) :
    settleAll (tablebase.map Tablebase.watched) games ⟨world, asked⟩ =
      ((settleAll tablebase games world).1, ⟨(settleAll tablebase games world).2, asked⟩) := by
  induction games generalizing world with
  | nil => rfl
  | cons game rest ih =>
    simp only [settleAll]
    rw [settle_watched, ih]

end BatchGame

namespace Batch

theorem settle_watched (tablebase : Option (Tablebase ω P)) (batch : Batch P M) (world : ω)
    (asked : List Bool) :
    batch.settle (tablebase.map Tablebase.watched) ⟨world, asked⟩ =
      ((batch.settle tablebase world).1, ⟨(batch.settle tablebase world).2, asked⟩) := by
  unfold settle
  simp only
  rw [BatchGame.settleAll_watched]

def abortIf (stop : Bool) (batch : Batch P M) : Batch P M :=
  if stop then batch.requestAbort else batch

variable [BoardMove M] [DecidableEq M]

/-- What a group step makes of a batch, and the marks that it leaves. -/
inductive Grouped (network : Network ω) (side : Color) (batch : Batch P M) :
    Option PlayEnd → Batch P M → List Bool → Prop
  | silent : (batch.expandGroup side).groupSamples network.format side = [] →
      Grouped network side batch none ((batch.expandGroup side).advance network.format side []) []
  | failed {fault : Fault} {stop : Bool} {world : ω} :
      (batch.expandGroup side).groupSamples network.format side ≠ [] →
      (network.evaluate ((batch.expandGroup side).groupSamples network.format side)
        world).stopRequested = stop →
      Grouped network side batch (some (.failed (.network fault)))
        ((batch.expandGroup side).abortIf stop) [stop]
  | valued {values : List Binary32} {world : ω} (stop : Bool) :
      (batch.expandGroup side).groupSamples network.format side ≠ [] →
      (network.evaluate ((batch.expandGroup side).groupSamples network.format side)
        world).outcome = .ok values →
      (network.evaluate ((batch.expandGroup side).groupSamples network.format side)
        world).stopRequested = stop →
      Grouped network side batch none
        (((batch.expandGroup side).advance network.format side values).abortIf stop) [stop]

theorem playGroup_watched (network : Network ω) (side : Color) (batch : Batch P M) (world : ω)
    {ending : Option PlayEnd} {next : Batch P M} {last : ω}
    (hgroup : batch.playGroup network side world = (ending, next, last)) :
    ∃ marks, batch.Grouped network side ending next marks ∧ ∀ asked,
      batch.playGroup network.watched side ⟨world, asked⟩ =
        (ending, next, ⟨last, asked ++ marks⟩) := by
  have hsame : network.watched.format = network.format := rfl
  unfold playGroup at hgroup ⊢
  rw [hsame]
  by_cases hnone : (batch.expandGroup side).groupSamples network.format side = []
  · simp only [hnone, List.isEmpty_nil, if_true] at hgroup ⊢
    cases hgroup
    exact ⟨[], .silent hnone, fun asked => by rw [List.append_nil]⟩
  · have hsome : ((batch.expandGroup side).groupSamples network.format side).isEmpty = false := by
      simpa using hnone
    simp only [hsome, Bool.false_eq_true, if_false, Network.watched] at hgroup ⊢
    obtain ⟨⟨outcome, stop, now⟩, hreply⟩ : ∃ reply, network.evaluate
      ((batch.expandGroup side).groupSamples network.format side) world = reply := ⟨_, rfl⟩
    have hstop : (network.evaluate ((batch.expandGroup side).groupSamples network.format side)
        world).stopRequested = stop := congrArg Evaluation.stopRequested hreply
    simp only [hreply] at hgroup ⊢
    cases outcome with
    | error fault =>
      cases hgroup
      exact ⟨[stop], .failed hnone hstop, fun asked => rfl⟩
    | ok values =>
      cases hgroup
      have houtcome : (network.evaluate ((batch.expandGroup side).groupSamples network.format side)
          world).outcome = .ok values := congrArg Evaluation.outcome hreply
      refine ⟨[stop], ?_, fun asked => rfl⟩
      cases stop with
      | true => exact .valued true hnone houtcome hstop
      | false => exact .valued false hnone houtcome hstop

/-- What a round makes of a batch, and the marks that it leaves. -/
inductive Progress (networks : PerSide (Network ω)) (tablebase : Option (Tablebase ω P))
    (batch : Batch P M) (world : ω) : Option PlayEnd → Batch P M → List Bool → Prop
  | stopped : batch.aborted = true →
      Progress networks tablebase batch world (some .finished) batch []
  | decided : batch.aborted = false →
      (batch.settle tablebase world).1.firstUndecided? = none →
      Progress networks tablebase batch world (some .finished) (batch.settle tablebase world).1 []
  | grouped {first : BatchGame P M} {ending : Option PlayEnd} {next : Batch P M}
      {marks : List Bool} : batch.aborted = false →
      (batch.settle tablebase world).1.firstUndecided? = some first →
      (batch.settle tablebase world).1.Grouped (networks.get first.record.sideToMove)
        first.record.sideToMove ending next marks →
      Progress networks tablebase batch world ending next marks

theorem round_watched (networks : PerSide (Network ω)) (tablebase : Option (Tablebase ω P))
    (batch : Batch P M) (world : ω) {ending : Option PlayEnd} {next : Batch P M} {last : ω}
    (hround : batch.round networks tablebase world = (ending, next, last)) :
    ∃ marks, batch.Progress networks tablebase world ending next marks ∧ ∀ asked,
      batch.round (networks.map Network.watched) (tablebase.map Tablebase.watched)
        ⟨world, asked⟩ = (ending, next, ⟨last, asked ++ marks⟩) := by
  unfold round at hround ⊢
  cases haborted : batch.aborted with
  | true =>
    rw [haborted, if_pos rfl] at hround
    cases hround
    exact ⟨[], .stopped haborted, fun asked => by rw [if_pos rfl, List.append_nil]⟩
  | false =>
    rw [haborted, if_neg Bool.false_ne_true] at hround
    simp only [Bool.false_eq_true, if_false, settle_watched] at hround ⊢
    cases hfirst : (batch.settle tablebase world).1.firstUndecided? with
    | none =>
      rw [hfirst] at hround
      cases hround
      exact ⟨[], .decided haborted hfirst, fun asked => by rw [List.append_nil]⟩
    | some first =>
      rw [hfirst] at hround
      obtain ⟨marks, hgrouped, hwatched⟩ := playGroup_watched _ _ _ _ hround
      refine ⟨marks, .grouped haborted hfirst hgrouped, fun asked => ?_⟩
      simp only [PerSide.get_map]
      exact hwatched asked

/-- The marks of a run. -/
def computations (networks : PerSide (Network ω)) (tablebase : Option (Tablebase ω P))
    (rounds : Nat) (batch : Batch P M) (world : ω) : List Bool :=
  (batch.playFor (networks.map Network.watched) (tablebase.map Tablebase.watched) rounds
    ⟨world, []⟩).2.2.asked

variable {networks : PerSide (Network ω)} {tablebase : Option (Tablebase ω P)}

/-- **A run is not changed by being watched.** -/
theorem playFor_watched (rounds : Nat) (batch : Batch P M) (world : ω) (asked : List Bool)
    {ending : PlayEnd} {final : Batch P M} {last : ω}
    (hplay : batch.playFor networks tablebase rounds world = (ending, final, last)) :
    batch.playFor (networks.map Network.watched) (tablebase.map Tablebase.watched) rounds
        ⟨world, asked⟩ =
      (ending, final, ⟨last, asked ++ batch.computations networks tablebase rounds world⟩) := by
  unfold computations
  induction rounds generalizing batch world asked with
  | zero =>
    cases hplay
    simp [playFor]
  | succ rounds ih =>
    obtain ⟨first, next, now, hround⟩ : ∃ first next now,
        batch.round networks tablebase world = (first, next, now) := ⟨_, _, _, rfl⟩
    obtain ⟨marks, -, hwatched⟩ := round_watched networks tablebase batch world hround
    cases first with
    | some first =>
      rw [playFor_of_round_eq_some rounds hround] at hplay
      cases hplay
      rw [playFor_of_round_eq_some rounds (hwatched asked),
        playFor_of_round_eq_some rounds (hwatched [])]
      rfl
    | none =>
      rw [playFor_of_round_eq_none rounds hround] at hplay
      rw [playFor_of_round_eq_none rounds (hwatched asked),
        playFor_of_round_eq_none rounds (hwatched []), ih next now (asked ++ marks) hplay,
        ih next now ([] ++ marks) hplay]
      simp

/-- The marks of a run are those of its first round and of the rest. -/
theorem computations_succ {batch next : Batch P M} {world last : ω} {ending : Option PlayEnd}
    (hround : batch.round networks tablebase world = (ending, next, last)) :
    ∃ marks, batch.Progress networks tablebase world ending next marks ∧ ∀ rounds,
      batch.computations networks tablebase (rounds + 1) world = marks ++
        match ending with
        | some _ => []
        | none => next.computations networks tablebase rounds last := by
  obtain ⟨marks, hprogress, hwatched⟩ := round_watched networks tablebase batch world hround
  refine ⟨marks, hprogress, fun rounds => ?_⟩
  unfold computations
  cases ending with
  | some ending =>
    rw [playFor_of_round_eq_some rounds (hwatched [])]
    simp
  | none =>
    rw [playFor_of_round_eq_none rounds (hwatched []), playFor_watched rounds next last _ rfl]
    rfl

/-- Play that has come to rest is not changed by further rounds. -/
theorem playFor_of_rests {rounds : Nat} {batch final : Batch P M} {world last : ω}
    {ending : PlayEnd} (hplay : batch.playFor networks tablebase rounds world = (ending, final, last))
    (hrests : ending ≠ .cutShort) (more : Nat) :
    batch.playFor networks tablebase (rounds + more) world = (ending, final, last) := by
  rw [playFor_eq_runFor] at hplay ⊢
  exact runFor_of_rests hplay hrests more

/-- Play that was cut short goes on from there. -/
theorem playFor_of_cutShort {rounds : Nat} {batch now : Batch P M} {world last : ω}
    (hplay : batch.playFor networks tablebase rounds world = (.cutShort, now, last)) (more : Nat) :
    batch.playFor networks tablebase (rounds + more) world =
      now.playFor networks tablebase more last := by
  simp only [playFor_eq_runFor] at hplay ⊢
  exact (runFor_of_cutShort (fun _ : Batch P M => True) ne_cutShort_of_round
    (fun _ _ => trivial) hplay trivial).2 more

end Batch

end Lookahead

end SelfPlay
