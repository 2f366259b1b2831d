import SelfPlay.Proofs.Numeric.Integers
import SelfPlay.Proofs.Training.Labels

/-!
# Moves left counted down

The samples of a finished game are labelled in one pass with a number that starts at the estimate of
the last sample and the number of samples, less one, and is lowered by one at each sample. What fits
the first sample and still fits after each lowering fits everywhere, so the last sample gets its own
estimate and each earlier one gets one move more.

Exact numbers count down like this from any estimate. In single precision a number that is an
integer does so as long as all that is added up has at most 24 bits.
-/

namespace SelfPlay

open SelfPlay.Numeric

namespace TrainingSample

section

variable {R : Type} {result : GameResult} {fits : Nat → R → Prop}
  {labelled samples : List (TrainingSample R)}

/-- Each sample has got the points of its own side to move and a number of moves left that fits the
number of samples after it. Nothing else is changed. -/
structure AreLabelled (result : GameResult) (fits : Nat → R → Prop)
    (labelled samples : List (TrainingSample R)) : Prop where
  length : labelled.length = samples.length
  labels : ∀ (i : Nat) (sample : TrainingSample R), samples[i]? = some sample →
    ∃ pliesLeft, fits (samples.length - 1 - i) pliesLeft ∧ labelled[i]? =
      some { sample with pliesLeft := pliesLeft, result := result.score sample.sideToMove }

theorem AreLabelled.getLast? (h : AreLabelled result fits labelled samples)
    {last : TrainingSample R} (hlast : samples.getLast? = some last) :
    ∃ final, labelled.getLast? = some final ∧ fits 0 final.pliesLeft := by
  rw [List.getLast?_eq_getElem?] at hlast
  obtain ⟨pliesLeft, hfits, hfinal⟩ := h.labels _ _ hlast
  rw [Nat.sub_self] at hfits
  rw [List.getLast?_eq_getElem?, h.length]
  exact ⟨_, hfinal, hfits⟩

theorem AreLabelled.consecutive (h : AreLabelled result fits labelled samples) {i : Nat}
    {before after : TrainingSample R} (hbefore : labelled[i]? = some before)
    (hafter : labelled[i + 1]? = some after) :
    ∃ rest, fits (rest + 1) before.pliesLeft ∧ fits rest after.pliesLeft := by
  obtain ⟨hlt, -⟩ := List.getElem?_eq_some_iff.mp hafter
  rw [h.length] at hlt
  obtain ⟨number, hnumber, hlabel⟩ := h.labels i _ (List.getElem?_eq_getElem (by omega))
  obtain ⟨next, hnext, hlabel'⟩ := h.labels (i + 1) _ (List.getElem?_eq_getElem hlt)
  obtain rfl := Option.some.inj (hlabel.symm.trans hbefore)
  obtain rfl := Option.some.inj (hlabel'.symm.trans hafter)
  refine ⟨samples.length - 1 - (i + 1), ?_, hnext⟩
  rwa [show samples.length - 1 - (i + 1) + 1 = samples.length - 1 - i by omega]

end

section

variable {R : Type} [Scalar R] {fits : Nat → R → Prop}

/-- What fits the first sample and still fits when it is lowered fits every sample. -/
theorem areLabelled_countDown (result : GameResult) (samples : List (TrainingSample R))
    (hlower : ∀ rest number, rest + 1 < samples.length → fits (rest + 1) number →
      fits rest (number - Scalar.one))
    {pliesLeft : R} (hstart : 0 < samples.length → fits (samples.length - 1) pliesLeft) :
    AreLabelled result fits (countDown result pliesLeft samples) samples := by
  refine ⟨length_countDown result pliesLeft samples, ?_⟩
  induction samples generalizing pliesLeft with
  | nil => exact fun i sample hsample => nomatch hsample
  | cons first samples ih =>
    intro i sample hsample
    have hfirst : fits samples.length pliesLeft := hstart (Nat.zero_lt_succ _)
    cases i with
    | zero =>
      obtain rfl := Option.some.inj hsample
      exact ⟨pliesLeft, hfirst, rfl⟩
    | succ i =>
      have hnext (hsome : 0 < samples.length) :
          fits (samples.length - 1) (pliesLeft - Scalar.one) := by
        refine hlower _ _ ?_ ?_
        · rw [List.length_cons]
          omega
        · rwa [Nat.sub_add_cancel hsome]
      have hrest := ih (fun rest number hlt => hlower rest number (Nat.lt_succ_of_lt hlt)) hnext i
        sample hsample
      rw [List.length_cons, show samples.length + 1 - 1 - (i + 1) = samples.length - 1 - i by omega]
      exact hrest

/-- It is enough that the number that is computed for the first sample fits. -/
theorem areLabelled_finalize (result : GameResult) {samples : List (TrainingSample R)}
    {last : TrainingSample R} (hlast : samples.getLast? = some last)
    (hlower : ∀ rest number, rest + 1 < samples.length → fits (rest + 1) number →
      fits rest (number - Scalar.one))
    (hstart : fits (samples.length - 1) (last.m + Scalar.ofNat samples.length - Scalar.one)) :
    AreLabelled result fits (finalize result samples) samples := by
  rw [finalize_eq_countDown result hlast]
  exact areLabelled_countDown result samples hlower fun _ => hstart

end

theorem length_pos_of_getLast? {R : Type} {samples : List (TrainingSample R)}
    {last : TrainingSample R} (hlast : samples.getLast? = some last) : 0 < samples.length :=
  List.length_pos_of_mem (List.mem_of_getLast? hlast)

/-- Exact numbers count down from the estimate of the last sample. -/
theorem areLabelled_exact (result : GameResult) {samples : List (TrainingSample Rat)}
    {last : TrainingSample Rat} (hlast : samples.getLast? = some last) :
    AreLabelled result (fun rest pliesLeft => pliesLeft = last.m + rest) (finalize result samples)
      samples := by
  refine areLabelled_finalize result hlast ?_ ?_
  · rintro rest number - rfl
    rw [Scalar.one_rat, Nat.cast_add_one, ← add_assoc, add_sub_cancel_right]
  · rw [Scalar.one_rat, Scalar.ofNat_rat, Nat.cast_sub (length_pos_of_getLast? hlast),
      Nat.cast_one, add_sub_assoc]

/-- So do integers in single precision, if there are not too many samples. -/
theorem areLabelled_integer (result : GameResult) {samples : List (TrainingSample Binary32)}
    {last : TrainingSample Binary32} {m : Int} (hlast : samples.getLast? = some last)
    (hm : last.m.Represents m) (hbound : m.natAbs + samples.length ≤ 2 ^ 24) :
    AreLabelled result (fun rest pliesLeft => pliesLeft.Represents (m + rest))
      (finalize result samples) samples := by
  have hone : (Scalar.one : Binary32).Represents 1 := Binary32.represents_ofNat (by decide)
  have hcount : (Scalar.ofNat samples.length : Binary32).Represents samples.length :=
    Binary32.represents_ofNat (by omega)
  have hsome := length_pos_of_getLast? hlast
  refine areLabelled_finalize result hlast ?_ ?_
  · intro rest number hlt hnumber
    have hlowered := hnumber.sub hone (by omega)
    rwa [Nat.cast_add_one, ← add_assoc, add_sub_cancel_right] at hlowered
  · have hnumber := (hm.add hcount (by omega)).sub hone (by omega)
    rwa [add_sub_assoc, ← Nat.cast_one, ← Nat.cast_sub hsome] at hnumber

/-- **Finished games are labelled by counting down to the last estimate.** In exact numbers the
moves left are the last sample's estimate and one for each sample after, the result is that of the
sample's own side to move, and nothing else changes; so the last sample has its own estimate and
neighbours differ by one. In single precision it is the same if the estimate is an integer that has
at most 24 bits together with the number of samples. In any arithmetic only the last labelling
counts. -/
theorem moves_left_count_down (result : GameResult) :
    (∀ (samples : List (TrainingSample Rat)) (last : TrainingSample Rat),
      samples.getLast? = some last →
      AreLabelled result (fun rest pliesLeft => pliesLeft = last.m + rest)
        (finalize result samples) samples ∧
      (∃ final, (finalize result samples).getLast? = some final ∧ final.pliesLeft = last.m) ∧
      ∀ (i : Nat) (before after : TrainingSample Rat),
        (finalize result samples)[i]? = some before →
        (finalize result samples)[i + 1]? = some after →
        before.pliesLeft = after.pliesLeft + 1) ∧
    (∀ (samples : List (TrainingSample Binary32)) (last : TrainingSample Binary32) (m : Int),
      samples.getLast? = some last → last.m.Represents m →
      m.natAbs + samples.length ≤ 2 ^ 24 →
      AreLabelled result (fun rest pliesLeft => pliesLeft.Represents (m + rest))
        (finalize result samples) samples ∧
      (∃ final, (finalize result samples).getLast? = some final ∧
        final.pliesLeft.same last.m = true) ∧
      ∀ (i : Nat) (before after : TrainingSample Binary32),
        (finalize result samples)[i]? = some before →
        (finalize result samples)[i + 1]? = some after →
        ∃ moves : Int, before.pliesLeft.Represents (moves + 1) ∧
          after.pliesLeft.Represents moves) ∧
    ∀ {R : Type} [Scalar R] (samples : List (TrainingSample R)),
      finalize result (finalize result samples) = finalize result samples ∧
      ∀ other, finalize other (finalize result samples) = finalize other samples := by
  refine ⟨fun samples last hlast => ?_, fun samples last m hlast hm hbound => ?_,
    fun samples => ⟨finalize_finalize result result samples,
      fun other => finalize_finalize other result samples⟩⟩
  · have hlabelled := areLabelled_exact result hlast
    refine ⟨hlabelled, ?_, fun i before after hbefore hafter => ?_⟩
    · obtain ⟨final, hfinal, hestimate⟩ := hlabelled.getLast? hlast
      rw [Nat.cast_zero, add_zero] at hestimate
      exact ⟨final, hfinal, hestimate⟩
    · obtain ⟨rest, hnumber, hnext⟩ := hlabelled.consecutive hbefore hafter
      rw [hnumber, hnext, Nat.cast_add_one, add_assoc]
  · have hlabelled := areLabelled_integer result hlast hm hbound
    refine ⟨hlabelled, ?_, fun i before after hbefore hafter => ?_⟩
    · obtain ⟨final, hfinal, hestimate⟩ := hlabelled.getLast? hlast
      rw [Nat.cast_zero, add_zero] at hestimate
      exact ⟨final, hfinal, hestimate.same hm⟩
    · obtain ⟨rest, hnumber, hnext⟩ := hlabelled.consecutive hbefore hafter
      rw [Nat.cast_add_one, ← add_assoc] at hnumber
      exact ⟨_, hnumber, hnext⟩

/-- A sample of which only the side to move and the estimate of the moves left are told. -/
def bare {R : Type} [Scalar R] (format : InputFormat) (side : Color) (m : R) :
    TrainingSample R where
  version := currentVersion
  format := format
  planes := []
  policy := []
  sideByte := (sideBytes format side 0).1
  invariance := (sideBytes format side 0).2
  result := 0
  q := Scalar.zero
  d := Scalar.zero
  m := m
  pliesLeft := Scalar.zero
  visits := 0

/-- Three moves of a game, the second of them in the other format. -/
def threeMoves (R : Type) [Scalar R] : List (TrainingSample R) :=
  [bare .classical .white (Scalar.ofNat 9), bare .canonical .black (Scalar.ofNat 9),
    bare .classical .white (Scalar.ofNat 2)]

/-- White's win in three moves is labelled alike in exact numbers and in single precision, and
labelled as a draw afterwards it is the draw that it would have been. -/
theorem moves_left_count_down_of_three :
    (finalize (.won .white) (threeMoves Rat)).map
      (fun sample => (sample.pliesLeft, sample.result)) = [(4, 1), (3, -1), (2, 1)] ∧
    (finalize (.won .white) (threeMoves Binary32)).map
      (fun sample => (sample.pliesLeft, sample.result)) = [(4, 1), (3, -1), (2, 1)] ∧
    AreLabelled (.won .white) (fun rest pliesLeft => pliesLeft = 2 + (rest : Rat))
      (finalize (.won .white) (threeMoves Rat)) (threeMoves Rat) ∧
    AreLabelled (.won .white) (fun rest pliesLeft => pliesLeft.Represents (2 + (rest : Int)))
      (finalize (.won .white) (threeMoves Binary32)) (threeMoves Binary32) ∧
    finalize .draw (finalize (.won .white) (threeMoves Binary32)) =
      finalize .draw (threeMoves Binary32) := by
  have htwo : (Scalar.ofNat 2 : Binary32).Represents 2 := Binary32.represents_ofNat (by decide)
  obtain ⟨hexact, hsingle, hlast⟩ := moves_left_count_down (.won .white)
  obtain ⟨hlabelled, -⟩ := hexact (threeMoves Rat) (bare .classical .white (Scalar.ofNat 2)) rfl
  obtain ⟨hlabelled', -⟩ := hsingle (threeMoves Binary32)
    (bare .classical .white (Scalar.ofNat 2)) 2 rfl htwo (by decide)
  refine ⟨by decide +kernel, by decide +kernel, hlabelled, hlabelled', ?_⟩
  obtain ⟨-, hdraw⟩ := hlast (threeMoves Binary32)
  exact hdraw .draw

end TrainingSample

end SelfPlay
