import Mathlib.Data.List.Forall2
import SelfPlay.TicTacToe.HouseRules
import SelfPlay.Training.Writer

/-!
# Labels of training samples

A sample tells the side to move in one of two places, by its format. From that side the result is
filled in, and since filling in changes neither the side nor the estimate of the last sample, doing
it again changes nothing. What a writer has received when it refuses a sample is all that came
before.
-/

namespace SelfPlay

open SelfPlay.Numeric

/-- In the canonical format a board numbers its symmetries below the bit that is set for black. -/
def LeavesSideBit (P : Type) {M : Type} [Board P M] : Prop :=
  ∀ (positions : List P) (count : Nat) (fill : HistoryFill),
    (Board.encode positions .canonical count fill).transform < 128

namespace TicTacToe

theorem transform_encode_lt (positions : List Position) (format : InputFormat) (count : Nat)
    (fill : HistoryFill) : (encode positions format count fill).transform < 128 := by
  cases positions with
  | nil => exact Nat.zero_lt_succ _
  | cons current earlier =>
    simp only [encode]
    split <;> omega

theorem leavesSideBit : LeavesSideBit Position :=
  fun positions => transform_encode_lt positions .canonical

theorem HousePosition.leavesSideBit : LeavesSideBit HousePosition :=
  fun positions => transform_encode_lt (positions.map (·.stones)) .canonical

end TicTacToe

namespace TrainingSample

theorem sideByte_eq (side : Color) (transform : Nat) :
    ((sideBytes .classical side transform).1 != 0) = side.isBlack := by
  cases side <;> rfl

/-- The highest bit is set for black, whatever the symmetry. -/
theorem invariance_eq (side : Color) {transform : Nat} (h : transform < 128) :
    ((sideBytes .canonical side transform).2 &&& sideBit != 0) = side.isBlack := by
  have hwhite : ∀ n < 128, ((UInt8.ofNat n ||| 0) &&& sideBit != 0) = false := by decide
  have hblack : ∀ n < 128, ((UInt8.ofNat n ||| sideBit) &&& sideBit != 0) = true := by decide
  cases side with
  | white => exact hwhite transform h
  | black => exact hblack transform h

variable {R : Type} [Scalar R]

/-- A sample's side to move is that of the tree that it was taken from. -/
theorem sideToMove_ofTree {P M : Type} [BoardMove M] [Board P M] (hboard : LeavesSideBit P)
    (tree : GameTree P M) (format : InputFormat) (fill : HistoryFill) (eval : BestEval R) :
    (ofTree tree format fill eval).sideToMove = tree.sideToMove := by
  have hside : (ofTree tree format fill eval).sideToMove =
      if tree.sideToMove.isBlack then .black else .white := by
    cases format with
    | classical =>
      rw [← sideByte_eq tree.sideToMove
        (tree.record.history.encode .classical historyPlanes fill).transform]
      rfl
    | canonical =>
      rw [← invariance_eq tree.sideToMove (hboard tree.record.history.positions historyPlanes fill)]
      rfl
  rw [hside]
  cases tree.sideToMove <;> rfl

/-- A sample with its label filled in. -/
def IsLabelled (result : GameResult) (labelled sample : TrainingSample R) : Prop :=
  ∃ pliesLeft, labelled =
    { sample with pliesLeft := pliesLeft, result := result.score sample.sideToMove }

theorem isLabelled_countDown (result : GameResult) (pliesLeft : R)
    (samples : List (TrainingSample R)) :
    List.Forall₂ (IsLabelled result) (countDown result pliesLeft samples) samples := by
  induction samples generalizing pliesLeft with
  | nil => exact .nil
  | cons sample rest ih => exact .cons ⟨pliesLeft, rfl⟩ (ih _)

/-- Every sample of a finished game is labelled, in the order of the game. -/
theorem isLabelled_finalize (result : GameResult) (samples : List (TrainingSample R)) :
    List.Forall₂ (IsLabelled result) (finalize result samples) samples := by
  unfold finalize
  split
  · rename_i hnone
    rw [List.getLast?_eq_none_iff.mp hnone]
    exact .nil
  · exact isLabelled_countDown result _ samples

/-- Labels that were filled in before are written over. -/
theorem countDown_countDown (result other : GameResult) (pliesLeft before : R)
    (samples : List (TrainingSample R)) :
    countDown result pliesLeft (countDown other before samples) =
      countDown result pliesLeft samples := by
  induction samples generalizing pliesLeft before with
  | nil => rfl
  | cons sample rest ih =>
    simp only [countDown]
    rw [ih]
    rfl

theorem length_countDown (result : GameResult) (pliesLeft : R) (samples : List (TrainingSample R)) :
    (countDown result pliesLeft samples).length = samples.length :=
  (isLabelled_countDown result pliesLeft samples).length_eq

/-- The last sample keeps its estimate. -/
theorem getLast?_countDown (result : GameResult) (pliesLeft : R)
    (samples : List (TrainingSample R)) :
    (countDown result pliesLeft samples).getLast?.map (·.m) = samples.getLast?.map (·.m) := by
  induction samples generalizing pliesLeft with
  | nil => rfl
  | cons sample rest ih =>
    cases rest with
    | nil => rfl
    | cons next rest =>
      have hrest := ih (pliesLeft - Scalar.one)
      simp only [countDown, List.getLast?_cons_cons] at hrest ⊢
      exact hrest

theorem finalize_eq_countDown (result : GameResult) {samples : List (TrainingSample R)}
    {last : TrainingSample R} (hlast : samples.getLast? = some last) :
    finalize result samples =
      countDown result (last.m + Scalar.ofNat samples.length - Scalar.one) samples := by
  unfold finalize
  rw [hlast]

/-- Only the last labelling counts. -/
theorem finalize_finalize (result other : GameResult) (samples : List (TrainingSample R)) :
    finalize result (finalize other samples) = finalize result samples := by
  cases hlast : samples.getLast? with
  | none =>
    rw [List.getLast?_eq_none_iff.mp hlast]
    rfl
  | some last =>
    rw [finalize_eq_countDown other hlast, finalize_eq_countDown result hlast]
    have hestimate := getLast?_countDown other
      (last.m + Scalar.ofNat samples.length - Scalar.one) samples
    rw [hlast, Option.map_some, Option.map_eq_some_iff] at hestimate
    obtain ⟨labelled, hlabelled, hm⟩ := hestimate
    rw [finalize_eq_countDown result hlabelled, hm, length_countDown, countDown_countDown]

end TrainingSample

namespace SampleWriter

variable {σ R : Type}

/-- The writer, with the samples that it has taken beside its world. -/
def recording (writer : SampleWriter σ R) : SampleWriter (σ × List (TrainingSample R)) R where
  write sample now :=
    match writer.write sample now.1 with
    | (.ok (), sink) => (.ok (), sink, now.2 ++ [sample])
    | (.error fault, sink) => (.error fault, sink, now.2)
  flush now :=
    match writer.flush now.1 with
    | (outcome, sink) => (outcome, sink, now.2)

/-- The writer takes samples one after the other, which leads from one world to another. -/
inductive Takes (writer : SampleWriter σ R) : σ → List (TrainingSample R) → σ → Prop
  | nil {sink : σ} : Takes writer sink [] sink
  | cons {sink next last : σ} {sample : TrainingSample R} {rest : List (TrainingSample R)} :
      writer.write sample sink = (.ok (), next) → Takes writer next rest last →
      Takes writer sink (sample :: rest) last

variable {writer : SampleWriter σ R} {sink last : σ} {samples : List (TrainingSample R)}

theorem write_recording {sample : TrainingSample R} {next : σ}
    (h : writer.write sample sink = (.ok (), next)) (received : List (TrainingSample R)) :
    writer.recording.write sample (sink, received) = (.ok (), next, received ++ [sample]) := by
  simp only [recording]
  rw [h]

theorem write_recording_refused {sample : TrainingSample R} {fault : Fault} {next : σ}
    (h : writer.write sample sink = (.error fault, next)) (received : List (TrainingSample R)) :
    writer.recording.write sample (sink, received) = (.error fault, next, received) := by
  simp only [recording]
  rw [h]

/-- What is taken is received in order. -/
theorem Takes.writeAll (h : writer.Takes sink samples last) (rest received : List (TrainingSample R)) :
    writer.recording.writeAll (samples ++ rest) (sink, received) =
      writer.recording.writeAll rest (last, received ++ samples) := by
  induction h generalizing received with
  | nil => rw [List.append_nil, List.nil_append]
  | cons hwrite _ ih =>
    rw [List.cons_append, SampleWriter.writeAll, write_recording hwrite]
    refine (ih _).trans ?_
    rw [List.append_assoc, List.singleton_append]

/-- Nothing is received from the first refused sample on. -/
theorem Takes.writeAll_refused (h : writer.Takes sink samples last) {sample : TrainingSample R}
    {fault : Fault} {next : σ} (hrefused : writer.write sample last = (.error fault, next))
    (rest received : List (TrainingSample R)) :
    writer.recording.writeAll (samples ++ sample :: rest) (sink, received) =
      (.error fault, next, received ++ samples) := by
  rw [h.writeAll, SampleWriter.writeAll, write_recording_refused hrefused]

end SampleWriter

/-- Lines are always taken. -/
theorem lineWriter_takes (lines : List String) (samples : List (TrainingSample Binary32)) :
    lineWriter.Takes lines samples (lines ++ samples.map (·.toLine)) := by
  induction samples generalizing lines with
  | nil =>
    rw [List.map_nil, List.append_nil]
    exact .nil
  | cons sample rest ih =>
    have hrest := ih (lines ++ [sample.toLine])
    rw [List.append_assoc] at hrest
    exact .cons rfl hrest

end SelfPlay
