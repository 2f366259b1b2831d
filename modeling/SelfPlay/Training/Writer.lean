import SelfPlay.Training.Sample
import SelfPlay.Text.Json

/-!
# Writing training samples
-/

namespace SelfPlay

open SelfPlay.Numeric
open SelfPlay.Text (Json)

/-- Where samples go, in a world `ω`. -/
structure SampleWriter (ω R : Type) where
  write : TrainingSample R → ω → Except Fault Unit × ω
  flush : ω → Except Fault Unit × ω

namespace SampleWriter

/-- Hands samples over in order, up to the first that is refused. -/
def writeAll {ω R : Type} (writer : SampleWriter ω R) :
    List (TrainingSample R) → ω → Except Fault Unit × ω
  | [], world => (.ok (), world)
  | sample :: rest, world =>
    match writer.write sample world with
    | (.error fault, world) => (.error fault, world)
    | (.ok (), world) => writer.writeAll rest world

end SampleWriter

namespace TrainingSample

def formatName : InputFormat → String
  | .classical => "classical"
  | .canonical => "canonical"

def toJson (sample : TrainingSample Binary32) : Json :=
  .object [
    ("version", .int sample.version),
    ("input_format", .text (formatName sample.format)),
    ("planes", .list (sample.planes.map fun mask => .int mask.toNat)),
    ("policy", .list (sample.policy.map fun entry =>
      .object [("move", .text entry.move), ("probability", .single entry.probability)])),
    ("side_to_move_or_enpassant", .int sample.sideByte.toNat),
    ("invariance_info", .int sample.invariance.toNat),
    ("result", .int sample.result),
    ("best_q", .single sample.q),
    ("best_d", .single sample.d),
    ("best_m", .single sample.m),
    ("plies_left", .single sample.pliesLeft),
    ("visits", .int sample.visits)]

/-- A sample on a line of its own, without the line's end. -/
def toLine (sample : TrainingSample Binary32) : String := sample.toJson.render

end TrainingSample

/-- The writer that collects one line for each sample. -/
def lineWriter : SampleWriter (List String) Binary32 where
  write sample lines := (.ok (), lines ++ [sample.toLine])
  flush lines := (.ok (), lines)

end SelfPlay
