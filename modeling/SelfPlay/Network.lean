import SelfPlay.Board

/-!
# Networks

A network values encoded positions in batches. What it remembers, counts or talks to is part of a
world `ω` that it is given and gives back, so two networks may share one, and a driver can be
studied with any of them.
-/

namespace SelfPlay

open SelfPlay.Numeric

/-- What comes back from one batch. -/
structure Evaluation (ω : Type) where
  /-- The values for the side to move in each position, in order, or what went wrong. -/
  outcome : Except Fault (List Binary32)
  /-- Whether the driver was asked to stop meanwhile. -/
  stopRequested : Bool
  world : ω

/-- A network in a world `ω`. -/
structure Network (ω : Type) where
  format : InputFormat
  /-- Values a batch of encoded positions. -/
  evaluate : List (List Plane) → ω → Evaluation ω

/-- The value of a sample; zero for one that has not been computed. -/
def valueOf (values : List Binary32) (sample : Nat) : Binary32 := values.getD sample 0

/-- The network values each sample by `value` alone: it never fails, never asks to stop, and what
else is in the batch or in the world does not matter. -/
def Network.IsPointwise {ω : Type} (network : Network ω) (value : List Plane → Binary32) : Prop :=
  ∀ batch world, (network.evaluate batch world).outcome = .ok (batch.map value) ∧
    (network.evaluate batch world).stopRequested = false

end SelfPlay
