import SelfPlay.Network
import SelfPlay.TicTacToe.Stones

/-!
# A network that counts open lines

A line is open for a side that has a stone on it while the other side has none. The value of a
position is the difference of the open lines, in eighths; only the two planes of the current
position are looked at.
-/

namespace SelfPlay.TicTacToe

open SelfPlay.Numeric

/-- The number of lines open for `ours` against `theirs`. -/
def openLines (ours theirs : Stones) : Nat :=
  Stones.lines.countP fun line => line &&& theirs == 0 && line &&& ours != 0

/-- The value for the side to move, given its stones and its opponent's. -/
def openLineValue (ours theirs : Stones) : Binary32 :=
  Binary32.ofInt ((openLines ours theirs : Int) - openLines theirs ours) / 8

/-- The stones on a plane; none if it is missing. -/
def stonesOn (plane : Option Plane) : Stones :=
  match plane with
  | none => 0
  | some plane => BitVec.ofNat 9 plane.mask.toNat

def heuristicValue (planes : List Plane) : Binary32 :=
  openLineValue (stonesOn planes[0]?) (stonesOn planes[1]?)

/-- The network, which needs nothing from its world. -/
def heuristicNetwork (ω : Type) : Network ω where
  format := .classical
  evaluate batch world := ⟨.ok (batch.map heuristicValue), false, world⟩

theorem heuristicNetwork_isPointwise (ω : Type) :
    (heuristicNetwork ω).IsPointwise heuristicValue := fun _ _ => ⟨rfl, rfl⟩

end SelfPlay.TicTacToe
