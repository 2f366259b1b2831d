import SelfPlay.Search.BestEval
import SelfPlay.Tree.GameTree

/-!
# Training samples

A sample shows one searched position, the share of visits that each move got there, and the
evaluation of the best move. The result and the number of moves left are filled in when the game is
over.
-/

namespace SelfPlay

open SelfPlay.Numeric

/-- A move's share of the visits. -/
structure PolicyEntry (R : Type) where
  /-- The move as seen on the board. -/
  move : String
  probability : R
deriving DecidableEq, Repr

structure TrainingSample (R : Type) where
  version : Nat
  format : InputFormat
  planes : List UInt64
  policy : List (PolicyEntry R)
  /-- In the classical format, one for black to move. -/
  sideByte : UInt8
  /-- The symmetry applied; in the canonical format with the highest bit set for black to move. -/
  invariance : UInt8
  /-- The points of the side to move at the end of the game. -/
  result : Int
  /-- The expected score. -/
  q : R
  /-- The probability of a draw. -/
  d : R
  /-- The expected number of moves left. -/
  m : R
  /-- The number of moves left at the end of the game. -/
  pliesLeft : R
  visits : Nat
deriving DecidableEq, Repr

namespace TrainingSample

def currentVersion : Nat := 1

/-- The number of positions of a game that a sample shows. -/
def historyPlanes : Nat := 8

/-- The bit of `invariance` that tells the side to move in the canonical format. -/
def sideBit : UInt8 := 0x80

variable {R : Type} [Scalar R]

/-- The share of visits in a total; zero of no visits at all. -/
def share (visits total : Nat) : R :=
  if total = 0 then Scalar.zero else Scalar.ofNat visits / Scalar.ofNat total

/-- The bytes that tell the side to move and the symmetry. -/
def sideBytes (format : InputFormat) (side : Color) (transform : Nat) : UInt8 × UInt8 :=
  match format with
  | .classical => (if side.isBlack then 1 else 0, UInt8.ofNat transform)
  | .canonical => (0, UInt8.ofNat transform ||| if side.isBlack then sideBit else 0)

/-- The sample of a searched position, before the game is over. -/
def ofTree {P M : Type} [BoardMove M] [Board P M] (tree : GameTree P M) (format : InputFormat)
    (fill : HistoryFill) (eval : BestEval R) : TrainingSample R :=
  let side := tree.record.sideToMove
  let encoded := tree.record.history.encode format historyPlanes fill
  let total := tree.head.totalVisits
  let (sideByte, invariance) := sideBytes format side encoded.transform
  { version := currentVersion
    format := format
    planes := encoded.planes.map (·.mask)
    policy := tree.head.edges.map fun edge =>
      ⟨BoardMove.text (BoardMove.relativeTo edge.move side), share edge.visits total⟩
    sideByte := sideByte
    invariance := invariance
    result := 0
    q := eval.wl
    d := eval.d
    m := eval.ml
    pliesLeft := Scalar.zero
    visits := total }

/-- The side to move in the sample's position. -/
def sideToMove (sample : TrainingSample R) : Color :=
  let black := match sample.format with
    | .classical => sample.sideByte != 0
    | .canonical => sample.invariance &&& sideBit != 0
  if black then .black else .white

/-- Fills in the result and counts the moves left down from `pliesLeft`. -/
def countDown (result : GameResult) (pliesLeft : R) :
    List (TrainingSample R) → List (TrainingSample R)
  | [] => []
  | sample :: rest =>
    { sample with pliesLeft := pliesLeft, result := result.score sample.sideToMove } ::
      countDown result (pliesLeft - Scalar.one) rest

/-- The samples of a game that is over, in the order of its moves. The last one keeps its own
estimate of the moves left, and each earlier one has one move more. -/
def finalize (result : GameResult) (samples : List (TrainingSample R)) :
    List (TrainingSample R) :=
  match samples.getLast? with
  | none => []
  | some last =>
    countDown result (last.m + Scalar.ofNat samples.length - Scalar.one) samples

end TrainingSample

end SelfPlay
