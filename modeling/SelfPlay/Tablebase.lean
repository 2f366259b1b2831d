import SelfPlay.Board

/-!
# Tablebases

A tablebase knows the outcome of positions with few pieces. It is asked about a position only if
nobody may castle there and the pieces are few enough, and an answer that failed decides nothing.
-/

namespace SelfPlay

/-- The outcome for the side to move. -/
inductive Wdl where
  | loss
  /-- A loss that the move limit turns into a draw. -/
  | blessedLoss
  | draw
  /-- A win that the move limit turns into a draw. -/
  | cursedWin
  | win
deriving DecidableEq, Repr

/-- How a probe went. -/
inductive ProbeState where
  /-- The outcome is not known. -/
  | fail
  /-- The outcome is right. -/
  | ok
  /-- The outcome is right for the other side to move. -/
  | changeSide
  /-- The outcome is right and the best move resets the move limit. -/
  | zeroing
deriving DecidableEq, Repr

/-- A tablebase for positions `P` in a world `ω`. -/
structure Tablebase (ω P : Type) where
  /-- The greatest number of pieces it covers. -/
  maxPieces : Nat
  probe : P → ω → (Wdl × ProbeState) × ω

/-- The result of a game whose side to move has the given outcome. -/
def Wdl.toResult (outcome : Wdl) (side : Color) : GameResult :=
  match outcome with
  | .win => .won side
  | .loss => .lost side
  | .draw | .cursedWin | .blessedLoss => .draw

namespace Tablebase

variable {ω P M : Type} [Board P M]

/-- Whether a position is one to ask about. -/
def covers (tablebase : Tablebase ω P) (position : P) : Bool :=
  Board.noLegalCastle position && decide (Board.pieceCount position ≤ tablebase.maxPieces)

/-- The result that a probe's answer gives, if it gives one. -/
def verdict (side : Color) : Wdl × ProbeState → Option GameResult
  | (_, .fail) => none
  | (outcome, _) => some (outcome.toResult side)

/-- Asks about a position that is covered. -/
def adjudicate (tablebase : Tablebase ω P) (position : P) (world : ω) : Option GameResult × ω :=
  if tablebase.covers position then
    let (answer, world) := tablebase.probe position world
    (verdict (Board.sideToMove position) answer, world)
  else (none, world)

/-- The answers depend on the position alone. -/
def IsFixed (tablebase : Tablebase ω P) (answer : P → Wdl × ProbeState) : Prop :=
  ∀ position world, (tablebase.probe position world).1 = answer position

end Tablebase

end SelfPlay
