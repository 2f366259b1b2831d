import SelfPlay.Error

/-!
# How a call to play ends
-/

namespace SelfPlay

/-- Why play came to rest. -/
inductive PlayEnd where
  /-- Nothing was left to do, or a stop was asked for. -/
  | finished
  /-- A network, an engine or its factory failed. -/
  | failed (error : Error)
  /-- The rounds that were allowed were used up. -/
  | cutShort
deriving DecidableEq, Repr

end SelfPlay
