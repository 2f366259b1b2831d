/-!
# Openings
-/

namespace SelfPlay

/-- Where a game begins: a start position and moves that are forced before self-play takes over. -/
structure Opening (M : Type) where
  fen : String
  /-- The forced moves as seen on the board. -/
  moves : List M
deriving DecidableEq, Repr

end SelfPlay
