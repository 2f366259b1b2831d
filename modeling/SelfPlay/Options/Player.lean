import SelfPlay.EvalCache
import SelfPlay.Network
import SelfPlay.Options.SelfPlayOptions
import SelfPlay.Search.Report
import SelfPlay.Search.Stopper

/-!
# Players
-/

namespace SelfPlay

open SelfPlay.Numeric

structure Player (ω M : Type) where
  network : Network ω
  /-- All options, those that only the search engine reads included. -/
  options : OptionsDict
  limits : SearchLimits
  cache : EvalCache
  callbacks : Callbacks ω M

namespace Player

def ofNetwork {ω M : Type} (network : Network ω) : Player ω M where
  network := network
  options := .empty
  limits := .none
  cache := .empty EvalCache.defaultCapacity
  callbacks := .silent ω M

/-- The options that self-play reads, if they are well-formed and in range. -/
def selfPlayOptions {ω M : Type} (player : Player ω M) : Except Error (SelfPlayOptions Binary32) :=
  SelfPlayOptions.ofDict player.options

end Player

end SelfPlay
