import SelfPlay.Text.Numeral

/-!
# Asking a game to stop

A request is remembered for good. While a search is in flight it is passed on to that search at
once.
-/

namespace SelfPlay

/-- Whether a stop was asked for, and how to tell the search that is running. -/
structure AbortState (ω : Type) where
  /-- Whether a stop was asked for. -/
  requested : Bool
  /-- How to tell the search in flight, if one is. -/
  inFlight : Option (ω → ω)

namespace AbortState

variable {ω : Type}

/-- Nothing asked for and nothing in flight. -/
def idle : AbortState ω := ⟨false, none⟩

def request (state : AbortState ω) (world : ω) : AbortState ω × ω :=
  ({ state with requested := true },
    match state.inFlight with
    | none => world
    | some tell => tell world)

/-- Asks for a stop if `wanted`. -/
def requestIf (wanted : Bool) (state : AbortState ω) (world : ω) : AbortState ω × ω :=
  if wanted then state.request world else (state, world)

/-- A search is in flight that can be told by `tell`. -/
def launch (tell : ω → ω) (state : AbortState ω) : AbortState ω :=
  { state with inFlight := some tell }

/-- No search is in flight. -/
def land (state : AbortState ω) : AbortState ω := { state with inFlight := none }

def describe (state : AbortState ω) : String :=
  "AbortHandle \x7b aborted: " ++ Text.ofBool state.requested ++ " \x7d"

end AbortState

end SelfPlay
