/-!
# Which game begins with which opening
-/

namespace SelfPlay.Command

/-- Openings in turn: game number `i` begins with opening `i` modulo their number. -/
def inTurn (openings games : Nat) : List Nat := (List.range games).map (· % openings)

/-- A generator of random choices, by its states. -/
structure Generator (ρ : Type) where
  /-- The state that a seed stands for. -/
  ofSeed : Nat → ρ
  /-- The state to begin with if no seed is given. -/
  unseeded : ρ
  /-- One of so many things by its index, if there is any, and the state after the choice. -/
  choose : Nat → ρ → Option Nat × ρ

/-- Openings drawn one after the other, beginning in a state of the generator. -/
def drawn {ρ : Type} (generator : Generator ρ) (openings : Nat) : Nat → ρ → List Nat
  | 0, _ => []
  | games + 1, state =>
    let (choice, state) := generator.choose openings state
    choice.getD 0 :: drawn generator openings games state

/-- Openings in turn, or drawn at random. -/
def assignOpenings {ρ : Type} (generator : Generator ρ) (openings games : Nat) (random : Bool)
    (seed : Option Nat) : List Nat :=
  if random then
    drawn generator openings games ((seed.map generator.ofSeed).getD generator.unseeded)
  else inTurn openings games

theorem length_inTurn (openings games : Nat) : (inTurn openings games).length = games := by
  simp [inTurn]

end SelfPlay.Command
