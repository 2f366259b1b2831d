/-!
# The two sides
-/

namespace SelfPlay

/-- A side. White moves first. -/
inductive Color where
  | white
  | black
deriving DecidableEq, Repr, Inhabited

namespace Color

/-- The side to move after `ply` moves from the start of a game. -/
def ofPly (ply : Nat) : Color := if ply % 2 = 1 then .black else .white

def opponent : Color → Color
  | .white => .black
  | .black => .white

def isBlack : Color → Bool
  | .white => false
  | .black => true

/-- The side's place in a list that has white first. -/
def index : Color → Nat
  | .white => 0
  | .black => 1

def label : Color → String
  | .white => "white"
  | .black => "black"

@[simp] theorem opponent_opponent (c : Color) : c.opponent.opponent = c := by cases c <;> rfl

theorem opponent_ne (c : Color) : c.opponent ≠ c := by cases c <;> simp [opponent]

theorem eq_or_eq_opponent (side other : Color) : side = other ∨ side = other.opponent := by
  cases side <;> cases other <;> simp [opponent]

/-- The sides alternate. -/
theorem ofPly_succ (ply : Nat) : ofPly (ply + 1) = (ofPly ply).opponent := by
  simp only [ofPly]
  rcases Nat.mod_two_eq_zero_or_one ply with h | h
  · have odd : (ply + 1) % 2 = 1 := by omega
    simp [h, odd, opponent]
  · have even : (ply + 1) % 2 = 0 := by omega
    simp [h, even, opponent]

end Color

/-- One value for each side. -/
structure PerSide (α : Type) where
  white : α
  black : α
deriving DecidableEq, Repr

namespace PerSide

variable {α β : Type}

def get (values : PerSide α) : Color → α
  | .white => values.white
  | .black => values.black

def set (values : PerSide α) (side : Color) (value : α) : PerSide α :=
  match side with
  | .white => { values with white := value }
  | .black => { values with black := value }

/-- Both values changed in the same way. -/
def map (f : α → β) (values : PerSide α) : PerSide β := ⟨f values.white, f values.black⟩

@[simp] theorem get_set_self (values : PerSide α) (side : Color) (value : α) :
    (values.set side value).get side = value := by cases side <;> rfl

theorem get_set_of_ne (values : PerSide α) {side other : Color} (value : α) (h : other ≠ side) :
    (values.set side value).get other = values.get other := by
  cases side <;> cases other <;> simp_all [get, set]

@[simp] theorem get_map (f : α → β) (values : PerSide α) (side : Color) :
    (values.map f).get side = f (values.get side) := by cases side <;> rfl

end PerSide

end SelfPlay
