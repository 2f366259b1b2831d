import SelfPlay.Lookahead.Choice
import SelfPlay.Proofs.Numeric.Order

/-!
# The last greatest value

A choice among numbers falls on the last of the greatest ones. A value that is no number makes the
choice forget everything before it: the choice is then made among what follows, or falls on that
value if nothing does.
-/

namespace SelfPlay.Lookahead

open SelfPlay.Numeric

/-- The best so far is kept, or one of the values takes its place. -/
theorem bestFrom_eq_or_getElem? (best : Nat × Binary32) (index : Nat) (values : List Binary32) :
    bestFrom best index values = best ∨
      ∃ j, (bestFrom best index values).1 = index + j ∧
        values[j]? = some (bestFrom best index values).2 := by
  induction values generalizing best index with
  | nil => exact Or.inl rfl
  | cons value rest ih =>
    rw [bestFrom]
    rcases ih (if value.lt best.2 then best else (index, value)) (index + 1) with h | ⟨j, hj, hget⟩
    · rw [h]
      split
      · exact Or.inl rfl
      · exact Or.inr ⟨0, rfl, rfl⟩
    · exact Or.inr ⟨j + 1, by omega, by simpa using hget⟩

theorem selectBest_eq_none_iff (values : List Binary32) : selectBest values = none ↔ values = [] := by
  cases values <;> simp [selectBest]

theorem lt_length_of_selectBest {values : List Binary32} {i : Nat}
    (h : selectBest values = some i) : i < values.length := by
  cases values with
  | nil => simp [selectBest] at h
  | cons value rest =>
    obtain rfl := Option.some.inj h
    rcases bestFrom_eq_or_getElem? (0, value) 1 rest with hbest | ⟨j, hj, hget⟩
    · rw [hbest]
      simp
    · have hlt := (List.getElem?_eq_some_iff.mp hget).1
      rw [hj, List.length_cons]
      omega

/-- `chosen` has the number `j` in the list, nothing there is greater, and what comes after it is
less. -/
structure IsLastGreatest (values : List Binary32) (j : Nat) (chosen : Binary32) : Prop where
  getElem?_eq : values[j]? = some chosen
  key_le : ∀ value ∈ values, value.key ≤ chosen.key
  key_lt : ∀ k value, j < k → values[k]? = some value → value.key < chosen.key

theorem IsLastGreatest.singleton (value : Binary32) : IsLastGreatest [value] 0 value := by
  refine ⟨rfl, by simp, ?_⟩
  intro k other hk hother
  rw [List.getElem?_eq_none (by rw [List.length_singleton]; omega)] at hother
  cases hother

/-- A value that is no greater may be put in front. -/
theorem IsLastGreatest.cons {values : List Binary32} {j : Nat} {chosen value : Binary32}
    (h : IsLastGreatest values j chosen) (hle : value.key ≤ chosen.key) :
    IsLastGreatest (value :: values) (j + 1) chosen := by
  refine ⟨by simpa using h.getElem?_eq, List.forall_mem_cons.mpr ⟨hle, h.key_le⟩, ?_⟩
  intro k other hk hother
  cases k with
  | zero => omega
  | succ k => exact h.key_lt k other (by omega) (by simpa using hother)

/-- A value that is less than the first may be put behind it. -/
theorem IsLastGreatest.insert {best value chosen : Binary32} {rest : List Binary32} {j : Nat}
    (h : IsLastGreatest (best :: rest) j chosen) (hlt : value.key < best.key) :
    IsLastGreatest (best :: value :: rest) (if j = 0 then 0 else j + 1) chosen := by
  have hbest : best.key ≤ chosen.key := h.key_le best List.mem_cons_self
  have hrest : ∀ other ∈ rest, other.key ≤ chosen.key :=
    fun other hmem => h.key_le other (List.mem_cons_of_mem _ hmem)
  refine ⟨?_, List.forall_mem_cons.mpr ⟨hbest, List.forall_mem_cons.mpr ⟨by omega, hrest⟩⟩, ?_⟩
  · cases j with
    | zero => simpa using h.getElem?_eq
    | succ j => simpa using h.getElem?_eq
  · intro k other hk hother
    match k with
    | 0 => split at hk <;> omega
    | 1 =>
      obtain rfl : value = other := by simpa using hother
      omega
    | k + 2 =>
      exact h.key_lt (k + 1) other (by split at hk <;> omega) (by simpa using hother)

/-- Among numbers a last greatest one of the best so far and of those to come is found. -/
theorem bestFrom_of_isNumber {best : Nat × Binary32} {values : List Binary32} (index : Nat)
    (hbest : best.2.isNaN = false) (hvalues : ∀ value ∈ values, value.isNaN = false) :
    ∃ j chosen, IsLastGreatest (best.2 :: values) j chosen ∧
      bestFrom best index values = (if j = 0 then best.1 else index + (j - 1), chosen) := by
  induction values generalizing best index with
  | nil => exact ⟨0, best.2, .singleton best.2, rfl⟩
  | cons value rest ih =>
    obtain ⟨hvalue, hrest⟩ := List.forall_mem_cons.mp hvalues
    rw [bestFrom]
    by_cases hlt : value.lt best.2 = true
    · rw [if_pos hlt]
      obtain ⟨j, chosen, hlast, heq⟩ := ih (index + 1) hbest hrest
      refine ⟨_, chosen, hlast.insert ((Binary32.lt_iff_key_lt hvalue hbest).mp hlt), ?_⟩
      rw [heq]
      cases j with
      | zero => rfl
      | succ j => simp [Nat.add_comm, Nat.add_left_comm]
    · rw [if_neg hlt]
      obtain ⟨j, chosen, hlast, heq⟩ := @ih (index, value) (index + 1) hvalue hrest
      have hle : best.2.key ≤ chosen.key := by
        have hchosen := hlast.key_le value List.mem_cons_self
        rw [Binary32.lt_iff_key_lt hvalue hbest] at hlt
        omega
      refine ⟨j + 1, chosen, hlast.cons hle, ?_⟩
      rw [heq]
      cases j with
      | zero => rfl
      | succ j => simp [Nat.add_comm, Nat.add_left_comm]

/-- Of numbers the last greatest one is chosen. -/
theorem selectBest_of_isNumber {values : List Binary32} (hne : values ≠ [])
    (hvalues : ∀ value ∈ values, value.isNaN = false) :
    ∃ j chosen, selectBest values = some j ∧ IsLastGreatest values j chosen := by
  cases values with
  | nil => exact absurd rfl hne
  | cons first rest =>
    obtain ⟨hfirst, hrest⟩ := List.forall_mem_cons.mp hvalues
    obtain ⟨j, chosen, hlast, heq⟩ := @bestFrom_of_isNumber (0, first) rest 1 hfirst hrest
    refine ⟨j, chosen, ?_, hlast⟩
    rw [selectBest, heq]
    cases j with
    | zero => rfl
    | succ j => simp [Nat.add_comm]

theorem IsLastGreatest.unique {values : List Binary32} {i j : Nat} {first second : Binary32}
    (hi : IsLastGreatest values i first) (hj : IsLastGreatest values j second) : i = j := by
  have hfirst := hj.key_le first (List.mem_of_getElem? hi.getElem?_eq)
  have hsecond := hi.key_le second (List.mem_of_getElem? hj.getElem?_eq)
  rcases Nat.lt_trichotomy i j with hlt | heq | hgt
  · have hkey := hi.key_lt j second hlt hj.getElem?_eq
    omega
  · exact heq
  · have hkey := hj.key_lt i first hgt hi.getElem?_eq
    omega

/-- Of numbers nothing but the last greatest one is chosen. -/
theorem selectBest_eq_some_iff_of_isNumber {values : List Binary32}
    (hvalues : ∀ value ∈ values, value.isNaN = false) {i : Nat} :
    selectBest values = some i ↔ ∃ chosen, IsLastGreatest values i chosen := by
  constructor
  · intro h
    have hne : values ≠ [] := by
      rintro rfl
      cases h
    obtain ⟨j, chosen, hj, hlast⟩ := selectBest_of_isNumber hne hvalues
    obtain rfl := Option.some.inj (h.symm.trans hj)
    exact ⟨chosen, hlast⟩
  · rintro ⟨chosen, hlast⟩
    have hne : values ≠ [] := by
      rintro rfl
      cases hlast.getElem?_eq
    obtain ⟨j, other, hj, hother⟩ := selectBest_of_isNumber hne hvalues
    rw [hj, hlast.unique hother]

/-! ## Values that are no numbers -/

theorem bestFrom_append (best : Nat × Binary32) (index : Nat) (values rest : List Binary32) :
    bestFrom best index (values ++ rest) =
      bestFrom (bestFrom best index values) (index + values.length) rest := by
  induction values generalizing best index with
  | nil => rfl
  | cons value values ih =>
    rw [List.cons_append, bestFrom, ih, bestFrom, List.length_cons, Nat.add_right_comm,
      Nat.add_assoc]

/-- Numbering the values from further on numbers the choice from there. -/
theorem bestFrom_add (shift : Nat) (best : Nat × Binary32) (index : Nat) (values : List Binary32) :
    bestFrom (shift + best.1, best.2) (shift + index) values =
      (shift + (bestFrom best index values).1, (bestFrom best index values).2) := by
  induction values generalizing best index with
  | nil => rfl
  | cons value rest ih =>
    rw [bestFrom, bestFrom, Nat.add_assoc]
    split
    · exact ih best (index + 1)
    · exact ih (index, value) (index + 1)

/-- **Behind a value that is no number the choice begins anew.** -/
theorem selectBest_append {nan : Binary32} (h : nan.isNaN = true) (before after : List Binary32) :
    selectBest (before ++ nan :: after) =
      match selectBest after with
      | none => some before.length
      | some j => some (before.length + 1 + j) := by
  -- the value takes the place of every choice made before it
  have hreached : selectBest (before ++ nan :: after) =
      some (bestFrom (before.length, nan) (before.length + 1) after).1 := by
    cases before with
    | nil => rfl
    | cons first rest =>
      rw [List.cons_append, selectBest, bestFrom_append, bestFrom,
        Binary32.lt_eq_false_of_isNaN (Or.inl h), List.length_cons, Nat.add_comm 1]
      rfl
  rw [hreached]
  cases after with
  | nil => rfl
  | cons value rest =>
    -- and what comes next takes its place
    have hshift : bestFrom (before.length + 1, value) (before.length + 1 + 1) rest =
        (before.length + 1 + (bestFrom (0, value) 1 rest).1, (bestFrom (0, value) 1 rest).2) :=
      bestFrom_add (before.length + 1) (0, value) 1 rest
    rw [bestFrom, Binary32.lt_eq_false_of_isNaN (Or.inr h), if_neg Bool.false_ne_true, hshift]
    rfl

/-- The last value that is no number stands between `before` and the numbers `after`. -/
structure HasLastNaN (values before : List Binary32) (nan : Binary32) (after : List Binary32) :
    Prop where
  eq : values = before ++ nan :: after
  isNaN : nan.isNaN = true
  isNumber : ∀ value ∈ after, value.isNaN = false

theorem exists_hasLastNaN {values : List Binary32} (h : ∃ value ∈ values, value.isNaN = true) :
    ∃ before nan after, HasLastNaN values before nan after := by
  obtain ⟨value, hmem, hvalue⟩ := h
  obtain ⟨nan, hnan⟩ := Option.isSome_iff_exists.mp
    (List.find?_isSome.mpr ⟨value, List.mem_reverse.mpr hmem, hvalue⟩)
  obtain ⟨hisNaN, after, before, hreverse, hafter⟩ := List.find?_eq_some_iff_append.mp hnan
  refine ⟨before.reverse, nan, after.reverse, ?_, hisNaN, fun value hvalue => ?_⟩
  · rw [← List.reverse_reverse values, hreverse]
    simp
  · simpa using hafter value (List.mem_reverse.mp hvalue)

/-- **Which value is chosen**: none if there are none; of numbers the last greatest one, where the
two zeros are equally great; and if there are values that are no numbers, the last of these if
nothing follows it, and otherwise the last greatest of the numbers that follow it. So no value
before it is chosen, however great. -/
theorem selectBest_determined (values : List Binary32) :
    (selectBest values = none ↔ values = []) ∧
    ((∀ value ∈ values, value.isNaN = false) →
      ∀ i, selectBest values = some i ↔ ∃ chosen, IsLastGreatest values i chosen) ∧
    ((∃ value ∈ values, value.isNaN = true) →
      ∃ before nan after, HasLastNaN values before nan after) ∧
    ∀ before nan after, HasLastNaN values before nan after →
      (after = [] → selectBest values = some before.length) ∧
      (after ≠ [] → ∀ i, selectBest values = some i ↔
        ∃ j chosen, i = before.length + 1 + j ∧ IsLastGreatest after j chosen) ∧
      ∀ i < before.length, selectBest values ≠ some i := by
  refine ⟨selectBest_eq_none_iff values,
    fun hvalues _ => selectBest_eq_some_iff_of_isNumber hvalues, exists_hasLastNaN, ?_⟩
  rintro before nan after ⟨rfl, hnan, hafter⟩
  have hbehind := selectBest_append hnan before after
  cases hchosen : selectBest after with
  | none =>
    rw [hchosen] at hbehind
    refine ⟨fun _ => hbehind, fun hne => absurd ((selectBest_eq_none_iff after).mp hchosen) hne, ?_⟩
    intro i hi hsome
    obtain rfl := Option.some.inj (hbehind.symm.trans hsome)
    exact absurd hi (Nat.lt_irrefl _)
  | some j =>
    rw [hchosen] at hbehind
    obtain ⟨chosen, hlast⟩ := (selectBest_eq_some_iff_of_isNumber hafter).mp hchosen
    refine ⟨?_, fun _ i => ⟨fun hsome => ?_, ?_⟩, fun i hi hsome => ?_⟩
    · rintro rfl
      cases hchosen
    · obtain rfl := Option.some.inj (hbehind.symm.trans hsome)
      exact ⟨j, chosen, rfl, hlast⟩
    · rintro ⟨k, other, rfl, hother⟩
      rw [hbehind, hlast.unique hother]
    · obtain rfl := Option.some.inj (hbehind.symm.trans hsome)
      omega

/-- A certain win before a value that is no number is passed over, and of the zeros behind it, which
are equally great, the last is chosen. -/
theorem win_before_nan_passed_over :
    HasLastNaN [1, .nan, .infinity true, .zero false, .zero true] [1] .nan
      [.infinity true, .zero false, .zero true] ∧
    selectBest [1, .nan, .infinity true, .zero false, .zero true] = some 4 := by
  have hnan : HasLastNaN [1, .nan, .infinity true, .zero false, .zero true] [1] .nan
      [.infinity true, .zero false, .zero true] := ⟨rfl, by decide, by decide⟩
  obtain ⟨-, -, -, hbehind⟩ :=
    selectBest_determined [1, .nan, .infinity true, .zero false, .zero true]
  obtain ⟨-, hchosen, -⟩ := hbehind _ _ _ hnan
  refine ⟨hnan, (hchosen (List.cons_ne_nil _ _) 4).mpr ⟨2, .zero true, rfl, rfl, by decide, ?_⟩⟩
  intro k value hk hvalue
  rw [List.getElem?_eq_none hk] at hvalue
  cases hvalue

end SelfPlay.Lookahead
