import Mathlib.Data.List.Nodup
import SelfPlay.EvalCache

/-!
# A cache forgets first what came first

A cache keeps its evaluations by key and its keys by age, in two structures that have to agree. What it
stands for is one list of keys with their evaluations, oldest key first (`AgedEvals`). Each operation on
a cache is an operation on that list, so that nobody who only asks can tell the two apart, and the keys
by age are those of the evaluations, none of them twice. A stale key among them would later push out an
evaluation that is not the oldest.
-/

namespace SelfPlay

/-- Evaluations with their keys, oldest key first. -/
abbrev AgedEvals := List (UInt64 × CachedEval)

namespace AgedEvals

def keys (pairs : AgedEvals) : List UInt64 := pairs.map (·.1)

/-- The list with a key's evaluation replaced where it stands. -/
def replace (pairs : AgedEvals) (key : UInt64) (eval : CachedEval) : AgedEvals :=
  pairs.map fun pair => if pair.1 = key then (key, eval) else pair

/-- The list with an evaluation stored: where the key stands if it is present; otherwise behind all
others, and without the oldest if that makes too many. -/
def insert (capacity : Nat) (pairs : AgedEvals) (key : UInt64) (eval : CachedEval) : AgedEvals :=
  if key ∈ pairs.keys then pairs.replace key eval
  else
    let longer := pairs ++ [(key, eval)]
    if capacity < longer.length then longer.tail else longer

end AgedEvals

/-- What is done with a cache. -/
inductive CacheAct where
  | insert (key : UInt64) (eval : CachedEval)
  | lookup (key : UInt64)
  | size
  | isEmpty
  | clear

/-- What comes back. -/
inductive CacheAnswer where
  | done
  | found (eval? : Option CachedEval)
  | size (count : Nat)
  | isEmpty (empty : Bool)
deriving DecidableEq

def EvalCache.act (cache : EvalCache) : CacheAct → CacheAnswer × EvalCache
  | .insert key eval => (.done, cache.insert key eval)
  | .lookup key => (.found (cache.find? key), cache)
  | .size => (.size cache.size, cache)
  | .isEmpty => (.isEmpty cache.isEmpty, cache)
  | .clear => (.done, cache.clear)

def AgedEvals.act (capacity : Nat) (pairs : AgedEvals) : CacheAct → CacheAnswer × AgedEvals
  | .insert key eval => (.done, pairs.insert capacity key eval)
  | .lookup key => (.found (pairs.lookup key), pairs)
  | .size => (.size pairs.length, pairs)
  | .isEmpty => (.isEmpty pairs.isEmpty, pairs)
  | .clear => (.done, [])

/-- The answers to acts, in order, and what is there after the last of them. -/
def conversation {σ : Type} (act : σ → CacheAct → CacheAnswer × σ) (start : σ) :
    List CacheAct → List CacheAnswer × σ
  | [] => ([], start)
  | first :: rest =>
    let (answer, next) := act start first
    let (answers, last) := conversation act next rest
    (answer :: answers, last)

section Queues

variable {α : Type} {queue : Std.Queue α} {next : α} {rest : List α}

theorem queued_enqueue (queue : Std.Queue α) (last : α) :
    queued (queue.enqueue last) = queued queue ++ [last] := by
  simp [queued, Std.Queue.enqueue]

theorem queued_of_dequeue?_eq_none (h : queue.dequeue? = none) : queued queue = [] := by
  unfold Std.Queue.dequeue? at h
  unfold queued
  split at h
  · cases h
  · rename_i hready
    split at h
    · rename_i hwaiting
      rw [hready, hwaiting, List.nil_append]
    · cases h

theorem exists_dequeue? (h : queued queue = next :: rest) :
    ∃ remaining, queue.dequeue? = some (next, remaining) ∧ queued remaining = rest := by
  cases hdequeue : queue.dequeue? with
  | none =>
    rw [queued_of_dequeue?_eq_none hdequeue] at h
    cases h
  | some found =>
    obtain ⟨first, remaining⟩ := found
    rw [queued_of_dequeue? hdequeue] at h
    cases h
    exact ⟨remaining, rfl, rfl⟩

end Queues

namespace AgedEvals

variable {pairs : AgedEvals} {capacity : Nat} {key other : UInt64} {eval : CachedEval}

theorem lookup_cons (pair : UInt64 × CachedEval) (rest : AgedEvals) (key : UInt64) :
    (pair :: rest).lookup key = if pair.1 = key then some pair.2 else rest.lookup key := by
  obtain ⟨first, eval⟩ := pair
  by_cases hkey : first = key
  · simp [hkey]
  · have hother : (key == first) = false := by simpa using fun hsame => hkey hsame.symm
    simp [List.lookup_cons, hkey, hother]

theorem isSome_lookup : (pairs.lookup key).isSome = true ↔ key ∈ pairs.keys := by
  rw [List.lookup_isSome_iff, keys, List.mem_map]
  exact exists_congr fun pair => and_congr_right fun _ => by rw [beq_iff_eq, eq_comm]

theorem lookup_eq_none (h : key ∉ pairs.keys) : pairs.lookup key = none := by
  rw [← Option.not_isSome_iff_eq_none, isSome_lookup]
  exact h

theorem keys_replace (pairs : AgedEvals) (key : UInt64) (eval : CachedEval) :
    (pairs.replace key eval).keys = pairs.keys := by
  unfold keys replace
  rw [List.map_map]
  refine List.map_congr_left fun pair _ => ?_
  by_cases hkey : pair.1 = key <;> simp [hkey]

/-- Replacing an evaluation changes what is found under its key only. -/
theorem lookup_replace (pairs : AgedEvals) (key other : UInt64) (eval : CachedEval) :
    (pairs.replace key eval).lookup other =
      (pairs.lookup other).map fun old => if key = other then eval else old := by
  induction pairs with
  | nil => rfl
  | cons pair rest ih =>
    rw [replace, List.map_cons, lookup_cons, lookup_cons, ← replace, ih]
    by_cases hfirst : pair.1 = key
    · by_cases hother : key = other <;> simp [hfirst, hother]
    · rw [if_neg hfirst]
      by_cases hother : pair.1 = other
      · have hkey : key ≠ other := fun hsame => hfirst (hother.trans hsame.symm)
        simp [hother, hkey]
      · simp [hother]

theorem insert_of_mem (h : key ∈ pairs.keys) :
    pairs.insert capacity key eval = pairs.replace key eval := if_pos h

/-- A new key goes to the end, and the oldest ones go that there is no room for. -/
theorem insert_of_notMem (h : key ∉ pairs.keys) (hfits : pairs.length ≤ capacity) :
    pairs.insert capacity key eval =
      (pairs ++ [(key, eval)]).drop ((pairs ++ [(key, eval)]).length - capacity) := by
  rw [insert, if_neg h]
  simp only
  rw [List.length_append, List.length_singleton]
  split
  · have hexcess : pairs.length + 1 - capacity = 1 := by omega
    rw [hexcess, List.drop_one]
  · have hexcess : pairs.length + 1 - capacity = 0 := by omega
    rw [hexcess, List.drop_zero]

theorem length_insert_le (hfits : pairs.length ≤ capacity) :
    (pairs.insert capacity key eval).length ≤ capacity := by
  by_cases hmem : key ∈ pairs.keys
  · rw [insert_of_mem hmem, replace, List.length_map]
    exact hfits
  · rw [insert_of_notMem hmem hfits, List.length_drop]
    omega

/-- No key goes but the oldest. -/
theorem mem_keys_insert (hfits : pairs.length ≤ capacity) (hmem : other ∈ pairs.keys) :
    other ∈ (pairs.insert capacity key eval).keys ∨ pairs.keys.head? = some other := by
  by_cases hkey : key ∈ pairs.keys
  · rw [insert_of_mem hkey, keys_replace]
    exact .inl hmem
  · cases pairs with
    | nil => cases hmem
    | cons oldest rest =>
      rcases List.mem_cons.mp hmem with holdest | hrest
      · exact .inr (by rw [keys, List.map_cons, List.head?_cons, holdest])
      · refine .inl ?_
        have hlonger : other ∈ keys (rest ++ [(key, eval)]) := by
          rw [keys, List.map_append]
          exact List.mem_append_left _ hrest
        rw [insert, if_neg hkey]
        simp only
        split
        · exact hlonger
        · exact List.mem_cons_of_mem _ hlonger

end AgedEvals

namespace EvalCache

variable {cache : EvalCache} {pairs : AgedEvals} {capacity : Nat}

theorem evict_of_le (h : cache.size ≤ cache.capacity) : cache.evict = cache := by
  rw [evict, if_neg (Nat.not_lt.mpr h)]

theorem evict_of_dequeue? (h : cache.capacity < cache.size) {oldest : UInt64}
    {order : Std.Queue UInt64} (hnext : cache.order.dequeue? = some (oldest, order)) :
    cache.evict = evict { cache with entries := cache.entries.erase oldest, order := order } := by
  rw [evict, if_pos h]
  split
  · rename_i hnone
    rw [hnext] at hnone
    cases hnone
  · rename_i hsome
    rw [hnext] at hsome
    cases hsome
    rfl

/-- The cache stands for a list: it has the list's keys by age, each once, and finds what the list
finds. -/
structure Holds (cache : EvalCache) (pairs : AgedEvals) : Prop where
  order_eq : queued cache.order = pairs.keys
  nodup : pairs.keys.Nodup
  find?_eq : ∀ key, cache.find? key = pairs.lookup key
  size_eq : cache.size = pairs.length

namespace Holds

theorem empty (capacity : Nat) : (EvalCache.empty capacity).Holds [] where
  order_eq := rfl
  nodup := List.nodup_nil
  find?_eq _ := Std.HashMap.getElem?_empty
  size_eq := Std.HashMap.size_empty

theorem mem_entries_iff (h : cache.Holds pairs) {key : UInt64} :
    key ∈ cache.entries ↔ key ∈ pairs.keys := by
  rw [Std.HashMap.mem_iff_isSome_getElem?, ← AgedEvals.isSome_lookup]
  exact Eq.congr_left (congrArg Option.isSome (h.find?_eq key))

/-- The oldest evaluation dropped. -/
theorem dequeue {oldest : UInt64 × CachedEval} {rest : AgedEvals}
    (h : cache.Holds (oldest :: rest)) {order : Std.Queue UInt64} (horder : queued order = rest.keys) :
    Holds { cache with entries := cache.entries.erase oldest.1, order := order } rest := by
  obtain ⟨hnew, hrest⟩ := List.nodup_cons.mp h.nodup
  refine ⟨horder, hrest, fun key => ?_, ?_⟩
  · have hfind := h.find?_eq key
    rw [AgedEvals.lookup_cons] at hfind
    unfold find? at hfind ⊢
    rw [Std.HashMap.getElem?_erase]
    by_cases holdest : oldest.1 = key
    · rw [if_pos (by simpa using holdest), AgedEvals.lookup_eq_none (holdest ▸ hnew)]
    · rw [if_neg (by simpa using holdest), hfind, if_neg holdest]
  · have hsize := h.size_eq
    have hmem : oldest.1 ∈ cache.entries := h.mem_entries_iff.mpr List.mem_cons_self
    unfold size at hsize ⊢
    rw [Std.HashMap.size_erase, if_pos hmem, hsize]
    rfl

/-- Evicting drops from the front of the list what there is no room for. -/
theorem evict (h : cache.Holds pairs) :
    cache.evict.Holds (pairs.drop (pairs.length - cache.capacity)) := by
  induction pairs generalizing cache with
  | nil =>
    have hsize : cache.size = 0 := h.size_eq
    rw [evict_of_le (by omega), List.drop_nil]
    exact h
  | cons oldest rest ih =>
    have hsize : cache.size = rest.length + 1 := h.size_eq
    rw [List.length_cons]
    by_cases hroom : rest.length + 1 ≤ cache.capacity
    · rw [evict_of_le (by omega), Nat.sub_eq_zero_of_le hroom]
      exact h
    · -- The oldest key of the queue is that of the list's first pair, so both lose the same one.
      obtain ⟨order, hnext, horder⟩ := exists_dequeue? h.order_eq
      have hexcess : rest.length + 1 - cache.capacity = (rest.length - cache.capacity) + 1 := by omega
      rw [evict_of_dequeue? (by omega) hnext, hexcess, List.drop_succ_cons]
      exact ih (h.dequeue horder)

/-- An evaluation stored under a key that is present. -/
theorem replace (h : cache.Holds pairs) {key : UInt64} (hmem : key ∈ pairs.keys) (eval : CachedEval) :
    Holds { cache with entries := cache.entries.insert key eval } (pairs.replace key eval) := by
  refine ⟨?_, ?_, fun other => ?_, ?_⟩
  · rw [AgedEvals.keys_replace]
    exact h.order_eq
  · rw [AgedEvals.keys_replace]
    exact h.nodup
  · have hfind := h.find?_eq other
    rw [AgedEvals.lookup_replace]
    unfold find? at hfind ⊢
    rw [Std.HashMap.getElem?_insert, hfind]
    by_cases hother : key = other
    · obtain ⟨old, hold⟩ := Option.isSome_iff_exists.mp (AgedEvals.isSome_lookup.mpr (hother ▸ hmem))
      simp [hother, hold]
    · simp [hother]
  · have hsize := h.size_eq
    unfold size at hsize ⊢
    rw [Std.HashMap.size_insert, if_pos (h.mem_entries_iff.mpr hmem), hsize, AgedEvals.replace,
      List.length_map]

/-- An evaluation stored under a new key, whether or not there is room for it. -/
theorem enqueue (h : cache.Holds pairs) {key : UInt64} (hnew : key ∉ pairs.keys) (eval : CachedEval) :
    Holds { cache with entries := cache.entries.insert key eval, order := cache.order.enqueue key }
      (pairs ++ [(key, eval)]) := by
  have hkeys : AgedEvals.keys (pairs ++ [(key, eval)]) = pairs.keys ++ [key] := by
    rw [AgedEvals.keys, List.map_append]
    rfl
  refine ⟨?_, ?_, fun other => ?_, ?_⟩
  · rw [queued_enqueue, h.order_eq, hkeys]
  · rw [hkeys]
    exact List.nodup_append.mpr ⟨h.nodup, List.nodup_singleton key, by
      rintro old hold _ hlast rfl
      exact hnew (List.mem_singleton.mp hlast ▸ hold)⟩
  · have hfind := h.find?_eq other
    rw [List.lookup_append, AgedEvals.lookup_cons, List.lookup_nil]
    unfold find? at hfind ⊢
    rw [Std.HashMap.getElem?_insert, hfind]
    by_cases hother : key = other
    · simp [hother, AgedEvals.lookup_eq_none (hother ▸ hnew)]
    · simp [hother]
  · have hsize := h.size_eq
    unfold size at hsize ⊢
    rw [Std.HashMap.size_insert, if_neg (fun hmem => hnew (h.mem_entries_iff.mp hmem)), hsize,
      List.length_append, List.length_singleton]

end Holds

/-- The cache stands for a list that it has room for. -/
structure Serves (capacity : Nat) (cache : EvalCache) (pairs : AgedEvals) : Prop where
  capacity_eq : cache.capacity = capacity
  holds : cache.Holds pairs
  fits : pairs.length ≤ capacity

theorem capacity_evict (cache : EvalCache) : cache.evict.capacity = cache.capacity := by
  fun_induction evict cache with
  | case1 => rfl
  | case2 => assumption
  | case3 => rfl

namespace Serves

theorem empty (capacity : Nat) : Serves capacity (.empty capacity) [] :=
  ⟨rfl, .empty capacity, Nat.zero_le _⟩

theorem insert (h : Serves capacity cache pairs) (key : UInt64) (eval : CachedEval) :
    Serves capacity (cache.insert key eval) (pairs.insert capacity key eval) := by
  have hfits := h.fits
  have hcapacity := h.capacity_eq
  suffices hinsert : (cache.insert key eval).capacity = capacity ∧
      (cache.insert key eval).Holds (pairs.insert capacity key eval) from
    ⟨hinsert.1, hinsert.2, AgedEvals.length_insert_le hfits⟩
  unfold EvalCache.insert
  split
  · rename_i hzero
    obtain rfl : pairs = [] := List.length_eq_zero_iff.mp (by omega)
    refine ⟨hcapacity, ?_⟩
    rw [AgedEvals.insert_of_notMem List.not_mem_nil (Nat.zero_le _), ← hcapacity, hzero]
    exact h.holds
  · split
    · rename_i hmem
      have hkey := h.holds.mem_entries_iff.mp (Std.HashMap.contains_iff_mem.mp hmem)
      rw [AgedEvals.insert_of_mem hkey]
      exact ⟨hcapacity, h.holds.replace hkey eval⟩
    · rename_i hnew
      have hkey : key ∉ pairs.keys := fun hkey =>
        hnew (Std.HashMap.contains_iff_mem.mpr (h.holds.mem_entries_iff.mpr hkey))
      rw [AgedEvals.insert_of_notMem hkey hfits, capacity_evict, ← hcapacity]
      exact ⟨rfl, (h.holds.enqueue hkey eval).evict⟩

/-- The cache answers as its list does, and goes on standing for it. -/
theorem act (h : Serves capacity cache pairs) (act : CacheAct) :
    (cache.act act).1 = (pairs.act capacity act).1 ∧
      Serves capacity (cache.act act).2 (pairs.act capacity act).2 := by
  cases act with
  | insert key eval => exact ⟨rfl, h.insert key eval⟩
  | lookup key => exact ⟨congrArg CacheAnswer.found (h.holds.find?_eq key), h⟩
  | size => exact ⟨congrArg CacheAnswer.size h.holds.size_eq, h⟩
  | isEmpty =>
    refine ⟨congrArg CacheAnswer.isEmpty ?_, h⟩
    unfold isEmpty
    rw [h.holds.size_eq, Bool.eq_iff_iff, beq_iff_eq, List.length_eq_zero_iff, List.isEmpty_iff]
  | clear =>
    refine ⟨rfl, ?_⟩
    change Serves capacity (.empty cache.capacity) []
    rw [h.capacity_eq]
    exact .empty capacity

/-- However long one goes on asking, the answers are the same. -/
theorem answers (h : Serves capacity cache pairs) (acts : List CacheAct) :
    (conversation EvalCache.act cache acts).1 =
      (conversation (AgedEvals.act capacity) pairs acts).1 ∧
    Serves capacity (conversation EvalCache.act cache acts).2
      (conversation (AgedEvals.act capacity) pairs acts).2 := by
  induction acts generalizing cache pairs with
  | nil => exact ⟨rfl, h⟩
  | cons first rest ih =>
    obtain ⟨hanswer, hnext⟩ := h.act first
    obtain ⟨hanswers, hlast⟩ := ih hnext
    exact ⟨congrArg₂ List.cons hanswer hanswers, hlast⟩

end Serves

end EvalCache

/-- **A cache answers as a list that forgets its oldest entries**, however long and in whatever order
evaluations are stored, looked up and dropped. Its keys by age are those of its evaluations and none of
them comes twice, so there are never more than it may hold, and storing an evaluation pushes out at most
one other, the oldest. -/
theorem cache_answers_first_in_first_out (capacity : Nat) (acts : List CacheAct) :
    let talk := conversation EvalCache.act (.empty capacity) acts
    let expected := conversation (AgedEvals.act capacity) [] acts
    talk.1 = expected.1 ∧
    queued talk.2.order = expected.2.keys ∧ (queued talk.2.order).Nodup ∧
    (∀ key, key ∈ queued talk.2.order ↔ key ∈ talk.2.entries) ∧
    talk.2.size ≤ capacity ∧
    ∀ key eval old, old ∈ talk.2.entries →
      old ∈ (talk.2.insert key eval).entries ∨ (queued talk.2.order).head? = some old := by
  intro talk expected
  obtain ⟨hanswers, hserves⟩ := (EvalCache.Serves.empty capacity).answers acts
  have hkeys : queued talk.2.order = expected.2.keys := hserves.holds.order_eq
  refine ⟨hanswers, hkeys, hkeys ▸ hserves.holds.nodup, fun key => ?_, ?_, fun key eval old hold => ?_⟩
  · rw [hkeys]
    exact hserves.holds.mem_entries_iff.symm
  · rw [hserves.holds.size_eq]
    exact hserves.fits
  · rw [hkeys, (hserves.insert key eval).holds.mem_entries_iff]
    exact AgedEvals.mem_keys_insert hserves.fits (hserves.holds.mem_entries_iff.mp hold)

/-- Room for two: the first key is stored again before a third comes, and once more after it has gone. -/
def crowdedActs : List CacheAct :=
  [.insert 1 ⟨0, 0, 0⟩, .insert 2 ⟨0, 0, 0⟩, .insert 1 ⟨1, 0, 0⟩, .lookup 1, .insert 3 ⟨0, 0, 0⟩,
    .lookup 1, .lookup 2, .insert 1 ⟨0, 1, 0⟩, .lookup 2, .size]

/-- A key that is stored again keeps its age, and one that comes back begins anew. -/
theorem crowded_cache_answers :
    let talk := conversation EvalCache.act (.empty 2) crowdedActs
    talk.1 = [.done, .done, .done, .found (some ⟨1, 0, 0⟩), .done, .found none,
      .found (some ⟨0, 0, 0⟩), .done, .found none, .size 2] ∧
    queued talk.2.order = [3, 1] ∧ 3 ∈ talk.2.entries ∧
    (3 ∈ (talk.2.insert 4 ⟨0, 0, 0⟩).entries ∨ (queued talk.2.order).head? = some 3) := by
  intro talk
  obtain ⟨hanswers, hkeys, -, hmem, -, hgone⟩ := cache_answers_first_in_first_out 2 crowdedActs
  have horder : queued talk.2.order = [3, 1] := hkeys
  have hthree : 3 ∈ talk.2.entries := (hmem 3).mp (by rw [horder]; decide)
  exact ⟨hanswers, horder, hthree, hgone 4 ⟨0, 0, 0⟩ 3 hthree⟩

end SelfPlay
