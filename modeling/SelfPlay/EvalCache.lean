import SelfPlay.Numeric.Binary32
import Std.Data.HashMap

/-!
# A bounded cache of evaluations

Evaluations are stored under position keys. When there are more than the cache may hold, the one
whose key came first is dropped; storing under a key that is present replaces the evaluation and
leaves the key's age as it is.
-/

namespace SelfPlay

open SelfPlay.Numeric

structure CachedEval where
  /-- The expected score. -/
  q : Binary32
  /-- The probability of a draw. -/
  d : Binary32
  /-- The expected number of moves left. -/
  m : Binary32
deriving DecidableEq, Repr

/-- The elements of a queue, the next one first. -/
def queued {α : Type} (queue : Std.Queue α) : List α := queue.dList ++ queue.eList.reverse

theorem queued_of_dequeue? {α : Type} {queue rest : Std.Queue α} {next : α}
    (h : queue.dequeue? = some (next, rest)) : queued queue = next :: queued rest := by
  unfold Std.Queue.dequeue? at h
  unfold queued
  split at h
  · rename_i hready
    cases h
    rw [hready, List.cons_append]
  · rename_i hready
    split at h
    · cases h
    · rename_i hwaiting
      cases h
      rw [hready, hwaiting, List.nil_append, List.reverse_nil, List.append_nil]

/-- A cache: its evaluations by key, and the keys by age. -/
structure EvalCache where
  /-- The greatest number of evaluations. -/
  capacity : Nat
  entries : Std.HashMap UInt64 CachedEval
  /-- The keys, oldest first. -/
  order : Std.Queue UInt64

namespace EvalCache

/-- The usual capacity. -/
def defaultCapacity : Nat := 200000

/-- A cache without evaluations. -/
def empty (capacity : Nat) : EvalCache := ⟨capacity, ∅, ∅⟩

def size (cache : EvalCache) : Nat := cache.entries.size

def isEmpty (cache : EvalCache) : Bool := cache.size == 0

def find? (cache : EvalCache) (key : UInt64) : Option CachedEval := cache.entries[key]?

/-- Drops the oldest evaluations until there are no more than the cache may hold. -/
def evict (cache : EvalCache) : EvalCache :=
  if cache.capacity < cache.size then
    match hnext : cache.order.dequeue? with
    | none => cache
    | some (oldest, order) =>
      have : (queued order).length < (queued cache.order).length := by
        rw [queued_of_dequeue? hnext]
        exact Nat.lt_succ_self _
      evict { cache with entries := cache.entries.erase oldest, order := order }
  else cache
termination_by (queued cache.order).length

def insert (cache : EvalCache) (key : UInt64) (eval : CachedEval) : EvalCache :=
  if cache.capacity = 0 then cache
  else if cache.entries.contains key then
    { cache with entries := cache.entries.insert key eval }
  else
    evict { cache with entries := cache.entries.insert key eval, order := cache.order.enqueue key }

/-- Drops everything. -/
def clear (cache : EvalCache) : EvalCache := empty cache.capacity

end EvalCache

end SelfPlay
