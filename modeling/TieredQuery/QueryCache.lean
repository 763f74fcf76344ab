import TieredQuery.Entry
import TieredQuery.Fingerprint
import TieredQuery.RecencyMap

/-!
# The query cache

A bounded map in order of use from fingerprints to entries. A query text without a slot, or with
an expired one, has the entry of a query of which nothing is known.

Operations answer with the cache after them and with the departures they caused, in order.
-/

namespace TieredQuery

/-- The entries of query texts, by fingerprint. -/
abbrev QueryCache (A : Type) := RecencyMap Fingerprint (Entry A)

/-- The numbers that describe a cache at a time. -/
structure CacheStats where
  total : Nat
  expired : Nat
  valid : Nat
  compiled : Nat
deriving DecidableEq

/-- The diagnostic text of cache statistics. -/
def CacheStats.describe (stats : CacheStats) : String :=
  Text.layout "CacheStats" [
    ("total_entries", toString stats.total),
    ("expired_entries", toString stats.expired),
    ("valid_entries", toString stats.valid),
    ("compiled_entries", toString stats.compiled)]

/-- A cache after an operation, and the departures caused by it. -/
structure Visited (A : Type) where
  cache : QueryCache A
  departures : List (Departure Fingerprint)

namespace QueryCache

variable {A ρ : Type}

/-- An empty cache; a capacity of zero counts as one. -/
def withCapacity (capacity : Nat) (lifetime : Option Nat) : QueryCache A :=
  .empty (max capacity 1) lifetime (Nat.lt_of_lt_of_le Nat.one_pos (Nat.le_max_right _ _))

/-- The empty cache with some settings, if they can be used. -/
def ofSettings (settings : CacheSettings) : Except Failure (QueryCache A) :=
  match settings.failure? with
  | some failure => .error failure
  | none => .ok (withCapacity settings.maxSize.toNat settings.nanoseconds)

/-- The entry of a query text. -/
def entry (cache : QueryCache A) (now : Nat) (text : String) : Entry A :=
  (cache.live? now (.ofText text)).getD .unseen

/-- Reads a query text: its slot becomes the most recently used, or goes if it has expired. -/
def visit (cache : QueryCache A) (now : Nat) (text : String) : Visited A :=
  let key := Fingerprint.ofText text
  ⟨cache.touch now key, (cache.lapse? now key).toList⟩

/-- Stores the entry of a query text. -/
def set (cache : QueryCache A) (now : Nat) (text : String) (entry : Entry A) : Visited A :=
  let key := Fingerprint.ofText text
  ⟨cache.insert now key entry, (cache.eviction? key).toList⟩

/-- Reads the entry of a query text and stores what a rule replaces it with, if anything. -/
def update (cache : QueryCache A) (now : Nat) (text : String)
    (rule : Entry A → Option (Entry A) × ρ) : ρ × Visited A :=
  -- the rule sees the entry that is read, that of an unknown query where the slot has expired
  let (replacement, answer) := rule (entry cache now text)
  let read := visit cache now text
  match replacement with
  | none => (answer, read)
  | some replacement =>
    -- storing comes after reading, so what has expired departs before room is made
    let stored := set read.cache now text replacement
    (answer, ⟨stored.cache, read.departures ++ stored.departures⟩)

/-- An update answers what the rule answers for the entry that was read. -/
theorem update_answer (cache : QueryCache A) (now : Nat) (text : String)
    (rule : Entry A → Option (Entry A) × ρ) :
    (update cache now text rule).1 = (rule (entry cache now text)).2 := by
  unfold update
  dsimp only
  split <;> rfl

/-- Two rules that store the same leave the same cache, whatever they answer. -/
theorem update_eq_of_answer {ρ' : Type} {cache : QueryCache A} {now : Nat} {text : String}
    {rule : Entry A → Option (Entry A) × ρ} {rule' : Entry A → Option (Entry A) × ρ'}
    {answer : ρ → ρ'} (h : rule' (entry cache now text) =
      ((rule (entry cache now text)).1, answer (rule (entry cache now text)).2)) :
    update cache now text rule' =
      (answer (update cache now text rule).1, (update cache now text rule).2) := by
  unfold update
  rw [h]
  rcases rule (entry cache now text) with ⟨_ | replacement, given⟩ <;> rfl

/-- Whether a query text has a slot that has not expired. -/
def holds (cache : QueryCache A) (now : Nat) (text : String) : Bool :=
  cache.contains now (.ofText text)

/-- The statistics of a cache. -/
def stats (cache : QueryCache A) (now : Nat) : CacheStats :=
  let total := cache.size
  let expired := cache.slots.countP fun (_, slot) => cache.isExpired now slot
  let compiled := cache.slots.countP fun (_, slot) =>
    !cache.isExpired now slot && slot.value.isCompiled
  ⟨total, expired, total - expired, compiled⟩

/-- The text of a cache's lifetime. -/
def lifetimeText (cache : QueryCache A) : String :=
  Text.layoutOption Text.Span.describe cache.lifetime

/-- The diagnostic text of a cache. -/
def describe (cache : QueryCache A) (now : Nat) : String :=
  let stats := stats cache now
  Text.layout "QueryCache" [
    ("entries", toString stats.total),
    ("compiled", toString stats.compiled),
    ("capacity", toString cache.capacity),
    ("ttl", lifetimeText cache)]

end QueryCache
end TieredQuery
