import TieredQuery.Counters
import TieredQuery.Language
import TieredQuery.Notice

/-!
# The world that requests share

Requests share a cache, a clock, the counters of their executors and the state of the engine, and
each of them gives notices. What happens in the world is a `StateM` action; an access of the cache
is one step, and gives its notices in the same step.
-/

namespace TieredQuery

/-- The cache, the clock, the counters of every executor, the notices given so far, and the state
    of the engine. -/
structure World (L : Language) (σ : Type) where
  cache : QueryCache L.Artifact
  /-- The time in nanoseconds. -/
  now : Nat := 0
  /-- The counters of an executor, by its number. -/
  counters : Nat → Counters := fun _ => {}
  notices : List Notice := []
  engine : σ

namespace World

variable {L : Language} {σ ρ : Type}

/-- The world with another state of the engine. -/
def withEngine {τ : Type} (w : World L σ) (engine : τ) : World L τ :=
  ⟨w.cache, w.now, w.counters, w.notices, engine⟩

/-- Gives a notice. -/
def notify (notice : Notice) : StateM (World L σ) Unit :=
  modify fun w => { w with notices := w.notices ++ [notice] }

/-- Lets time pass. -/
def advance (nanoseconds : Nat) : StateM (World L σ) Unit :=
  modify fun w => { w with now := w.now + nanoseconds }

/-- The world after the cache was visited. -/
def visited (w : World L σ) (v : Visited L.Artifact) : World L σ :=
  { w with cache := v.cache, notices := w.notices ++ v.departures.map .departed }

/-- Reads the entry of a query text. -/
def lookUp (text : String) : StateM (World L σ) (Entry L.Artifact) := fun w =>
  (w.cache.entry w.now text, w.visited (w.cache.visit w.now text))

/-- Stores the entry of a query text. -/
def store (text : String) (entry : Entry L.Artifact) : StateM (World L σ) Unit :=
  modify fun w => w.visited (w.cache.set w.now text entry)

/-- Reads the entry of a query text and stores what a rule replaces it with, in one step. -/
def update (text : String) (rule : Entry L.Artifact → Option (Entry L.Artifact) × ρ) :
    StateM (World L σ) ρ := fun w =>
  let (answer, v) := w.cache.update w.now text rule
  (answer, w.visited v)

/-- Whether there is a live entry of a query text. -/
def holds (text : String) : StateM (World L σ) Bool := do
  let w ← get
  return w.cache.holds w.now text

/-- Removes all entries. -/
def clear : StateM (World L σ) Unit := modify fun w => { w with cache := w.cache.clear }

/-- Removes the expired entries. -/
def purge : StateM (World L σ) Unit := modify fun w => { w with cache := w.cache.purge w.now }

/-- Changes the counters of an executor. -/
def count (id : Nat) (change : Counters → Counters) : StateM (World L σ) Unit :=
  modify fun w =>
    let counters other := if other = id then change (w.counters id) else w.counters other
    { w with counters }

/-- Two changes of the counters in a row are one. -/
theorem count_count (id : Nat) (first second : Counters → Counters) (w : World L σ) :
    count id second (count id first w).2 = count id (fun c => second (first c)) w := by
  have hcounters : (count id second (count id first w).2).2.counters =
      (count id (fun c => second (first c)) w).2.counters := by
    funext other
    show (if other = id then second (if id = id then first (w.counters id) else w.counters id)
      else if other = id then first (w.counters id) else w.counters other) =
        if other = id then second (first (w.counters id)) else w.counters other
    rw [if_pos rfl]
    split <;> rfl
  exact congrArg (fun counters => ((), { w with counters })) hcounters

end World
end TieredQuery
