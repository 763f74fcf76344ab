import TieredQuery.Settings

/-!
# What is known of a query

An entry counts the valid occurrences of a query text and holds the artifact it was compiled to,
or that it could not be compiled. Three rules change entries: `plan` when a valid query occurs,
`adopt` when one was compiled, and `decline` when one could not be. Each sees the entry as it is
by then, whatever other requests have done to it meanwhile, and answers with the entry to store,
if any.

Occurrences are counted without a limit. Where counts have 64 bits this is what happens as long as
the sum fits (`planWith_of_next`): a count can come to its limit only if a client has stored a large
one. `Counting` says how one is added to a count, so that what happens at the limit can be asked as
well.
-/

namespace TieredQuery

/-- How one is added to a count of occurrences; nothing, if the addition panics. -/
def Counting : Type := Nat → Option Nat

namespace Counting

/-- Counts without a limit. -/
def unbounded : Counting := fun n => some (n + 1)

/-- Counts in 64 bits and goes on at zero. -/
def wrapping : Counting := fun n => some ((n + 1) % UInt64.size)

/-- Counts in 64 bits and panics where the sum does not fit. -/
def checked : Counting := fun n => if n + 1 < UInt64.size then some (n + 1) else none

/-- What the panic of an addition says. -/
def overflow : String := "attempt to add with overflow"

variable {n : Nat}

/-- Below the limit 64 bits count as no limit does, whatever happens at the limit. -/
theorem wrapping_of_lt (h : n + 1 < UInt64.size) : wrapping n = unbounded n :=
  congrArg some (Nat.mod_eq_of_lt h)

/-- The same with additions that panic. -/
theorem checked_of_lt (h : n + 1 < UInt64.size) : checked n = unbounded n := if_pos h

end Counting

/-- What is known of a query text. -/
structure Entry (A : Type) where
  /-- The valid occurrences counted so far, without a limit. -/
  occurrences : Nat := 0
  artifact? : Option A := none
  /-- Whether it is remembered that the query could not be compiled. -/
  declined : Bool := false
deriving DecidableEq

/-- How a valid query that was not found compiled is answered. -/
inductive Plan (A : Type) where
  /-- It has been compiled meanwhile. -/
  | run (artifact : A)
  /-- It is to be compiled, as the given occurrence. -/
  | compile (occurrences : Nat)
  /-- It is to be interpreted. -/
  | interpret
deriving DecidableEq

namespace Entry

variable {A : Type}

/-- The entry of a query of which nothing is known. -/
def unseen : Entry A := {}

/-- The entry of a query that occurred a number of times. -/
def seen (occurrences : Nat) : Entry A := ⟨occurrences, none, false⟩

/-- The entry of a compiled query. -/
def compiled (occurrences : Nat) (artifact : A) : Entry A := ⟨occurrences, some artifact, false⟩

/-- The entry of a query that could not be compiled. -/
def notCompilable (occurrences : Nat) : Entry A := ⟨occurrences, none, true⟩

/-- Whether there is an artifact. -/
def isCompiled (entry : Entry A) : Bool := entry.artifact?.isSome

/-- The diagnostic text of an entry. -/
def describe (entry : Entry A) : String :=
  Text.layout "CacheEntry" [
    ("occurrence_count", toString entry.occurrences),
    ("compiled", Text.layoutBool entry.isCompiled),
    ("compile_failed", Text.layoutBool entry.declined)]

/-- Counts one more valid occurrence and says how to answer it. From the threshold on a query is
    compiled, and its entry stored only once that has succeeded; a remembered failure to compile
    is heeded if the settings say so. -/
def plan (tiering : Tiering) (entry : Entry A) : Option (Entry A) × Plan A :=
  match entry.artifact? with
  | some artifact => (none, .run artifact)
  | none =>
    let occurrences := entry.occurrences + 1
    if tiering.remembers && entry.declined then (some (notCompilable occurrences), .interpret)
    else if tiering.threshold.toNat ≤ occurrences then (none, .compile occurrences)
    else (some (seen occurrences), .interpret)

/-- Counts one more valid occurrence as another counting does, and says how to answer it unless the
    addition panics; then nothing is stored. -/
def planWith (counting : Counting) (tiering : Tiering) (entry : Entry A) :
    Option (Entry A) × Option (Plan A) :=
  match entry.artifact? with
  | some artifact => (none, some (.run artifact))
  | none =>
    match counting entry.occurrences with
    | none => (none, none)
    | some occurrences =>
      if tiering.remembers && entry.declined then
        (some (notCompilable occurrences), some .interpret)
      else if tiering.threshold.toNat ≤ occurrences then (none, some (.compile occurrences))
      else (some (seen occurrences), some .interpret)

/-- Where a counting gives the next number, occurrences are planned as they are without a limit. -/
theorem planWith_of_next {counting : Counting} {entry : Entry A}
    (h : counting entry.occurrences = Counting.unbounded entry.occurrences) (tiering : Tiering) :
    entry.planWith counting tiering = ((entry.plan tiering).1, some (entry.plan tiering).2) := by
  unfold planWith plan
  rw [h]
  cases entry.artifact? with
  | some artifact => rfl
  | none =>
    dsimp only [Counting.unbounded]
    split
    · rfl
    · split <;> rfl

/-- Stores an artifact, compiled as the given occurrence, unless there is one already; answers
    with the artifact that is there then. The count becomes the larger of the two. -/
def adopt (occurrences : Nat) (artifact : A) (entry : Entry A) : Option (Entry A) × A :=
  match entry.artifact? with
  | some kept =>
    if occurrences ≤ entry.occurrences then (none, kept)
    else (some (compiled occurrences kept), kept)
  | none => (some (compiled (max occurrences entry.occurrences) artifact), artifact)

/-- Remembers that a query could not be compiled, unless there is an artifact. The count becomes
    the larger of the two. -/
def decline (occurrences : Nat) (entry : Entry A) : Option (Entry A) :=
  if entry.isCompiled then none
  else some (notCompilable (max occurrences entry.occurrences))

end Entry
end TieredQuery
