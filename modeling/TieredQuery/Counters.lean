import TieredQuery.Decimal.Fixed
import TieredQuery.Text.Layout

/-!
# Counters

How many requests an executor has answered, and how. Each request raises the count of requests and
then exactly one of the counters of the six verdicts; declined compilations are counted besides.

Each counter is raised by an addition of its own. Whoever reads the counters between the two
additions for a request finds a request without a verdict.
-/

namespace TieredQuery

/-- How a request was answered. -/
inductive Verdict where
  /-- By the artifact found in the cache at once. -/
  | hit
  /-- By an artifact that another request stored meanwhile. -/
  | race
  /-- By an artifact compiled for this request. -/
  | compiled
  /-- By the interpreter. -/
  | interpreted
  /-- By validation errors. -/
  | rejected
  /-- By a failure. -/
  | failed
deriving DecidableEq

/-- The counters of an executor. They are counted without a limit. -/
structure Counters where
  requests : Nat := 0
  compiledHits : Nat := 0
  compiledRaces : Nat := 0
  compilations : Nat := 0
  compileFailures : Nat := 0
  interpreted : Nat := 0
  validationFailures : Nat := 0
  failures : Nat := 0
deriving DecidableEq

namespace Counters

/-- Counts a request that is settled: the first of the two additions for it. -/
def countRequest (c : Counters) : Counters := { c with requests := c.requests + 1 }

/-- Counts how a request was settled: the second of the two additions for it. -/
def countVerdict (c : Counters) : Verdict → Counters
  | .hit => { c with compiledHits := c.compiledHits + 1 }
  | .race => { c with compiledRaces := c.compiledRaces + 1 }
  | .compiled => { c with compilations := c.compilations + 1 }
  | .interpreted => { c with interpreted := c.interpreted + 1 }
  | .rejected => { c with validationFailures := c.validationFailures + 1 }
  | .failed => { c with failures := c.failures + 1 }

/-- Records a request by both additions, if nothing comes between them. -/
def record (c : Counters) (verdict : Verdict) : Counters := c.countRequest.countVerdict verdict

/-- Counts a query that could not be compiled. -/
def decline (c : Counters) : Counters := { c with compileFailures := c.compileFailures + 1 }

/-- The percentage of requests answered by an artifact found in the cache, computed in doubles;
    zero if there were no requests. -/
def hitRate (c : Counters) : Float :=
  if c.requests = 0 then 0 else (Float.ofNat c.compiledHits / Float.ofNat c.requests) * 100

/-- The hit rate with one decimal place. -/
def hitRateText (c : Counters) : String :=
  match Decimal.Binary64.ofBits c.hitRate.toBits with
  | some x => Decimal.fixed 1 x
  | none => "inf"

/-- A report of one line a counter. -/
def report (c : Counters) : String :=
  "Query Executor Statistics:\n" ++
  "  Requests:            " ++ toString c.requests ++ "\n" ++
  "  Compiled hits:       " ++ toString c.compiledHits ++ "\n" ++
  "  Compiled races:      " ++ toString c.compiledRaces ++ "\n" ++
  "  Compilations:        " ++ toString c.compilations ++ "\n" ++
  "  Compile failures:    " ++ toString c.compileFailures ++ "\n" ++
  "  Interpreted:         " ++ toString c.interpreted ++ "\n" ++
  "  Validation failures: " ++ toString c.validationFailures ++ "\n" ++
  "  Failures:            " ++ toString c.failures ++ "\n" ++
  "  Hit rate:            " ++ c.hitRateText ++ "%\n"

/-- The diagnostic text of the counters. -/
def describe (c : Counters) : String :=
  Text.layout "ExecutorStatsSnapshot" [
    ("requests", toString c.requests),
    ("compiled_hits", toString c.compiledHits),
    ("compiled_races", toString c.compiledRaces),
    ("compilations", toString c.compilations),
    ("compile_failures", toString c.compileFailures),
    ("interpreted", toString c.interpreted),
    ("validation_failures", toString c.validationFailures),
    ("failures", toString c.failures)]

end Counters
end TieredQuery
