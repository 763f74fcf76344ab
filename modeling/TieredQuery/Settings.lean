import TieredQuery.Failure
import TieredQuery.Text.Layout

/-!
# Settings

How large a cache is and how long its entries live, and when an executor compiles a query.
-/

namespace TieredQuery

open Json (Value Record Field Decoder)

/-! ## The cache -/

/-- The settings of a cache. -/
structure CacheSettings where
  /-- The greatest number of entries. -/
  maxSize : UInt64 := 1000
  /-- How long an entry lives, in milliseconds; without it entries do not expire. -/
  lifetime : Option UInt64 := none
deriving DecidableEq

namespace CacheSettings

/-- Settings with a size and no expiry. -/
def withMaxSize (maxSize : UInt64) : CacheSettings := { maxSize }

/-- How long an entry lives, in nanoseconds. -/
def nanoseconds (settings : CacheSettings) : Option Nat :=
  settings.lifetime.map fun ms => ms.toNat * 1000000

/-- The failure of settings that cannot be used: a cache must hold an entry, and an entry must
    live for some time. The size is looked at first. -/
def failure? (settings : CacheSettings) : Option Failure :=
  if settings.maxSize = 0 then
    some (.invalidSettings "cache maxSize must be a positive integer")
  else if settings.lifetime = some 0 then
    some (.invalidSettings "cache ttlInMs must be a positive integer")
  else none

/-- The JSON form of cache settings. -/
def toJson (settings : CacheSettings) : Value :=
  .obj (("maxSize", .word settings.maxSize) ::
    match settings.lifetime with
    | none => []
    | some ms => [("ttlInMs", .word ms)])

/-- How cache settings are decoded. -/
def record : Record CacheSettings where
  name := "CacheConfig"
  blank := {}
  fields := [
    .mandatory "maxSize" (.word "usize") fun n c => { c with maxSize := n },
    .optional "ttlInMs" (.optional (.word "u64")) fun t c => { c with lifetime := t }]

/-- The diagnostic text of cache settings. -/
def describe (settings : CacheSettings) : String :=
  Text.layout "CacheConfig" [
    ("max_size", toString settings.maxSize),
    ("ttl_ms", Text.layoutOption toString settings.lifetime)]

end CacheSettings

/-! ## The executor -/

/-- What becomes of a query that cannot be compiled. -/
inductive DeclinePolicy where
  /-- Nothing is stored; the next occurrence tries to compile again. -/
  | retry
  /-- The entry remembers it, and the query is interpreted from then on. -/
  | remember
deriving DecidableEq

namespace DeclinePolicy

/-- The name of a policy in settings. -/
def name : DeclinePolicy → String
  | retry => "retry"
  | remember => "remember"

/-- The diagnostic text of a policy. -/
def describe : DeclinePolicy → String
  | retry => "Retry"
  | remember => "Remember"

/-- Decodes the name of a policy. -/
def decoder : Decoder DeclinePolicy :=
  .choice [(retry.name, retry), (remember.name, remember)]

end DeclinePolicy

/-- When queries are compiled. -/
structure Tiering where
  /-- The occurrence from which on a valid query is compiled; zero and one both mean the first. -/
  threshold : UInt64 := 1
  onDecline : DeclinePolicy := .retry
deriving DecidableEq

namespace Tiering

/-- Whether remembered failures are heeded and kept. -/
def remembers (tiering : Tiering) : Bool := tiering.onDecline == .remember

/-- The JSON form of an executor's settings. -/
def toJson (tiering : Tiering) : Value :=
  .obj [("jitThreshold", .word tiering.threshold), ("compileFailure", .str tiering.onDecline.name)]

/-- How an executor's settings are decoded. -/
def record : Record Tiering where
  name := "ExecutorConfig"
  blank := {}
  fields := [
    .optional "jitThreshold" (.word "u64") fun n t => { t with threshold := n },
    .optional "compileFailure" DeclinePolicy.decoder fun p t => { t with onDecline := p }]

/-- The diagnostic text of an executor's settings. -/
def describe (tiering : Tiering) : String :=
  Text.layout "ExecutorConfig" [
    ("jit_threshold", toString tiering.threshold),
    ("compile_failure", tiering.onDecline.describe)]

end Tiering
end TieredQuery
