import TieredQuery.QueryCache

/-!
# Notices

What the program says about its work. A notice has a level, a message and named fields, and is
written on one line.
-/

namespace TieredQuery

/-- How important a notice is. -/
inductive Level where
  | trace
  | debug
  | info
  | warn
deriving DecidableEq

/-- The name of a level. -/
def Level.name : Level → String
  | trace => "TRACE"
  | debug => "DEBUG"
  | info => "INFO"
  | warn => "WARN"

/-- A thing worth saying. -/
inductive Notice where
  | executorCreated (tiering : Tiering) (capacity : Nat)
  | departed (departure : Departure Fingerprint)
  | runningCached (key : Fingerprint) (occurrences : Nat)
  | rejected (key : Fingerprint) (errors : Nat)
  | runningConcurrent (key : Fingerprint)
  | compiled (key : Fingerprint) (occurrences : Nat)
  | declined (key : Fingerprint) (reason : String)
  | interpreting (key : Fingerprint)
  | failed (key : Fingerprint) (error : String)
  | panicked (key : Fingerprint) (message : String)
  | documentDeclined (reason : String)
  | eventRejected (error : String)
  | replied (status : UInt16)
deriving DecidableEq

namespace Notice

/-- The level of a notice. -/
def level : Notice → Level
  | executorCreated .. => .info
  | departed _ => .trace
  | declined .. | panicked .. | eventRejected _ => .warn
  | _ => .debug

/-- The message of a notice. -/
def message : Notice → String
  | executorCreated .. => "query executor created"
  | departed (.expired _) => "query cache entry expired"
  | departed (.evicted _) => "query cache entry evicted"
  | runningCached .. => "running cached compiled query"
  | rejected .. => "query failed validation"
  | runningConcurrent _ => "running query compiled by a concurrent request"
  | compiled .. => "compiled query"
  | declined .. => "query is not compilable, interpreting"
  | interpreting _ => "interpreting query"
  | failed .. => "query failed"
  | panicked .. => "query engine panicked"
  | documentDeclined _ => "document is not compilable, interpreting"
  | eventRejected _ => "rejecting lambda event"
  | replied _ => "lambda response"

/-- The fields of a notice. -/
def fields : Notice → List (String × String)
  | executorCreated tiering capacity => [
      ("jit_threshold", toString tiering.threshold),
      ("compile_failure", tiering.onDecline.describe),
      ("cache_capacity", toString capacity)]
  | departed (.expired key) | departed (.evicted key) => [("key", key.hex)]
  | runningCached key occurrences => [("key", key.hex), ("occurrences", toString occurrences)]
  | rejected key errors => [("key", key.hex), ("errors", toString errors)]
  | runningConcurrent key => [("key", key.hex)]
  | compiled key occurrences => [("key", key.hex), ("occurrences", toString occurrences)]
  | declined key reason => [("key", key.hex), ("reason", reason)]
  | interpreting key => [("key", key.hex)]
  | failed key error => [("key", key.hex), ("error", error)]
  | panicked key message => [("key", key.hex), ("panic", message)]
  | documentDeclined reason => [("reason", reason)]
  | eventRejected error => [("error", error)]
  | replied status => [("status_code", toString status)]

/-- The line of a notice. -/
def line (notice : Notice) : String :=
  notice.fields.foldl (fun text (name, value) => text ++ " " ++ name ++ "=" ++ value)
    (notice.level.name ++ " " ++ notice.message)

end Notice
end TieredQuery
