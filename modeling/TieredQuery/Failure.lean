import TieredQuery.Diagnostic

/-!
# Failures of the executor

What ends a request, or the making of a cache, without a result. A failure is reported to the
requester as a diagnostic: a failure of the query keeps its own, the others get one with their
message.
-/

namespace TieredQuery

/-- Why there is no result. -/
inductive Failure where
  /-- The settings cannot be used. -/
  | invalidSettings (reason : String)
  /-- The query language reported a fault. -/
  | query (diagnostic : Diagnostic)
  /-- The query language misbehaved. -/
  | internal (message : String)
deriving DecidableEq

namespace Failure

/-- The wording of a failure. -/
def message : Failure → String
  | invalidSettings reason => "invalid configuration: " ++ reason
  | query diagnostic => diagnostic.message
  | internal message => "internal error: " ++ message

/-- The diagnostic by which a failure is reported. -/
def toDiagnostic : Failure → Diagnostic
  | query diagnostic => diagnostic
  | failure => .ofMessage failure.message

end Failure
end TieredQuery
