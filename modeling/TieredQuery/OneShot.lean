import TieredQuery.Engine

/-!
# Running a document once

A valid document can be run without a cache: it is compiled and the artifact run with the caller's
resolvers, or it is interpreted if it cannot be compiled. Panics of the engine are not caught.
-/

namespace TieredQuery

variable {L : Language} {σ : Type}

/-- Reports a diagnostic of the engine as a failure. -/
def Outcome.asFailure {α : Type} : Outcome Diagnostic α → Outcome Failure α
  | .ok a => .ok a
  | .error diagnostic => .error (.query diagnostic)
  | .panic payload => .panic payload

/-- Runs a valid document once. -/
def Engine.runOnce (engine : Engine L σ) (request : Interpretation L) (resolvers : L.Resolvers) :
    StateM (World L σ) (Outcome Failure Output) := do
  match ← engine.compile request.schema request.document request.operationName with
  | .ok (.artifact artifact) =>
    return (← engine.run artifact resolvers request.context request.variableValues).asFailure
  | .ok (.declined reason) =>
    World.notify (.documentDeclined reason)
    return (← engine.interpret request).asFailure
  | .error diagnostic => return .error (.query diagnostic)
  | .panic payload => return .panic payload

end TieredQuery
