import TieredQuery.Proofs.Cache.Revision
import TieredQuery.Proofs.Dispatch.Calls

/-!
# Engines without a state

The calls of a `PureEngine` depend on nothing but what they are given, and do nothing but answer.
For such an engine there is a `reference`: the response that a request gets where nothing is ever
compiled. An engine is `Faithful` if an artifact, run without resolvers of its own, cannot be told
from the interpreter.

The engine `echo` is a small instance: a query is its own document and its own artifact, and
running it gives it back.
-/

namespace TieredQuery

variable {L : Language} {σ : Type}

/-- The functions of an engine that has no state. -/
structure PureEngine (L : Language) where
  parse (source : String) : Outcome Diagnostic L.Document
  validate (schema : L.Schema) (document : L.Document) : Outcome Empty (List Diagnostic)
  compile (schema : L.Schema) (document : L.Document) (operationName : Option String) :
    Outcome Diagnostic (Compilation L.Artifact)
  interpret (interpretation : Interpretation L) : Outcome Diagnostic Output
  run (artifact : L.Artifact) (resolvers : L.Resolvers) (context : L.Context)
    (variableValues : Dictionary Json.Value) : Outcome Diagnostic Output

namespace PureEngine

/-- The engine that answers by these functions and leaves the world alone. -/
def engine (functions : PureEngine L) : Engine L σ where
  parse source := return functions.parse source
  validate schema document := return functions.validate schema document
  compile schema document operationName := return functions.compile schema document operationName
  interpret interpretation := return functions.interpret interpretation
  run artifact resolvers context variableValues :=
    return functions.run artifact resolvers context variableValues

/-- An engine that has no state leaves the cache alone. -/
theorem engine_quiet (functions : PureEngine L) :
    (functions.engine : Engine L σ).Quiet :=
  ⟨fun _ _ => rfl, fun _ _ _ => rfl, fun _ _ _ _ => rfl, fun _ _ => rfl, fun _ _ _ _ _ => rfl⟩

/-- Its calls take no time. -/
theorem engine_instant (functions : PureEngine L) :
    (functions.engine : Engine L σ).Instant :=
  ⟨fun _ _ => rfl, fun _ _ _ => rfl, fun _ _ _ _ => rfl, fun _ _ => rfl, fun _ _ _ _ _ => rfl⟩

/-- A server with this engine. -/
def server (functions : PureEngine L) (executor : Executor L) : Server L σ :=
  ⟨executor, functions.engine, functions.engine_quiet⟩

/-- Compiling gives an artifact, or word that there is none; it never fails. -/
def CompilesAlways (functions : PureEngine L) : Prop :=
  ∀ schema document operationName, ∃ result,
    functions.compile schema document operationName = .ok result

/-- An artifact does what the interpreter does with the document it was compiled from. -/
def Faithful (functions : PureEngine L) : Prop :=
  ∀ schema document operationName artifact,
    functions.compile schema document operationName = .ok (.artifact artifact) →
    ∀ context variableValues,
      functions.run artifact L.noResolvers context variableValues =
        functions.interpret ⟨schema, document, variableValues, context, operationName⟩

/-- The response to a request where there is no cache and nothing is compiled. -/
def reference (functions : PureEngine L) (schema : L.Schema) (request : Request L) : Response :=
  match functions.parse request.query with
  | .error diagnostic => .failed [diagnostic]
  | .panic payload => .failed [.ofMessage ("internal error: " ++ payload.message)]
  | .ok document =>
    match functions.validate schema document with
    | .ok [] => Call.executed (functions.interpret
        ⟨schema, document, request.variableValues, request.context, request.operationName⟩)
    | .ok errors => .rejected errors
    | .panic payload => .failed [.ofMessage ("internal error: " ++ payload.message)]

end PureEngine

/-- The language in which queries are texts and nothing else. -/
abbrev echoLanguage : Language where
  Schema := Unit
  Document := String
  Artifact := String
  Resolvers := Unit
  Context := Unit
  noResolvers := ()

/-- The engine whose queries give themselves back. The empty query is a syntax error, and a query
    that begins with a number sign cannot be compiled. -/
def echo : PureEngine echoLanguage where
  parse source := if source = "" then .error (.ofMessage "empty query") else .ok source
  validate _ _ := .ok []
  compile _ document _ :=
    if document.toList.head? = some '#' then .ok (.declined "comment") else .ok (.artifact document)
  interpret interpretation := .ok (.ofData (.str interpretation.document))
  run artifact _ _ _ := .ok (.ofData (.str artifact))

/-- Echoes are compiled, or found not to be. -/
theorem echo_compilesAlways : echo.CompilesAlways := by
  intro schema document operationName
  unfold echo
  dsimp only
  split <;> exact ⟨_, rfl⟩

/-- A compiled echo says what an interpreted one does. -/
theorem echo_faithful : echo.Faithful := by
  intro schema document operationName artifact h context variableValues
  unfold echo at h
  dsimp only at h
  -- only what has not been declined has an artifact, and that is the document itself
  split at h
  · cases h
  · cases h
    rfl

/-- A server of echoes, with the number of its executor and when that compiles. -/
def echoServer (id : Nat) (tiering : Tiering) : Server echoLanguage Unit :=
  echo.server ⟨id, (), tiering⟩

/-- The world before any request, with a cache of some size. -/
def echoWorld (capacity : Nat) : World echoLanguage Unit :=
  { cache := QueryCache.withCapacity capacity none, engine := () }

/-- A cache with room for two entries that live for five nanoseconds. -/
def briefWorld : World echoLanguage Unit :=
  { cache := QueryCache.withCapacity 2 (some 5), engine := () }

/-- A request for an echo. -/
def echoRequest (query : String) : Request echoLanguage := { query, context := () }

/-- Two queries that are asked for side by side have keys of their own. -/
theorem ofText_a_ne_b : Fingerprint.ofText "a" ≠ .ofText "b" := by decide +kernel

end TieredQuery
