import TieredQuery.World

/-!
# Engines

An `Engine` parses, validates, compiles, interprets and runs the queries of a language. A call of
the engine may change anything in the world that it is made in: during the call other requests may
use the cache, and time may pass.
-/

namespace TieredQuery

open Json (Value)

/-- An engine for a query language. -/
structure Engine (L : Language) (σ : Type) where
  parse (source : String) : StateM (World L σ) (Outcome Diagnostic L.Document)
  /-- The errors of a document; none if it is valid. -/
  validate (schema : L.Schema) (document : L.Document) :
    StateM (World L σ) (Outcome Empty (List Diagnostic))
  compile (schema : L.Schema) (document : L.Document) (operationName : Option String) :
    StateM (World L σ) (Outcome Diagnostic (Compilation L.Artifact))
  interpret (interpretation : Interpretation L) : StateM (World L σ) (Outcome Diagnostic Output)
  run (artifact : L.Artifact) (resolvers : L.Resolvers) (context : L.Context)
    (variableValues : Dictionary Value) : StateM (World L σ) (Outcome Diagnostic Output)

end TieredQuery
