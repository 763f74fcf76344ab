import TieredQuery.Response

/-!
# Query languages

The executor knows nothing of the queries it answers. A `Language` names the types of a query
language; here are also the requests made in it and the ways in which the calls of its engine
end.
-/

namespace TieredQuery

open Json (Value)

/-- The types of a query language. -/
structure Language where
  Schema : Type
  Document : Type
  /-- What a document is compiled to. -/
  Artifact : Type
  /-- What a run may be given in place of the resolvers that an artifact brings along. -/
  Resolvers : Type
  /-- What a request brings along for its resolvers. -/
  Context : Type
  /-- The resolvers that replace none. -/
  noResolvers : Resolvers

/-- What a panic carries. -/
inductive Payload where
  | text (message : String)
  /-- Something that has no text. -/
  | other
deriving DecidableEq

/-- The message of a panic. -/
def Payload.message : Payload → String
  | text message => message
  | other => "query engine panicked"

/-- How a call of the engine ends. -/
inductive Outcome (ε α : Type) where
  | ok (a : α)
  | error (e : ε)
  | panic (payload : Payload)

/-- What compiling a valid document gives. -/
inductive Compilation (A : Type) where
  | artifact (a : A)
  /-- The document has to be interpreted. -/
  | declined (reason : String)

/-- A document to interpret. -/
structure Interpretation (L : Language) where
  schema : L.Schema
  document : L.Document
  variableValues : Dictionary Value
  context : L.Context
  operationName : Option String

/-- A request to answer a query. -/
structure Request (L : Language) where
  query : String
  variableValues : Dictionary Value := .empty
  context : L.Context
  operationName : Option String := none

end TieredQuery
