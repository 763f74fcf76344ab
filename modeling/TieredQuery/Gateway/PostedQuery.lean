import TieredQuery.Json.Record
import TieredQuery.Json.Render

/-!
# Posted queries

The query that a client sends in the body of an event, with its variables and, when its document
holds several operations, the name of the one to run.
-/

namespace TieredQuery.Gateway

open Json (Value Record Field Decoder)

/-- A query as clients post it. -/
structure PostedQuery where
  query : String
  variableValues : Dictionary Value := .empty
  operationName : Option String := none

namespace PostedQuery

/-- The JSON form of a posted query; a missing operation name is left out. -/
def toJson (q : PostedQuery) : Value :=
  .obj (("query", .str q.query) :: ("variables", .ofDictionary q.variableValues) ::
    match q.operationName with
    | none => []
    | some name => [("operationName", .str name)])

/-- How posted queries are decoded. -/
def record : Record PostedQuery where
  name := "GraphQLRequest"
  blank := { query := "" }
  fields := [
    .mandatory "query" .string fun s q => { q with query := s },
    .optional "variables" (.dictionary .any) fun d q => { q with variableValues := d },
    .optional "operationName" (.optional .string) fun n q => { q with operationName := n }]

end PostedQuery
end TieredQuery.Gateway
