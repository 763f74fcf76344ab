import TieredQuery.Gateway.PostedQuery

/-!
# Events

What the gateway receives: a method, headers, and a body that should be the JSON text of a posted
query. `Event.post` makes such an event and `Event.postedQuery` reads its body.
-/

namespace TieredQuery.Gateway

open Json (Value Record Field Decoder DecodeError)

/-- Header values by header name. -/
abbrev Headers := Dictionary String

/-- The method of an event. -/
inductive Method where
  | post
  | get
deriving DecidableEq

/-- The name of a method. -/
def Method.name : Method → String
  | post => "POST"
  | get => "GET"

/-- What the gateway receives. -/
structure Event where
  method : Method
  headers : Headers
  body : String

namespace Event

/-- The event by which a query is posted. -/
def post (query : PostedQuery) (headers : Headers) : Event := ⟨.post, headers, query.toJson.render⟩

/-- Decodes the body. -/
def postedQuery (event : Event) : Except DecodeError PostedQuery :=
  Json.decode PostedQuery.record.decoder event.body

/-- The JSON form of headers. -/
def headersToJson (headers : Headers) : Value :=
  .obj (headers.entries.map fun (name, text) => (name, .str text))

/-- The JSON form of an event, members in the order of their names. -/
def toJson (event : Event) : Value :=
  .obj [
    ("body", .str event.body),
    ("headers", headersToJson event.headers),
    ("httpMethod", .str event.method.name)]

/-- How events are decoded. -/
def record : Record Event where
  name := "LambdaEvent"
  blank := ⟨.post, .empty, ""⟩
  fields := [
    .mandatory "httpMethod" (.choice [(Method.name .post, .post), (Method.name .get, .get)])
      fun m e => { e with method := m },
    .optional "headers" (.dictionary .string) fun h e => { e with headers := h },
    .mandatory "body" .string fun b e => { e with body := b }]

end Event
end TieredQuery.Gateway
