import TieredQuery.Gateway.Event

/-!
# Replies

What the gateway answers: a status, headers and a body. A reply always declares its content type;
headers given for the reply are added and count where they conflict.
-/

namespace TieredQuery.Gateway

open Json (Value Record Field)

/-- What the gateway answers. -/
structure Reply where
  status : UInt16
  headers : Headers
  body : String

namespace Reply

/-- The headers that every reply starts from. -/
def defaultHeaders : Headers := Dictionary.empty.insert "content-type" "application/json"

/-- A reply with a body that is already written. -/
def ofText (status : UInt16) (headers : Option Headers) (body : String) : Reply :=
  ⟨status, defaultHeaders.merge (headers.getD .empty), body⟩

/-- A reply whose body is the JSON text of a value. -/
def ofJson (status : UInt16) (headers : Option Headers) (body : Value) : Reply :=
  ofText status headers body.render

/-- The JSON form of a reply, members in the order of their names. -/
def toJson (reply : Reply) : Value :=
  .obj [
    ("body", .str reply.body),
    ("headers", Event.headersToJson reply.headers),
    ("statusCode", .word reply.status.toUInt64)]

/-- How replies are decoded. -/
def record : Record Reply where
  name := "LambdaResponse"
  blank := ⟨0, .empty, ""⟩
  fields := [
    .mandatory "statusCode" ((Json.Decoder.unsigned "u16" (UInt16.size - 1)).map UInt16.ofNat)
      fun n r => { r with status := n },
    .mandatory "headers" (.dictionary .string) fun h r => { r with headers := h },
    .mandatory "body" .string fun b r => { r with body := b }]

end Reply
end TieredQuery.Gateway
