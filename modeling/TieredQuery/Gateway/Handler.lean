import TieredQuery.Executor
import TieredQuery.Gateway.Rejection
import TieredQuery.Gateway.Reply

/-!
# The handler

A handler answers events by an executor. The status tells the three shapes of a response apart; a
body that is no posted query is answered like a failure, without asking the executor. Headers of
the handler's own go on every reply.
-/

namespace TieredQuery.Gateway

open Json (Value)

variable {L : Language} {σ : Type}

/-- Who answers events. -/
structure Handler (L : Language) where
  executor : Executor L
  /-- What an event brings along for the resolvers. -/
  context : Event → L.Context
  /-- The headers of the reply to an event. -/
  headers : Option (Event → Headers) := none

/-- The status and the body of the reply to a response. -/
def replyTo : Response → UInt16 × Value
  | .executed output => (200, output.toJson)
  | .rejected errors => (400, .obj [("errors", Diagnostic.listToJson errors)])
  | .failed errors => (500, .obj [("errors", Diagnostic.listToJson errors)])

namespace Handler

/-- Replies, and says so. -/
def reply (headers : Option Headers) (status : UInt16) (body : Value) :
    StateM (World L σ) Reply := do
  World.notify (.replied status)
  return .ofJson status headers body

/-- The request to the executor that an event makes by a posted query. -/
def request (handler : Handler L) (event : Event) (query : PostedQuery) : Request L :=
  ⟨query.query, query.variableValues, handler.context event, query.operationName⟩

/-- Answers an event. -/
def handle (handler : Handler L) (engine : Engine L σ) (event : Event) :
    StateM (World L σ) Reply := do
  let headers := handler.headers.map (· event)
  match event.postedQuery with
  | .error reason =>
    -- the executor is not asked, and the event is answered like a request that has failed
    let rejection := Rejection.invalidBody reason
    World.notify (.eventRejected rejection.message)
    let (status, body) := replyTo (.failed [.ofMessage rejection.message])
    reply headers status body
  | .ok query =>
    let response ← handler.executor.execute engine (handler.request event query)
    let (status, body) := replyTo response
    reply headers status body

end Handler
end TieredQuery.Gateway
