import TieredQuery.Json.Complaint
import TieredQuery.Json.Fault

/-!
# Rejections

Why the gateway cannot go on with an event or a reply.
-/

namespace TieredQuery.Gateway

/-- Why an event is rejected or a reply cannot be written. -/
inductive Rejection where
  /-- The body of an event is not a posted query. -/
  | invalidBody (reason : Json.DecodeError)
  /-- A body could not be written. -/
  | unwritable (reason : Json.Complaint)

/-- The wording of a rejection. -/
def Rejection.message : Rejection → String
  | invalidBody reason => "invalid request body: " ++ reason.message
  | unwritable reason => "serialization error: " ++ reason.message

end TieredQuery.Gateway
