import TieredQuery.Failure

/-!
# Outputs and responses

An output is what running a query gives: data, errors of single fields, or both. A response is
what a requester gets. Its three shapes are told apart by the member names of their JSON form.
-/

namespace TieredQuery

open Json (Value Record Field Decoder)

/-- The result of running a query. Data together with errors is a partial result. -/
structure Output where
  data : Option Value := none
  errors : List Diagnostic := []

namespace Output

/-- Data without errors. -/
def ofData (data : Value) : Output := ⟨some data, []⟩

/-- Whether any field failed. -/
def hasErrors (output : Output) : Bool := !output.errors.isEmpty

/-- The JSON form of an output; absent data is written as null. -/
def toJson (output : Output) : Value :=
  .obj (("data", output.data.getD .null) ::
    Diagnostic.listMember "errors" (output.errors.map Diagnostic.toJson))

/-- How outputs are decoded; null data is absent. -/
def record : Record Output where
  name := "ExecutionResult"
  blank := {}
  fields := [
    .optional "data" (.optional .any) fun v o => { o with data := v },
    .optional "errors" (.list Diagnostic.record.decoder) fun es o => { o with errors := es }]

end Output

/-- The answer to a request. -/
inductive Response where
  /-- The query ran. -/
  | executed (output : Output)
  /-- The query was parsed but is not valid; nothing ran. -/
  | rejected (errors : List Diagnostic)
  /-- The request failed as a whole. -/
  | failed (errors : List Diagnostic)

namespace Response

/-- The response of a failure. -/
def ofFailure (failure : Failure) : Response := .failed [failure.toDiagnostic]

/-- The output, if the query ran. -/
def output? : Response → Option Output
  | executed output => some output
  | _ => none

/-- The validation errors, if the query is not valid. -/
def validationErrors? : Response → Option (List Diagnostic)
  | rejected errors => some errors
  | _ => none

/-- The errors of the request as a whole, if it failed. -/
def topLevelErrors? : Response → Option (List Diagnostic)
  | failed errors => some errors
  | _ => none

/-- Whether the query ran. -/
def isExecuted (response : Response) : Bool := response.output?.isSome

/-- The JSON form of a response. -/
def toJson : Response → Value
  | executed output => output.toJson
  | rejected errors => .obj [("validationErrors", Diagnostic.listToJson errors)]
  | failed errors => .obj [("errors", Diagnostic.listToJson errors)]

end Response
end TieredQuery
