import TieredQuery.Json.Record
import TieredQuery.Json.Render

/-!
# Diagnostics

What a query language reports about a query: a message, the places in the query's text that it is
about, and the path of the response field that it is attached to. Places and path are left out of
the JSON form when there are none, and a step of a path is written as a bare name or a bare index.
-/

namespace TieredQuery

open Json (Value Record Field Decoder)

/-- A place in a query's text, counted from one. -/
structure Location where
  line : UInt64
  column : UInt64
deriving DecidableEq

/-- A step from a response to a part of it. -/
inductive PathStep where
  | field (name : String)
  | index (n : UInt64)
deriving DecidableEq

/-- A report about a query. -/
structure Diagnostic where
  message : String
  locations : List Location := []
  path : List PathStep := []
deriving DecidableEq

namespace Location

/-- The JSON form of a place. -/
def toJson (l : Location) : Value := .obj [("line", .word l.line), ("column", .word l.column)]

/-- How places are decoded. -/
def record : Record Location where
  name := "SourceLocation"
  blank := ⟨0, 0⟩
  fields := [
    .mandatory "line" (.word "usize") fun n l => { l with line := n },
    .mandatory "column" (.word "usize") fun n l => { l with column := n }]

end Location

namespace PathStep

/-- The JSON form of a step. -/
def toJson : PathStep → Value
  | field name => .str name
  | index n => .word n

/-- The step that a value writes. -/
def ofValue? : Value → Option PathStep
  | .str name => some (field name)
  | .int n => if 0 ≤ n.val then some (index (UInt64.ofNat n.val.toNat)) else none
  | _ => none

/-- Decodes a step. A value that writes no step is refused once its list is left. -/
def decoder : Decoder PathStep := fun levels s =>
  match Decoder.any levels s with
  | .error fault => .error fault
  | .ok (v, rest) =>
    match ofValue? v with
    | some step => .ok (step, rest)
    | none => .error (.pending (.noVariant "PathSegment") rest)

/-- A step is read back from the value that writes it. -/
theorem ofValue?_toJson (step : PathStep) : ofValue? step.toJson = some step := by
  cases step with
  | field name => rfl
  | index n => simp [toJson, Value.word, ofValue?, Json.Integer.ofWord]

end PathStep

namespace Diagnostic

/-- A diagnostic with only a message. -/
def ofMessage (message : String) : Diagnostic := ⟨message, [], []⟩

/-- Adds a place. -/
def locate (d : Diagnostic) (line column : UInt64) : Diagnostic :=
  { d with locations := d.locations ++ [⟨line, column⟩] }

/-- Sets the path. -/
def withPath (d : Diagnostic) (path : List PathStep) : Diagnostic := { d with path }

/-- A member for a list that is left out when empty. -/
def listMember (name : String) (items : List Value) : List (String × Value) :=
  if items.isEmpty then [] else [(name, .arr items)]

/-- The JSON form of a diagnostic. -/
def toJson (d : Diagnostic) : Value :=
  .obj (("message", .str d.message) ::
    (listMember "locations" (d.locations.map Location.toJson) ++
      listMember "path" (d.path.map PathStep.toJson)))

/-- The JSON form of some diagnostics. -/
def listToJson (ds : List Diagnostic) : Value := .arr (ds.map toJson)

/-- How diagnostics are decoded. -/
def record : Record Diagnostic where
  name := "QueryError"
  blank := ofMessage ""
  fields := [
    .mandatory "message" .string fun m d => { d with message := m },
    .optional "locations" (.list Location.record.decoder) fun ls d => { d with locations := ls },
    .optional "path" (.list PathStep.decoder) fun p d => { d with path := p }]

end Diagnostic
end TieredQuery
