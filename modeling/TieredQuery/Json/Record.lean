import TieredQuery.Json.Decode

/-!
# Decoding records

A record is an object with named fields, or an array of their values in order. A record type is
described by its name, a blank record and its fields, each of which reads its value into a record.
Unknown members of an object are skipped.
-/

namespace TieredQuery.Json

/-- A field of a record type. -/
structure Field (ρ : Type) where
  name : String
  required : Bool
  read : Decoder (ρ → ρ)

namespace Field

variable {ρ α : Type}

/-- A field that must be given. -/
def mandatory (name : String) (decoder : Decoder α) (set : α → ρ → ρ) : Field ρ :=
  ⟨name, true, decoder.map set⟩

/-- A field that the blank record has a value for. -/
def optional (name : String) (decoder : Decoder α) (set : α → ρ → ρ) : Field ρ :=
  ⟨name, false, decoder.map set⟩

end Field

/-- The description of a record type. -/
structure Record (ρ : Type) where
  name : String
  blank : ρ
  fields : List (Field ρ)

namespace Record

variable {ρ : Type}

/-- How the type is named in faults. -/
def expected (r : Record ρ) : String := "struct " ++ r.name

/-! ## As an object -/

/-- Reads a member into the record read so far, with the names of the fields given so far. -/
def member (r : Record ρ) (levels : Nat) (key : String) :
    List String × ρ → Reader (List String × ρ) := fun (given, record) s =>
  match r.fields.find? (·.name == key) with
  | none => do
    -- no field has this name: the value is skipped, whatever it is
    let s ← colon s
    let s ← Skip.value s
    return ((given, record), s)
  | some field =>
    -- the fault takes its place where the object is left from here
    if key ∈ given then .error (.pending (.duplicateField key) s)
    else do
      let s ← colon s
      let (set, s) ← field.read levels s
      return ((key :: given, set record), s)

/-- The members of a record; every required field must be among them. -/
def ofMembers (r : Record ρ) (levels : Nat) : Reader ρ := fun s => do
  let ((given, record), rest) ← members (r.member levels) ([], r.blank) s
  match r.fields.find? fun field => field.required && field.name ∉ given with
  | some field => .error (.pending (.missingField field.name) rest)
  | none => .ok (record, rest)

/-! ## As an array -/

/-- Reads the values of fields in order; `index` is the position of the first of them. -/
def ofItemsFrom (r : Record ρ) (levels : Nat) :
    (fields : List (Field ρ)) → (index : Nat) → ρ → Reader ρ
  | [], _, record, s => .ok (record, s)
  | field :: fields, index, record, s => do
    let (more, s) ← nextItem (index == 0) s
    if more then
      let (set, s) ← field.read levels s
      ofItemsFrom r levels fields (index + 1) (set record) s
    -- the array has ended: a field that may be left out keeps what the blank record has
    else if field.required then
      .error (.pending (.invalidLength index r.expected r.fields.length) s)
    else ofItemsFrom r levels fields (index + 1) record s

/-- The values of all fields. -/
def ofItems (r : Record ρ) (levels : Nat) : Reader ρ := ofItemsFrom r levels r.fields 0 r.blank

/-- Decodes a record. -/
def decoder (r : Record ρ) : Decoder ρ := fun levels s =>
  match skipBlanks s with
  | [] => .error (.here .valueEnds [])
  | '{' :: rest => nested leaveObject r.ofMembers levels ('{' :: rest)
  | '[' :: rest => nested leaveList r.ofItems levels ('[' :: rest)
  | s => .error (mismatch r.expected s)

end Record
end TieredQuery.Json
