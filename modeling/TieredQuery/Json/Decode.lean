import TieredQuery.Json.Skip

/-!
# Decoding typed values

A decoder reads a value of a given type. What it finds instead is named in the fault; a scalar of
another type is read to its end first, and its own faults count.
-/

namespace TieredQuery.Json

/-- Reads a value of a type, nesting arrays and objects at most a number of levels deep. -/
abbrev Decoder (α : Type) := (levels : Nat) → Reader α

/-- How deep arrays and objects may be nested in a text. -/
def greatestDepth : Nat := 127

/-- The fault of a value that is not of the expected type. -/
def mismatch (expected : String) (s : List Char) : Fault :=
  match s with
  | '[' :: _ => .here (.invalidType .sequence expected) s
  | '{' :: _ => .here (.invalidType .map expected) s
  | s =>
    -- a scalar is read to its end, so its own faults come first
    match scalar s with
    | .error fault => fault
    | .ok (v, rest) => .here (.invalidType v.found expected) rest

namespace Decoder

variable {α β : Type}

/-- Decodes and converts. -/
def map (f : α → β) (decoder : Decoder α) : Decoder β := fun levels s =>
  (decoder levels s).map fun (a, rest) => (f a, rest)

/-- Any value. -/
def any : Decoder Value := fun levels s => value levels s

/-- A string. -/
def string : Decoder String := fun _ s =>
  match skipBlanks s with
  | [] => .error (.here .valueEnds [])
  | '"' :: rest => stringBody [] rest
  | s => .error (mismatch "a string" s)

/-- An integer from zero to a limit; `expected` names its type. -/
def unsigned (expected : String) (limit : Nat) : Decoder Nat := fun _ s =>
  match skipBlanks s with
  | [] => .error (.here .valueEnds [])
  | c :: rest =>
    if c = '-' ∨ c.isDigit then
      match number (c :: rest) with
      | .error fault => .error fault
      | .ok (.int n, rest) =>
        if 0 ≤ n.val ∧ n.val ≤ limit then .ok (n.val.toNat, rest)
        else .error (.here (.invalidInteger n.val expected) rest)
      -- a double is of another type, also where it is a whole number
      | .ok (v, rest) => .error (.here (.invalidType v.found expected) rest)
    else .error (mismatch expected (c :: rest))

/-- A word; `expected` names its type. -/
def word (expected : String) : Decoder UInt64 :=
  (unsigned expected (UInt64.size - 1)).map UInt64.ofNat

/-- A value or null. -/
def optional (decoder : Decoder α) : Decoder (Option α) := fun levels s =>
  match skipBlanks s with
  | 'n' :: rest => Json.word none ['u', 'l', 'l'] rest
  | s => (decoder.map some) levels s

/-- A list. -/
def list (item : Decoder α) : Decoder (List α) := fun levels s =>
  match skipBlanks s with
  | [] => .error (.here .valueEnds [])
  | '[' :: rest => nested leaveList (fun levels => items (item levels)) levels ('[' :: rest)
  | s => .error (mismatch "a sequence" s)

/-- A dictionary. -/
def dictionary (item : Decoder α) : Decoder (Dictionary α) := fun levels s =>
  match skipBlanks s with
  | [] => .error (.here .valueEnds [])
  | '{' :: rest =>
    nested leaveObject (fun levels => members (entry (item levels)) .empty) levels ('{' :: rest)
  | s => .error (mismatch "a map" s)

/-! ## Choices -/

/-- The choice with a name. -/
def choose (choices : List (String × α)) (name : String) (rest : List Char) :
    Except Fault α :=
  match choices.lookup name with
  | some a => .ok a
  | none => .error (.here (.unknownVariant name (choices.map (·.1))) rest)

/-- One of several names: as a string, or as the only key of an object, with null for its value. -/
def choice (choices : List (String × α)) : Decoder α := fun _ s =>
  match skipBlanks s with
  | [] => .error (.here .valueEnds [])
  | '"' :: rest => do
    let (name, rest) ← stringBody [] rest
    let a ← choose choices name rest
    return (a, rest)
  | '{' :: rest =>
    match skipBlanks rest with
    | [] => .error (.here .objectEnds [])
    -- an object without a member names nothing
    | '}' :: rest => .error (.next .expectedValue ('}' :: rest))
    | '"' :: rest => do
      let (name, rest) ← stringBody [] rest
      let a ← choose choices name rest
      let rest ← colon rest
      let rest ← unit rest
      match skipBlanks rest with
      | [] => .error (.here .objectEnds [])
      | '}' :: rest => .ok (a, rest)
      | rest => .error (.here .expectedValue rest)
    | s => .error (.next .keyNotString s)
  | s => .error (.next .expectedValue s)
where
  /-- Goes past a null. -/
  unit (s : List Char) : Except Fault (List Char) :=
    match skipBlanks s with
    | [] => .error (.here .valueEnds [])
    | 'n' :: rest => (Json.word () ['u', 'l', 'l'] rest).map (·.2)
    | s => .error (mismatch "unit" s)

end Decoder

/-- Decodes a whole text; nothing but blanks may follow the value. -/
def decode {α : Type} (decoder : Decoder α) (text : String) : Except DecodeError α :=
  let chars := text.toList
  match decoder greatestDepth chars with
  | .error fault => .error (fault.locate chars)
  | .ok (a, rest) =>
    match skipBlanks rest with
    | [] => .ok a
    | rest => .error ((Fault.next .trailingCharacters rest).locate chars)

end TieredQuery.Json
