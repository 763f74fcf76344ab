import TieredQuery.Json.NumberText
import TieredQuery.Text.Position
import TieredQuery.Text.Quoted

/-!
# What can be wrong with a JSON text

A `Cause` says what is wrong and has one wording. While a text is read, a place in it is known by
the number of bytes that are still unread; `Fault.locate` turns that number into a line and a
column. Some faults are only seen when a container's content is complete: these are pending until
the reader has left the container, and are placed there.
-/

namespace TieredQuery.Json

/-- What stands where something else was expected. -/
inductive Found where
  | null
  | bool (b : Bool)
  | int (n : Int)
  | float (bits : UInt64)
  | str (s : String)
  | sequence
  | map
deriving DecidableEq

/-- Names the thing found. -/
def Found.message : Found → String
  | .null => "null"
  | .bool b => "boolean `" ++ (if b then "true" else "false") ++ "`"
  | .int n => "integer `" ++ toString n ++ "`"
  | .float bits => "floating point `" ++ String.ofList (NumberText.ofBits bits) ++ "`"
  | .str s => "string " ++ Text.Quoted.quote s
  | .sequence => "sequence"
  | .map => "map"

/-- The thing that a value is. -/
def Value.found : Value → Found
  | .null => .null
  | .bool b => .bool b
  | .int n => .int n.val
  | .float bits => .float bits
  | .str s => .str s
  | .arr _ => .sequence
  | .obj _ => .map

/-- The reason why a text is not what it should be. -/
inductive Cause where
  | valueEnds
  | stringEnds
  | listEnds
  | objectEnds
  | expectedValue
  | expectedIdent
  | expectedColon
  | expectedListSeparator
  | expectedObjectSeparator
  | trailingComma
  | trailingCharacters
  | keyNotString
  | controlCharacter
  | invalidEscape
  | loneSurrogate
  | brokenSurrogatePair
  | invalidNumber
  | numberOutOfRange
  | nestedTooDeep
  | invalidType (found : Found) (expected : String)
  | invalidInteger (n : Int) (expected : String)
  | unknownVariant (name : String) (known : List String)
  | duplicateField (name : String)
  | missingField (name : String)
  | invalidLength (length : Nat) (expected : String) (fields : Nat)
  | noVariant (name : String)
deriving DecidableEq

/-- A list of names between backticks, `a` or `b`; longer lists are separated by commas. -/
def oneOf : List String → String
  | [] => "nothing"
  | [a] => "`" ++ a ++ "`"
  | [a, b] => "`" ++ a ++ "` or `" ++ b ++ "`"
  | names => "one of " ++ ", ".intercalate (names.map fun name => "`" ++ name ++ "`")

/-- The wording of a cause. -/
def Cause.message : Cause → String
  | valueEnds => "EOF while parsing a value"
  | stringEnds => "EOF while parsing a string"
  | listEnds => "EOF while parsing a list"
  | objectEnds => "EOF while parsing an object"
  | expectedValue => "expected value"
  | expectedIdent => "expected ident"
  | expectedColon => "expected `:`"
  | expectedListSeparator => "expected `,` or `]`"
  | expectedObjectSeparator => "expected `,` or `\x7d`"
  | trailingComma => "trailing comma"
  | trailingCharacters => "trailing characters"
  | keyNotString => "key must be a string"
  | controlCharacter => "control character (\\u0000-\\u001F) found while parsing a string"
  | invalidEscape => "invalid escape"
  | loneSurrogate => "lone leading surrogate in hex escape"
  | brokenSurrogatePair => "unexpected end of hex escape"
  | invalidNumber => "invalid number"
  | numberOutOfRange => "number out of range"
  | nestedTooDeep => "recursion limit exceeded"
  | invalidType found expected => "invalid type: " ++ found.message ++ ", expected " ++ expected
  | invalidInteger n expected =>
    "invalid value: integer `" ++ toString n ++ "`, expected " ++ expected
  | unknownVariant name known => "unknown variant `" ++ name ++ "`, expected " ++ oneOf known
  | duplicateField name => "duplicate field `" ++ name ++ "`"
  | missingField name => "missing field `" ++ name ++ "`"
  | invalidLength length expected fields =>
    "invalid length " ++ toString length ++ ", expected " ++ expected ++ " with " ++
      toString fields ++ (if fields = 1 then " element" else " elements")
  | noVariant name => "data did not match any variant of untagged enum " ++ name

/-- A fault met while reading. -/
inductive Fault where
  /-- A fault before which all but a number of bytes were read. -/
  | placed (cause : Cause) (unread : Nat)
  /-- A fault that takes its place where the reader has left the container it is in; `rest` is
      the text from which it leaves. -/
  | pending (cause : Cause) (rest : List Char)

namespace Fault

/-- A fault right before the rest of the text. -/
def here (cause : Cause) (rest : List Char) : Fault := .placed cause (Text.byteLength rest)

/-- A fault one byte into the rest of the text, or at its end if nothing is left. -/
def next (cause : Cause) (rest : List Char) : Fault := .placed cause (Text.byteLength rest - 1)

end Fault

/-- Why a text was refused, and where. -/
structure DecodeError where
  cause : Cause
  position : Text.Position
deriving DecidableEq

/-- The wording of a refusal. -/
def DecodeError.message (e : DecodeError) : String :=
  e.cause.message ++ e.position.describe

/-- The refusal of a text with a fault. -/
def Fault.locate (text : List Char) : Fault → DecodeError
  | .placed cause unread => ⟨cause, .ofOffset text (Text.byteLength text - unread)⟩
  | .pending cause rest => ⟨cause, .ofOffset text (Text.byteLength text - Text.byteLength rest)⟩

end TieredQuery.Json
