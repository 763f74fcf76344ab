import TieredQuery.Json.NumberText
import TieredQuery.Text.Hex

/-!
# Writing JSON

Values are written without blanks. In strings the quote, the backslash and the control characters
below the blank are escaped, five of them by a letter; nothing else is.
-/

namespace TieredQuery.Json

/-- A character inside a string. -/
def escape (c : Char) : List Char :=
  match c with
  | '"' => ['\\', '"']
  | '\\' => ['\\', '\\']
  | '\x08' => ['\\', 'b']
  | '\t' => ['\\', 't']
  | '\n' => ['\\', 'n']
  | '\x0c' => ['\\', 'f']
  | '\r' => ['\\', 'r']
  | c => if c < ' ' then '\\' :: 'u' :: Text.Hex.padded 4 c.toNat else [c]

/-- A string with its quotes. -/
def quoted (s : String) : List Char := '"' :: (s.toList.flatMap escape ++ ['"'])

namespace Value

mutual

/-- The characters of a value. -/
def chars : Value → List Char
  | .null => ['n', 'u', 'l', 'l']
  | .bool true => ['t', 'r', 'u', 'e']
  | .bool false => ['f', 'a', 'l', 's', 'e']
  | .int n => n.chars
  | .float bits => NumberText.ofBits bits
  | .str s => quoted s
  | .arr [] => ['[', ']']
  | .arr (v :: rest) => '[' :: (v.chars ++ itemsChars rest)
  | .obj [] => ['{', '}']
  | .obj ((k, v) :: rest) => '{' :: (quoted k ++ ':' :: (v.chars ++ membersChars rest))

/-- The items after the first, and the closing bracket. -/
def itemsChars : List Value → List Char
  | [] => [']']
  | v :: rest => ',' :: (v.chars ++ itemsChars rest)

/-- The members after the first, and the closing brace. -/
def membersChars : List (String × Value) → List Char
  | [] => ['}']
  | (k, v) :: rest => ',' :: (quoted k ++ ':' :: (v.chars ++ membersChars rest))

end

/-- The text of a value. -/
def render (v : Value) : String := String.ofList v.chars

end Value
end TieredQuery.Json
