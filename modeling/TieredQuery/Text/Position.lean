/-!
# Byte offsets, lines and columns

Texts are lists of characters; places in them are counted in UTF-8 bytes.
-/

namespace TieredQuery.Text

/-- The number of UTF-8 bytes of a text. -/
def byteLength (s : List Char) : Nat := s.foldl (fun n c => n + c.utf8Size) 0

/-- A place in a text: its line, from one, and the bytes before it on that line. -/
structure Position where
  line : Nat
  column : Nat
deriving DecidableEq

namespace Position

/-- Moves a position over the next bytes of a text; the last byte may lie within a character. -/
def advance (p : Position) : (bytes : Nat) → List Char → Position
  | bytes, [] => ⟨p.line, p.column + bytes⟩
  | bytes, c :: cs =>
    if bytes < c.utf8Size then ⟨p.line, p.column + bytes⟩
    else if c = '\n' then advance ⟨p.line + 1, 0⟩ (bytes - 1) cs
    else advance ⟨p.line, p.column + c.utf8Size⟩ (bytes - c.utf8Size) cs

/-- The position of a byte offset. -/
def ofOffset (text : List Char) (offset : Nat) : Position := advance ⟨1, 0⟩ offset text

/-- The words for a position at the end of a sentence. -/
def describe (p : Position) : String :=
  " at line " ++ toString p.line ++ " column " ++ toString p.column

end Position
end TieredQuery.Text
