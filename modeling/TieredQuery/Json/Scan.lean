import TieredQuery.Json.Fault

/-!
# Blanks, words and strings

The smallest parts of a JSON text. Every reader takes the characters that are left and returns
what it read together with the characters after it.
-/

namespace TieredQuery.Json

/-- A function that reads from the front of a text. -/
abbrev Reader (α : Type) := List Char → Except Fault (α × List Char)

/-- The characters that may stand between tokens. -/
def isBlank (c : Char) : Bool := c == ' ' || c == '\n' || c == '\t' || c == '\r'

/-- The text from its first character that is not a blank. -/
def skipBlanks (s : List Char) : List Char := s.dropWhile isBlank

/-- Reads the letters of a word after its first and answers with what the word means. -/
def word {α : Type} (meaning : α) : (letters : List Char) → Reader α
  | [], s => .ok (meaning, s)
  | _ :: _, [] => .error (.here .valueEnds [])
  | letter :: letters, c :: rest =>
    if c = letter then word meaning letters rest else .error (.next .expectedIdent (c :: rest))

/-! ## Strings -/

/-- A rest of a text, shorter than the text. -/
abbrev Shorter (s : List Char) := { rest : List Char // rest.length < s.length }

/-- The value of a hexadecimal digit. -/
def hexValue? (c : Char) : Option Nat :=
  if '0' ≤ c ∧ c ≤ '9' then some (c.toNat - '0'.toNat)
  else if 'a' ≤ c ∧ c ≤ 'f' then some (c.toNat - 'a'.toNat + 10)
  else if 'A' ≤ c ∧ c ≤ 'F' then some (c.toNat - 'A'.toNat + 10)
  else none

/-- The number that four hexadecimal digits at the front of a text write. -/
def hexUnit? : (s : List Char) → Option (Nat × Shorter s)
  | a :: b :: c :: d :: rest => do
    let a ← hexValue? a
    let b ← hexValue? b
    let c ← hexValue? c
    let d ← hexValue? d
    some (((a * 16 + b) * 16 + c) * 16 + d, ⟨rest, by simp only [List.length_cons]; omega⟩)
  | _ => none

/-- The fault of a text that should start with four hexadecimal digits. Four bytes are taken
    before they are looked at. -/
def hexUnitFault (s : List Char) : Fault :=
  let bytes := Text.byteLength s
  if bytes < 4 then .placed .stringEnds 0 else .placed .invalidEscape (bytes - 4)

/-- Reads four hexadecimal digits. -/
def hexUnit (s : List Char) : Except Fault (Nat × Shorter s) :=
  match hexUnit? s with
  | some unit => .ok unit
  | none => .error (hexUnitFault s)

/-- Reads the second half of a surrogate pair and answers with the character of the pair. -/
def surrogatePair (high : Nat) : (s : List Char) → Except Fault (Char × Shorter s)
  | '\\' :: 'u' :: rest =>
    match hexUnit rest with
    | .error fault => .error fault
    | .ok (low, ⟨after, shorter⟩) =>
      if 0xDC00 ≤ low ∧ low ≤ 0xDFFF then
        -- each half of the pair gives ten bits
        .ok (Char.ofNat (0x10000 + (high - 0xD800) * 0x400 + (low - 0xDC00)),
          ⟨after, by simp only [List.length_cons]; omega⟩)
      else .error (.here .loneSurrogate after)
  | ['\\'] => .error (.here .stringEnds [])
  | '\\' :: rest => .error (.next .brokenSurrogatePair rest)
  | [] => .error (.here .stringEnds [])
  | s => .error (.next .brokenSurrogatePair s)

/-- Reads what follows the backslash of an escape. -/
def unescape : (s : List Char) → Except Fault (Char × Shorter s)
  | '"' :: rest => .ok ('"', ⟨rest, by simp⟩)
  | '\\' :: rest => .ok ('\\', ⟨rest, by simp⟩)
  | '/' :: rest => .ok ('/', ⟨rest, by simp⟩)
  | 'b' :: rest => .ok ('\x08', ⟨rest, by simp⟩)
  | 'f' :: rest => .ok ('\x0c', ⟨rest, by simp⟩)
  | 'n' :: rest => .ok ('\n', ⟨rest, by simp⟩)
  | 'r' :: rest => .ok ('\r', ⟨rest, by simp⟩)
  | 't' :: rest => .ok ('\t', ⟨rest, by simp⟩)
  | 'u' :: rest =>
    match hexUnit rest with
    | .error fault => .error fault
    | .ok (unit, ⟨after, shorter⟩) =>
      -- the second half of a pair stands alone
      if 0xDC00 ≤ unit ∧ unit ≤ 0xDFFF then .error (.here .loneSurrogate after)
      else if 0xD800 ≤ unit ∧ unit ≤ 0xDBFF then
        match surrogatePair unit after with
        | .error fault => .error fault
        | .ok (c, ⟨rest, shortest⟩) => .ok (c, ⟨rest, by simp only [List.length_cons]; omega⟩)
      else .ok (Char.ofNat unit, ⟨after, by simp only [List.length_cons]; omega⟩)
  | [] => .error (.here .stringEnds [])
  | s => .error (.next .invalidEscape s)

/-- Reads a string after its opening quote; `read` holds the characters read so far, the last one
    first. -/
def stringBody (read : List Char) (s : List Char) : Except Fault (String × List Char) :=
  match s with
  | [] => .error (.here .stringEnds [])
  | '"' :: rest => .ok (String.ofList read.reverse, rest)
  | '\\' :: rest =>
    match unescape rest with
    | .error fault => .error fault
    | .ok (c, ⟨after, _⟩) => stringBody (c :: read) after
  | c :: rest =>
    if c < ' ' then .error (.here .controlCharacter rest) else stringBody (c :: read) rest
termination_by s.length
decreasing_by all_goals simp only [List.length_cons]; omega

end TieredQuery.Json
