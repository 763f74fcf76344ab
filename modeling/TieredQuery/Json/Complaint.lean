import TieredQuery.Text.Position

/-!
# Complaints in words of one's own

What cannot be written as JSON is refused in a free text. When the text ends in a place, such as
` at line 3 column 7`, the place is kept apart from the words and written again in the same way.
Lines are counted from one: a place on line zero is none, and goes.

`splitPlace?_describe` says that a place written at the end of a text is the one split off.
-/

namespace TieredQuery.Json

/-- Why something was refused, and where, if a place was given. -/
structure Complaint where
  words : String
  place : Option Text.Position := none
deriving DecidableEq

namespace Complaint

/-- Takes a word off a text that is given from its last character on. -/
def takeWord? (word : String) (reversed : List Char) : Option (List Char) :=
  word.toList.reverse.isPrefixOf? reversed

/-- Takes a number of at most sixty-four bits off a text that is given from its last character
    on. -/
def takeNumber? (reversed : List Char) : Option (Nat × List Char) :=
  let digits := reversed.takeWhile Char.isDigit
  let n := Nat.ofDigitChars 10 digits.reverse 0
  if digits.isEmpty ∨ UInt64.size ≤ n then none
  else some (n, reversed.dropWhile Char.isDigit)

/-- Splits a place off the end of a text. -/
def splitPlace? (text : List Char) : Option (List Char × Text.Position) := do
  let (column, rest) ← takeNumber? text.reverse
  let rest ← takeWord? " column " rest
  let (line, rest) ← takeNumber? rest
  let rest ← takeWord? " at line " rest
  return (rest.reverse, ⟨line, column⟩)

/-- The complaint that a text makes. -/
def ofText (text : String) : Complaint :=
  match splitPlace? text.toList with
  | none => ⟨text, none⟩
  | some (words, place) => ⟨String.ofList words, if place.line = 0 then none else some place⟩

/-- The wording of a complaint. -/
def message (c : Complaint) : String :=
  match c.place with
  | none => c.words
  | some place => c.words ++ place.describe

/-! ## Reading a place back -/

/-- A word at the end of a text is taken off. -/
theorem takeWord?_reverse (word : String) (text : List Char) :
    takeWord? word (text ++ word.toList).reverse = some text.reverse := by
  -- read backwards, the word is a prefix
  have found (p r : List Char) : p.isPrefixOf? (p ++ r) = some r := by
    induction p with
    | nil => cases r <;> rfl
    | cons c p ih =>
      show (if c == c then p.isPrefixOf? (p ++ r) else none) = some r
      rw [if_pos (beq_self_eq_true c), ih]
  rw [List.reverse_append]
  exact found _ _

/-- The digits of a number are taken off a text whose last character before them is no digit. -/
theorem takeNumber?_reverse {n : Nat} (text : List Char) (small : n < UInt64.size)
    (stop : text.getLast?.all (!·.isDigit)) :
    takeNumber? (text ++ Nat.toDigits 10 n).reverse = some (n, text.reverse) := by
  have digits : ∀ c ∈ (Nat.toDigits 10 n).reverse, c.isDigit = true := fun c mem =>
    Nat.isDigit_of_mem_toDigits (by decide) (by decide) (List.mem_reverse.1 mem)
  have taken : text.reverse.takeWhile Char.isDigit = [] ∧
      text.reverse.dropWhile Char.isDigit = text.reverse := by
    rw [← List.head?_reverse] at stop
    -- the text before the digits is empty, or ends in a character that is none
    cases h : text.reverse with
    | nil => simp
    | cons c rest => simp_all
  have nonempty : Nat.toDigits 10 n ≠ [] := Nat.toDigits_ne_nil
  have value : Nat.ofDigitChars 10 (Nat.toDigits 10 n) 0 = n :=
    Nat.ofDigitChars_toDigits (by decide) (by decide)
  rw [List.reverse_append, takeNumber?, List.takeWhile_append_of_pos digits,
    List.dropWhile_append_of_pos digits, taken.1, taken.2]
  simp only [List.append_nil, List.reverse_reverse, value]
  rw [if_neg]
  simp only [List.isEmpty_reverse, List.isEmpty_iff, not_or]
  exact ⟨nonempty, Nat.not_le.2 small⟩

/-- The place at the end of a text is split off. -/
theorem splitPlace?_describe (words : List Char) (place : Text.Position)
    (line : place.line < UInt64.size) (column : place.column < UInt64.size) :
    splitPlace? (words ++ place.describe.toList) = some (words, place) := by
  -- the place as it is taken apart: from the column back to the words
  have written : words ++ place.describe.toList =
      ((words ++ " at line ".toList) ++ Nat.toDigits 10 place.line ++ " column ".toList) ++
        Nat.toDigits 10 place.column := by
    simp [Text.Position.describe]
  -- both words end in a blank, at which the digits after them stop
  have stop (text : List Char) (word : String) (blank : word.toList.getLast? = some ' ') :
      (text ++ word.toList).getLast?.all (!·.isDigit) = true := by
    rw [List.getLast?_append, blank]; rfl
  rw [written, splitPlace?, takeNumber?_reverse _ column (stop _ _ rfl)]
  simp only [Option.bind_eq_bind, Option.bind_some, takeWord?_reverse]
  rw [takeNumber?_reverse _ line (stop _ _ rfl)]
  simp only [Option.bind_some, takeWord?_reverse, List.reverse_reverse, Option.pure_def]

end Complaint
end TieredQuery.Json
