/-!
# Diagnostic texts of values

A diagnostic text names a type and lists its fields in braces; an optional value stands in
parentheses after a word, and spans of time are written in their largest whole unit.
-/

namespace TieredQuery.Text

/-- The text of a value with named fields, for at least one field. -/
def layout (name : String) (fields : List (String × String)) : String :=
  name ++ " \x7b " ++ ", ".intercalate (fields.map fun (field, text) => field ++ ": " ++ text) ++
    " \x7d"

/-- The text of an optional value. -/
def layoutOption {α : Type} (text : α → String) : Option α → String
  | none => "None"
  | some a => "Some(" ++ text a ++ ")"

/-- The text of a truth value. -/
def layoutBool (b : Bool) : String := if b then "true" else "false"

namespace Span

/-- A count of a unit's parts as a decimal of the unit, which has `10 ^ places` parts. Zeros at
    the end are left out, and so is a bare point. -/
def decimal (parts places : Nat) : String :=
  let unit := Nat.pow 10 places
  let fraction := (Nat.toDigits 10 (parts % unit)).leftpad places '0'
  let kept := (fraction.reverse.dropWhile (· == '0')).reverse
  String.ofList (Nat.toDigits 10 (parts / unit) ++ if kept.isEmpty then [] else '.' :: kept)

/-- The text of a span of nanoseconds: in seconds from one second on, else in milliseconds from
    one of these on, and so down to nanoseconds. -/
def describe (nanoseconds : Nat) : String :=
  if 1000000000 ≤ nanoseconds then decimal nanoseconds 9 ++ "s"
  else if 1000000 ≤ nanoseconds then decimal nanoseconds 6 ++ "ms"
  else if 1000 ≤ nanoseconds then decimal nanoseconds 3 ++ "µs"
  else toString nanoseconds ++ "ns"

end Span
end TieredQuery.Text
