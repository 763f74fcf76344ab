import TieredQuery.Json.Scan

/-!
# Numerals

A numeral is split into its digits first and valued afterwards. Its value is an integer if it has
neither fraction nor exponent and fits into sixty-four bits; otherwise it is a double, computed
from as many leading digits as an unsigned word holds and one power of ten.
-/

namespace TieredQuery.Json

/-- The digits of a numeral. -/
structure Numeral where
  negative : Bool
  whole : List Char
  fraction : Option (List Char)
  /-- Whether the exponent is negative, and its digits. -/
  exponent : Option (Bool × List Char)

namespace Numeral

/-! ## Reading the digits -/

/-- Reads the digits before the point: a zero alone, or digits that start with none. `atEnd` is
    the cause if the text ends too early. -/
def readWhole (atEnd : Cause) : Reader (List Char)
  | [] => .error (.here atEnd [])
  | '0' :: rest =>
    if rest.head?.any Char.isDigit then .error (.next .invalidNumber rest) else .ok (['0'], rest)
  | c :: rest =>
    if c.isDigit then .ok (c :: rest.takeWhile Char.isDigit, rest.dropWhile Char.isDigit)
    else .error (.next .invalidNumber (c :: rest))

/-- Reads at least one digit. -/
def readDigits (atEnd : Cause) : Reader (List Char)
  | [] => .error (.here atEnd [])
  | c :: rest =>
    if c.isDigit then .ok (c :: rest.takeWhile Char.isDigit, rest.dropWhile Char.isDigit)
    else .error (.next .invalidNumber (c :: rest))

/-- Reads a point and digits, if there is a point. -/
def readFraction (atEnd : Cause) : Reader (Option (List Char))
  | '.' :: rest =>
    match readDigits atEnd rest with
    | .error fault => .error fault
    | .ok (digits, rest) => .ok (some digits, rest)
  | s => .ok (none, s)

/-- Splits off a sign; the answer says whether it is a minus. -/
def splitSign : List Char → Bool × List Char
  | '+' :: rest => (false, rest)
  | '-' :: rest => (true, rest)
  | s => (false, s)

/-- Reads an exponent, if there is one. -/
def readExponent (atEnd : Cause) : Reader (Option (Bool × List Char))
  | [] => .ok (none, [])
  | c :: rest =>
    if c = 'e' ∨ c = 'E' then
      let (negative, rest) := splitSign rest
      match readDigits atEnd rest with
      | .error fault => .error fault
      | .ok (digits, rest) => .ok (some (negative, digits), rest)
    else .ok (none, c :: rest)

/-- Reads a numeral. -/
def read (atEnd : Cause) (s : List Char) : Except Fault (Numeral × List Char) := do
  let (negative, s) := match s with
    | '-' :: rest => (true, rest)
    | s => (false, s)
  let (whole, s) ← readWhole atEnd s
  let (fraction, s) ← readFraction atEnd s
  let (exponent, s) ← readExponent atEnd s
  return (⟨negative, whole, fraction, exponent⟩, s)

/-! ## Valuing the digits -/

/-- The value of a decimal digit. -/
def digitValue (c : Char) : Nat := c.toNat - '0'.toNat

/-- The greatest unsigned word. -/
def greatestWord : Nat := UInt64.size - 1

/-- The greatest exponent that is told apart from greater ones, the greatest signed half word. -/
def greatestExponent : Nat := 0x7FFFFFFF

/-- The significand of the digits before the point, and the count of digits left out: once a
    digit does not fit, it and all later ones only raise the power of ten. -/
def wholeValue (digits : List Char) : Nat × Nat :=
  digits.foldl (fun (significand, dropped) c =>
    -- a digit that would fit again after one that did not is left out as well
    let longer := significand * 10 + digitValue c
    if dropped = 0 ∧ longer ≤ greatestWord then (longer, 0) else (significand, dropped + 1)) (0, 0)

/-- Appends digits after the point while they fit, and counts them. -/
def fractionValue (significand : Nat) : List Char → Nat × Nat
  | [] => (significand, 0)
  | c :: rest =>
    let longer := significand * 10 + digitValue c
    if longer ≤ greatestWord then
      let (significand, places) := fractionValue longer rest
      (significand, places + 1)
    else (significand, 0)

/-- The value of an exponent's digits, or the digits after the one that makes it too great. -/
def exponentValue (value : Nat) : List Char → Except (List Char) Nat
  | [] => .ok value
  | c :: rest =>
    let longer := value * 10 + digitValue c
    if longer ≤ greatestExponent then exponentValue longer rest else .error rest

/-- The double nearest to a power of ten. -/
def tenTo (n : Nat) : Float := Float.ofScientific 1 false n

/-- Divides by a power of ten, at most three hundred and eight places at once. -/
def divideByTenTo (f : Float) (n : Nat) : Float :=
  if n ≤ 308 then f / tenTo n
  else if f == 0 then f
  else divideByTenTo (f / tenTo 308) (n - 308)
termination_by n
decreasing_by omega

/-- The double `significand * 10 ^ power`; none if it is too great. -/
def double? (significand : Nat) (power : Int) : Option Float :=
  let f := Float.ofNat significand
  match power with
  | .negSucc n => some (divideByTenTo f (n + 1))
  | .ofNat n =>
    -- a greater power of ten is no double, and only zero times it is one
    if n ≤ 308 then
      let g := f * tenTo n
      if g.isInf then none else some g
    else if f == 0 then some f else none

/-- A double with a sign, as a value. -/
def signed (negative : Bool) (f : Float) : Value := .float (if negative then -f else f).toBits

/-- An integer as a value. A negative zero and what does not fit become doubles. -/
def integer (negative : Bool) (significand : Nat) : Value :=
  let n : Int := if negative then -significand else significand
  if negative ∧ significand = 0 then signed true 0
  else match Integer.ofInt? n with
    | some n => .int n
    | none => signed negative (Float.ofNat significand)

/-- The value of a numeral before which the text `rest` was left. -/
def value (n : Numeral) (rest : List Char) : Except Fault Value :=
  let (significand, dropped) := wholeValue n.whole
  match n.fraction, n.exponent, dropped with
  | none, none, 0 => .ok (integer n.negative significand)
  | fraction, exponent, dropped =>
    let (significand, places) := fractionValue significand (fraction.getD [])
    -- digits left out before the point raise the power, and digits after it lower it
    let power : Int := dropped - places
    let shifted (power : Int) : Except Fault Value :=
      match double? significand power with
      | some f => .ok (signed n.negative f)
      | none => .error (.here .numberOutOfRange rest)
    match exponent with
    | none => shifted power
    | some (down, digits) =>
      match exponentValue 0 digits with
      | .ok e => shifted (if down then power - e else power + e)
      | .error later =>
        -- the exponent itself is too great: so is the number, or else it rounds to zero
        if !down && significand != 0 then .error (.here .numberOutOfRange (later ++ rest))
        else .ok (signed n.negative 0)

end Numeral

/-- Reads a number. -/
def number (s : List Char) : Except Fault (Value × List Char) := do
  let (numeral, rest) ← Numeral.read .valueEnds s
  let value ← numeral.value rest
  return (value, rest)

end TieredQuery.Json
