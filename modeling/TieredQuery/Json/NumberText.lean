import TieredQuery.Json.Value
import TieredQuery.Decimal.Shortest

/-!
# The text of JSON numbers

Integers are written in decimal. A double is written with the fewest digits that read back:
positionally while the decimal point lies among or near the digits, otherwise with a signed
exponent.
-/

namespace TieredQuery.Json

/-- The digits of an integer, after a minus sign if it is negative. -/
def Integer.chars (n : Integer) : List Char :=
  match n.val with
  | .ofNat k => Nat.toDigits 10 k
  | .negSucc k => '-' :: Nat.toDigits 10 (k + 1)

namespace NumberText

/-- The greatest number of places before the point that are written positionally. -/
def greatestPoint : Int := 16

/-- The least place of the first digit, counted like `greatestPoint`, that is written
    positionally. -/
def leastPoint : Int := -4

/-- Writes the number `0.d₁d₂… * 10 ^ point`; a whole number keeps one zero after the point. -/
def layout (digits : List Char) (point : Int) : List Char :=
  if 0 < point ∧ point ≤ greatestPoint then
    -- the point stands among the digits, or after zeros that are put behind them
    let places := point.toNat
    if digits.length ≤ places then
      digits ++ List.replicate (places - digits.length) '0' ++ ['.', '0']
    else digits.take places ++ '.' :: digits.drop places
  else if leastPoint ≤ point ∧ point ≤ 0 then
    -- the point stands before the digits, with zeros in between
    '0' :: '.' :: (List.replicate (-point).toNat '0' ++ digits)
  else
    -- the point stands after the first digit, and the exponent makes up for it
    let fraction := if digits.length ≤ 1 then [] else '.' :: digits.drop 1
    let power := point - 1
    let sign := if power < 0 then '-' else '+'
    digits.take 1 ++ fraction ++ 'e' :: sign :: Nat.toDigits 10 power.natAbs

/-- The text of a finite double. -/
def ofBinary64 (x : Decimal.Binary64) : List Char :=
  let magnitude :=
    if x.significand = 0 then ['0', '.', '0']
    else
      let d := x.shortest
      let digits := Nat.toDigits 10 d.digits
      layout digits (digits.length + d.exponent)
  if x.negative then '-' :: magnitude else magnitude

/-- The text of a double; infinities and NaNs, which have no numeral, are written as null. -/
def ofBits (bits : UInt64) : List Char :=
  match Decimal.Binary64.ofBits bits with
  | some x => ofBinary64 x
  | none => ['n', 'u', 'l', 'l']

end NumberText
end TieredQuery.Json
