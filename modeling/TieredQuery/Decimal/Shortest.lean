import TieredQuery.Decimal.Binary64

/-!
# The fewest digits that read back

A double stands for an interval of reals: all that round to it, the ends included exactly when
its significand is even. Among the decimals in that interval `Binary64.shortest` selects one with
the fewest digits, of two the nearer, and of two equally near the one whose last digit is even.

The search walks the grids of one digit, two digits and so on. If a point of a grid lies in the
interval, so does one of the two neighbours of the value on that grid; hence testing the
neighbours is enough. Seventeen digits always suffice.
-/

namespace TieredQuery.Decimal

/-- The number `digits * 10 ^ exponent`. -/
structure Scientific where
  digits : Nat
  exponent : Int
deriving DecidableEq

namespace Scientific

/-- Moves zeros at the end of the digits into the exponent; `fuel` bounds their number. -/
def strip : (fuel : Nat) → Scientific → Scientific
  | 0, d => d
  | fuel + 1, d => if d.digits % 10 = 0 then strip fuel ⟨d.digits / 10, d.exponent + 1⟩ else d

/-- Compares a decimal with `n * 2 ^ e`. -/
def compareBinary (d : Scientific) (n : Nat) (e : Int) : Ordering :=
  let (num, den) := Binary64.scaled n e
  compare (d.digits * Nat.pow 10 d.exponent.toNat * den) (num * Nat.pow 10 (-d.exponent).toNat)

end Scientific

namespace Binary64

/-- The least `k` with `x < 10 ^ k`. A positive magnitude is above `10 ^ (-324)`, so three hundred
    and thirty places after the point show its first digit. -/
def scale (x : Binary64) : Int :=
  let (num, den) := x.ratio
  ((Nat.toDigits 10 (num * Nat.pow 10 330 / den)).length : Int) - 330

/-- Whether a decimal rounds to `x`. -/
def readsBack (x : Binary64) (d : Scientific) : Bool :=
  -- the ends of the interval, in quarters of the last place of the significand
  let below := if x.narrowBelow then 4 * x.significand - 1 else 4 * x.significand - 2
  let above := 4 * x.significand + 2
  let closed := x.significand % 2 == 0
  let low := d.compareBinary below (x.exponent - 2)
  let high := d.compareBinary above (x.exponent - 2)
  (low == .gt || closed && low == .eq) && (high == .lt || closed && high == .eq)

/-- The greatest multiple of `10 ^ place` that is at most `x`. -/
def floorOnGrid (x : Binary64) (place : Int) : Nat :=
  let (num, den) := x.ratio
  num * Nat.pow 10 (-place).toNat / (den * Nat.pow 10 place.toNat)

/-- The multiple of `10 ^ place` that stands for `x`, if there is one. -/
def onGrid? (x : Binary64) (place : Int) : Option Scientific :=
  let lower := x.floorOnGrid place
  let below : Scientific := ⟨lower, place⟩
  let above : Scientific := ⟨lower + 1, place⟩
  match x.readsBack below, x.readsBack above with
  | false, false => none
  | true, false => some below
  | false, true => some above
  | true, true =>
    -- The sum of the two neighbours against twice the value.
    match Scientific.compareBinary ⟨2 * lower + 1, place⟩ (2 * x.significand) x.exponent with
    | .gt => some below
    | .lt => some above
    | .eq => some (if lower % 2 = 0 then below else above)

/-- The magnitude itself, written out. -/
def exact (x : Binary64) : Scientific :=
  if 0 ≤ x.exponent then ⟨x.significand * Nat.pow 2 x.exponent.toNat, 0⟩
  -- `2 ^ (-n)` is `5 ^ n * 10 ^ (-n)`
  else ⟨x.significand * Nat.pow 5 (-x.exponent).toNat, x.exponent⟩

/-- The first decimal that reads back, from the coarsest of seventeen grids on. -/
def onGrids? (x : Binary64) : Option Scientific :=
  (List.range 17).findSome? fun (n : Nat) => x.onGrid? (x.scale - 1 - n)

/-- The selected decimal of a positive magnitude. -/
def shortest (x : Binary64) : Scientific := x.onGrids?.elim x.exact (Scientific.strip 17)

end Binary64
end TieredQuery.Decimal
