import TieredQuery.Decimal.Binary64

/-!
# A set number of decimal places

The exact value of a double, rounded to the nearest decimal of a given number of places; a half
goes to the even neighbour. `roundDiv_near` says that the rounded quotient is within half a unit,
and `roundDiv_tie` that a half becomes even.
-/

namespace TieredQuery.Decimal

/-- The integer nearest to `num / den`, of two the even one. -/
def roundDiv (num den : Nat) : Nat :=
  let quotient := num / den
  match compare (2 * (num % den)) den with
  | .lt => quotient
  | .gt => quotient + 1
  | .eq => quotient + quotient % 2

/-- A rounded quotient is within half a unit of the quotient. -/
theorem roundDiv_near (num den : Nat) (h : 0 < den) :
    2 * num ≤ 2 * (roundDiv num den * den) + den ∧
      2 * (roundDiv num den * den) ≤ 2 * num + den := by
  have split_num := Nat.div_add_mod num den
  have small := Nat.mod_lt num h
  have even_or := Nat.mod_two_eq_zero_or_one (num / den)
  have comm : num / den * den = den * (num / den) := Nat.mul_comm _ _
  unfold roundDiv
  -- Case split on the remainder: below half a unit, above it, or just that.
  cases c : compare (2 * (num % den)) den with
  | lt => simp only; rw [Nat.compare_eq_lt] at c; omega
  | gt => simp only [Nat.add_mul, Nat.one_mul]; rw [Nat.compare_eq_gt] at c; omega
  | eq =>
    rw [Nat.compare_eq_eq] at c
    rcases even_or with e | e <;> simp only [e, Nat.add_mul, Nat.zero_mul, Nat.one_mul] <;> omega

/-- A half goes to the even neighbour. -/
theorem roundDiv_tie (num den : Nat) (h : 2 * (num % den) = den) : roundDiv num den % 2 = 0 := by
  have c : compare (2 * (num % den)) den = .eq := Nat.compare_eq_eq.2 h
  have even_or := Nat.mod_two_eq_zero_or_one (num / den)
  simp only [roundDiv, c]
  omega

/-- The text of a whole number of units of `10 ^ (-places)`, for at least one place. -/
def fixedText (places units : Nat) : String :=
  -- zeros in front, so that a digit is left before the point
  let digits := (Nat.toDigits 10 units).leftpad (places + 1) '0'
  let whole := digits.take (digits.length - places)
  String.ofList (whole ++ '.' :: digits.drop (digits.length - places))

/-- Writes a double with a set number of places. -/
def fixed (places : Nat) (x : Binary64) : String :=
  let (num, den) := x.ratio
  (if x.negative then "-" else "") ++ fixedText places (roundDiv (num * Nat.pow 10 places) den)

end TieredQuery.Decimal
