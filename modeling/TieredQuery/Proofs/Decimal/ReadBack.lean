import Mathlib.Algebra.Order.Field.Power
import Mathlib.Data.Rat.Cast.Order
import Mathlib.Tactic.FieldSimp
import Mathlib.Tactic.Linarith
import Mathlib.Tactic.NormNum
import Mathlib.Tactic.Ring
import TieredQuery.Decimal.Shortest

/-!
# Decimals stand for one double

A double stands for the rationals that round to it (`Binary64.Rounds`), an interval whose ends
belong to it exactly when its significand is even. The intervals of two doubles do not meet: where
they touch, one of the significands is odd. So a decimal reads back as one magnitude only
(`eq_of_rounds`), and since the selected decimal of a double reads back as that double
(`rounds_shortest`), no two doubles of one sign have the same.

All comparisons are made over the rationals, where `compareBinary` is the usual order
(`compareBinary_eq`).

## Key results

- `readsBack_iff`: what is tested, as membership in the interval
- `eq_of_rounds`: the intervals of doubles are disjoint
- `rounds_shortest`, `eq_of_written`: the selected decimal
- `ofBits_injective`: the exact value of a double determines its bits
-/

namespace TieredQuery.Decimal

/-! ## Values -/

/-- The value of a decimal. -/
def Scientific.toRat (d : Scientific) : ℚ := d.digits * 10 ^ d.exponent

/-- A power with an integer exponent, times the denominator that `scaled` gives it. -/
theorem zpow_mul_pow_toNat {b : ℚ} (hb : b ≠ 0) (e : Int) :
    b ^ e * b ^ (-e).toNat = b ^ e.toNat := by
  rw [← zpow_natCast, ← zpow_natCast, ← zpow_add₀ hb]
  congr 1
  omega

namespace Scientific

/-- Dropping zeros at the end does not change the value. -/
theorem toRat_strip (fuel : Nat) (d : Scientific) : (d.strip fuel).toRat = d.toRat := by
  induction fuel generalizing d with
  | zero => rfl
  | succ fuel ih =>
    rw [strip]
    split
    next hzero =>
      -- a digit that is dropped is made up for by the exponent
      rw [ih]
      have hdigits : (d.digits : ℚ) = (d.digits / 10 : Nat) * 10 := by
        exact_mod_cast (Nat.div_mul_cancel (Nat.dvd_of_mod_eq_zero hzero)).symm
      rw [toRat, toRat, hdigits, zpow_add_one₀ (by norm_num)]
      ring
    next => rfl

/-- Decimals and binary fractions are compared as rationals. -/
theorem compareBinary_eq (d : Scientific) (n : Nat) (e : Int) :
    d.compareBinary n e = compare d.toRat (n * 2 ^ e) := by
  -- both sides times the denominators of both
  let denominators : ℚ := 10 ^ (-d.exponent).toNat * 2 ^ (-e).toNat
  have hpos : 0 < denominators := by positivity
  have hdecimal : d.toRat * denominators =
      (d.digits * 10 ^ d.exponent.toNat * 2 ^ (-e).toNat : Nat) := by
    have hten := zpow_mul_pow_toNat (b := 10) (by norm_num) d.exponent
    push_cast
    rw [← hten, toRat]
    ring
  have hbinary : (n * 2 ^ e : ℚ) * denominators =
      (n * 2 ^ e.toNat * 10 ^ (-d.exponent).toNat : Nat) := by
    have htwo := zpow_mul_pow_toNat (b := 2) (by norm_num) e
    push_cast
    rw [← htwo]
    ring
  show compare (d.digits * 10 ^ d.exponent.toNat * 2 ^ (-e).toNat)
    (n * 2 ^ e.toNat * 10 ^ (-d.exponent).toNat) = _
  -- two natural numbers are compared, which stand for both sides
  generalize d.digits * 10 ^ d.exponent.toNat * 2 ^ (-e).toNat = a at hdecimal
  generalize n * 2 ^ e.toNat * 10 ^ (-d.exponent).toNat = b at hbinary
  rcases lt_trichotomy a b with hlt | heq | hgt
  · have hless : d.toRat < n * 2 ^ e := by
      rwa [← mul_lt_mul_iff_of_pos_right hpos, hdecimal, hbinary, Nat.cast_lt]
    rw [compare_lt_iff_lt.mpr hlt, compare_lt_iff_lt.mpr hless]
  · have hequal : d.toRat = n * 2 ^ e := by
      rwa [← mul_left_inj' hpos.ne', hdecimal, hbinary, Nat.cast_inj]
    rw [compare_eq_iff_eq.mpr heq, compare_eq_iff_eq.mpr hequal]
  · have hgreater : n * 2 ^ e < d.toRat := by
      rwa [← mul_lt_mul_iff_of_pos_right hpos, hdecimal, hbinary, Nat.cast_lt]
    rw [compare_gt_iff_gt.mpr hgt, compare_gt_iff_gt.mpr hgreater]

end Scientific

namespace Binary64

/-! ## The interval of a double -/

/-- The ends of the interval, in quarters of the last place. -/
def below (x : Binary64) : Nat :=
  if x.narrowBelow then 4 * x.significand - 1 else 4 * x.significand - 2

def above (x : Binary64) : Nat := 4 * x.significand + 2

/-- The value of a number of quarters of the last place. -/
def quarters (x : Binary64) (n : Nat) : ℚ := n * 2 ^ (x.exponent - 2)

/-- Whether a rational rounds to the magnitude of a double. -/
def Rounds (x : Binary64) (q : ℚ) : Prop :=
  (x.quarters x.below < q ∨ x.significand % 2 = 0 ∧ x.quarters x.below = q) ∧
  (q < x.quarters x.above ∨ x.significand % 2 = 0 ∧ q = x.quarters x.above)

/-- Whether a decimal reads back is whether its value rounds to the double. -/
theorem readsBack_iff (x : Binary64) (d : Scientific) :
    x.readsBack d = true ↔ x.Rounds d.toRat := by
  -- the two ends are compared with the decimal, each as rationals
  have hlow : d.compareBinary x.below (x.exponent - 2) = compare d.toRat (x.quarters x.below) :=
    d.compareBinary_eq _ _
  have hhigh : d.compareBinary x.above (x.exponent - 2) = compare d.toRat (x.quarters x.above) :=
    d.compareBinary_eq _ _
  have htest : x.readsBack d =
      ((compare d.toRat (x.quarters x.below) == .gt ||
          x.significand % 2 == 0 && compare d.toRat (x.quarters x.below) == .eq) &&
        (compare d.toRat (x.quarters x.above) == .lt ||
          x.significand % 2 == 0 && compare d.toRat (x.quarters x.above) == .eq)) := by
    rw [← hlow, ← hhigh]
    rfl
  rw [htest, Rounds]
  simp only [Bool.and_eq_true, Bool.or_eq_true, beq_iff_eq, compare_gt_iff_gt, compare_lt_iff_lt,
    compare_eq_iff_eq]
  rw [eq_comm (a := d.toRat) (b := x.quarters x.below)]

/-- The exact values that doubles have: the significand of a double below the least normal one is
    short, that of any other has the leading bit. -/
def Regular (x : Binary64) : Prop :=
  x.exponent = -1074 ∧ x.significand < leadingBit ∨
    -1074 ≤ x.exponent ∧ leadingBit ≤ x.significand ∧ x.significand < 2 * leadingBit

/-- The exact value of a double is one that doubles have. -/
theorem regular_ofBits {bits : UInt64} {x : Binary64} (h : ofBits bits = some x) : x.Regular := by
  -- the fraction is short; a normal significand has the leading bit besides
  have hfraction : bits.toNat % leadingBit < leadingBit := Nat.mod_lt _ (by decide)
  unfold ofBits at h
  dsimp only at h
  split at h
  next => cases h
  next =>
    split at h
    next =>
      cases h
      exact Or.inl ⟨rfl, hfraction⟩
    next hscale =>
      cases h
      exact Or.inr ⟨by dsimp only; omega, by dsimp only; omega, by dsimp only; omega⟩

/-- The exact value of a double determines its bits. -/
theorem ofBits_injective {bits bits' : UInt64} {x : Binary64} (h : ofBits bits = some x)
    (h' : ofBits bits' = some x) : bits = bits' := by
  have hlt := bits.toNat_lt
  have hlt' := bits'.toNat_lt
  refine UInt64.toNat_inj.mp ?_
  unfold ofBits leadingBit scales at h h'
  dsimp only at h h'
  -- the sign, the scale and the fraction of both are those of the value
  split at h
  next => cases h
  next =>
    split at h'
    next => cases h'
    next =>
      split at h <;> split at h' <;> cases h <;>
        simp only [Option.some.injEq, Binary64.mk.injEq, decide_eq_decide] at h' <;> omega

/-! ## Intervals do not meet -/

/-- The order of regular doubles by magnitude. -/
def Precedes (x y : Binary64) : Prop :=
  x.exponent < y.exponent ∨ x.exponent = y.exponent ∧ x.significand < y.significand

/-- Quarters of different last places, of which one is at least `k` times the other. -/
theorem quarters_le {x y : Binary64} {k : Nat}
    (hplace : (2 : ℚ) ^ (x.exponent - 2) * k ≤ 2 ^ (y.exponent - 2)) {n n' : Nat}
    (h : n ≤ k * n') : x.quarters n ≤ y.quarters n' := by
  have hpos : (0 : ℚ) < 2 ^ (x.exponent - 2) := by positivity
  have hcast : (n : ℚ) ≤ k * n' := by exact_mod_cast h
  calc x.quarters n ≤ k * n' * 2 ^ (x.exponent - 2) := mul_le_mul_of_nonneg_right hcast hpos.le
    _ = n' * (2 ^ (x.exponent - 2) * k) := by ring
    _ ≤ y.quarters n' := mul_le_mul_of_nonneg_left hplace n'.cast_nonneg

/-- The same, strictly. -/
theorem quarters_lt {x y : Binary64} {k : Nat}
    (hplace : (2 : ℚ) ^ (x.exponent - 2) * k ≤ 2 ^ (y.exponent - 2)) {n n' : Nat}
    (h : n < k * n') : x.quarters n < y.quarters n' := by
  have hpos : (0 : ℚ) < 2 ^ (x.exponent - 2) := by positivity
  -- one quarter more would still not be too much
  have hless : x.quarters n < x.quarters (n + 1) := by
    refine mul_lt_mul_of_pos_right ?_ hpos
    exact_mod_cast Nat.lt_succ_self n
  exact hless.trans_le (quarters_le hplace h)

/-- The interval of a double ends where that of a greater one begins or before. They touch only if
    one of the significands is odd. -/
theorem quarters_above_le {x y : Binary64} (hx : x.Regular) (hy : y.Regular) (h : x.Precedes y) :
    x.quarters x.above ≤ y.quarters y.below ∧
      (x.significand % 2 = 0 → y.significand % 2 = 0 →
        x.quarters x.above < y.quarters y.below) := by
  -- the lower end is two quarters away, or one at the foot of a binade
  have hbelow : y.below = 4 * y.significand - 2 ∨
      y.below = 4 * y.significand - 1 ∧ y.significand = leadingBit ∧ y.exponent ≠ -1074 := by
    unfold below narrowBelow
    split
    next hnarrow => exact Or.inr ⟨rfl, by simpa using hnarrow⟩
    next => exact Or.inl rfl
  have hwide : y.exponent ≠ -1074 → y.significand = leadingBit →
      y.below = 4 * y.significand - 1 := by
    intro hexponent hsignificand
    rw [below, if_pos (by simp [narrowBelow, hexponent, hsignificand])]
  unfold Regular at hx hy
  unfold above
  unfold leadingBit at *
  rcases h with hless | ⟨hsame, hless⟩
  · -- the last place of the greater one is worth at least twice as much
    have hplace : (2 : ℚ) ^ (x.exponent - 2) * (2 : Nat) ≤ 2 ^ (y.exponent - 2) := by
      rw [Nat.cast_two, ← zpow_add_one₀ (by norm_num)]
      exact zpow_le_zpow_right₀ (by norm_num) (by omega)
    exact ⟨quarters_le hplace (by omega), fun _ _ => quarters_lt hplace (by omega)⟩
  · -- of one last place, the greater significand is greater by at least four quarters
    have hplace : (2 : ℚ) ^ (x.exponent - 2) * (1 : Nat) ≤ 2 ^ (y.exponent - 2) := by
      rw [Nat.cast_one, mul_one, hsame]
    exact ⟨quarters_le hplace (by omega), fun _ _ => quarters_lt hplace (by omega)⟩

/-- No rational rounds to two doubles of different magnitude. -/
theorem not_rounds_of_precedes {x y : Binary64} (hx : x.Regular) (hy : y.Regular)
    (h : x.Precedes y) {q : ℚ} (hrounds : x.Rounds q) : ¬y.Rounds q := by
  rintro ⟨hlow, -⟩
  obtain ⟨-, hhigh⟩ := hrounds
  obtain ⟨hle, hlt⟩ := quarters_above_le hx hy h
  rcases hhigh with hhigh | ⟨heven, hhigh⟩ <;> rcases hlow with hlow | ⟨heven', hlow⟩
  · linarith
  · linarith
  · linarith
  · -- both ends belong to the intervals, so they do not touch
    have hless := hlt heven heven'
    linarith

/-- A rational that rounds to two doubles rounds to one magnitude. -/
theorem eq_of_rounds {x y : Binary64} (hx : x.Regular) (hy : y.Regular) {q : ℚ}
    (hrounds : x.Rounds q) (hrounds' : y.Rounds q) :
    x.significand = y.significand ∧ x.exponent = y.exponent := by
  -- neither precedes the other
  have hxy : ¬x.Precedes y := fun h => not_rounds_of_precedes hx hy h hrounds hrounds'
  have hyx : ¬y.Precedes x := fun h => not_rounds_of_precedes hy hx h hrounds' hrounds
  unfold Precedes at hxy hyx
  omega

/-! ## The selected decimal -/

/-- Whatever stands for a double on a grid reads back. -/
theorem readsBack_of_onGrid? {x : Binary64} {place : Int} {d : Scientific}
    (h : x.onGrid? place = some d) : x.readsBack d = true := by
  unfold onGrid? at h
  dsimp only at h
  -- whichever of the two neighbours was selected was tested
  split at h
  next => cases h
  next hbelow _ => cases h; exact hbelow
  next _ habove => cases h; exact habove
  next hbelow habove =>
    split at h
    · cases h; exact hbelow
    · cases h; exact habove
    · split at h <;> cases h
      · exact hbelow
      · exact habove

/-- The exact decimal of a magnitude has its value. -/
theorem toRat_exact (x : Binary64) : x.exact.toRat = x.significand * 2 ^ x.exponent := by
  unfold exact
  split
  next hpos =>
    obtain ⟨n, hn⟩ := Int.eq_ofNat_of_zero_le hpos
    rw [Scientific.toRat, hn]
    push_cast
    simp
  next hneg =>
    obtain ⟨n, hn⟩ : ∃ n : Nat, x.exponent = -n := ⟨x.exponent.natAbs, by omega⟩
    -- dividing by ten as often as multiplying by five
    have hten : (10 : ℚ) ^ n = 5 ^ n * 2 ^ n := by rw [← mul_pow]; norm_num
    rw [Scientific.toRat, hn]
    simp only [neg_neg, Int.toNat_natCast, Nat.pow_eq]
    push_cast
    rw [zpow_neg, zpow_neg, zpow_natCast, zpow_natCast, hten]
    field_simp

/-- A positive magnitude lies between the ends of its interval. -/
theorem rounds_exact {x : Binary64} (h : 0 < x.significand) : x.Rounds x.exact.toRat := by
  -- the magnitude is four quarters for each unit of its significand
  have hquarters : x.exact.toRat = x.quarters (4 * x.significand) := by
    have hfour : (2 : ℚ) ^ x.exponent = 2 ^ (x.exponent - 2) * 4 := by
      rw [zpow_sub₀ (by norm_num)]
      norm_num
    rw [toRat_exact, quarters, hfour]
    push_cast
    ring
  have hplace : (2 : ℚ) ^ (x.exponent - 2) * (1 : Nat) ≤ 2 ^ (x.exponent - 2) := by simp
  have hbelow : x.below < 1 * (4 * x.significand) := by
    unfold below
    split <;> omega
  have habove : 4 * x.significand < 1 * x.above := by
    unfold above
    omega
  rw [hquarters]
  exact ⟨Or.inl (quarters_lt hplace hbelow), Or.inl (quarters_lt hplace habove)⟩

/-- The selected decimal of a positive magnitude rounds to it. -/
theorem rounds_shortest {x : Binary64} (h : 0 < x.significand) : x.Rounds x.shortest.toRat := by
  rw [shortest]
  -- the decimal was found on a grid, or is the exact one
  cases hfound : x.onGrids? with
  | some d =>
    obtain ⟨n, -, hgrid⟩ := List.exists_of_findSome?_eq_some hfound
    rw [Option.elim_some, Scientific.toRat_strip]
    exact (x.readsBack_iff d).mp (readsBack_of_onGrid? hgrid)
  | none => exact rounds_exact h

/-- The selected decimal of a positive magnitude is positive, for the interval begins above zero. -/
theorem toRat_shortest_pos {x : Binary64} (h : 0 < x.significand) : 0 < x.shortest.toRat := by
  have hbelow : 0 < x.below := by
    unfold below
    split <;> omega
  have hpos : 0 < x.quarters x.below := by
    unfold quarters
    positivity
  rcases (rounds_shortest h).1 with hlow | ⟨-, hlow⟩ <;> linarith

/-- Magnitudes with the same selected decimal are the same. -/
theorem eq_of_shortest {x y : Binary64} (hx : x.Regular) (hy : y.Regular)
    (hxpos : 0 < x.significand) (hypos : 0 < y.significand)
    (h : x.shortest.toRat = y.shortest.toRat) :
    x.significand = y.significand ∧ x.exponent = y.exponent :=
  eq_of_rounds hx hy (rounds_shortest hxpos) (h ▸ rounds_shortest hypos)

/-- The decimal that is written for the magnitude of a double. -/
def written (x : Binary64) : ℚ := if x.significand = 0 then 0 else x.shortest.toRat

/-- A double is known by the sign and the decimal that are written. -/
theorem eq_of_written {x y : Binary64} (hx : x.Regular) (hy : y.Regular)
    (hsign : x.negative = y.negative) (h : x.written = y.written) : x = y := by
  suffices heq : x.significand = y.significand ∧ x.exponent = y.exponent by
    obtain ⟨negative, significand, exponent⟩ := x
    obtain ⟨rfl, rfl⟩ := heq
    cases hsign
    rfl
  unfold written at h
  -- case split on which of the magnitudes are zero
  rcases Nat.eq_zero_or_pos x.significand with hxzero | hxpos <;>
    rcases Nat.eq_zero_or_pos y.significand with hyzero | hypos
  · -- there is one zero, that with the least exponent
    have hleading : 0 < leadingBit := by decide
    unfold Regular at hx hy
    omega
  · -- a positive magnitude is not written as zero
    rw [if_pos hxzero, if_neg hypos.ne'] at h
    exact absurd h (toRat_shortest_pos hypos).ne
  · rw [if_neg hxpos.ne', if_pos hyzero] at h
    exact absurd h (toRat_shortest_pos hxpos).ne'
  · rw [if_neg hxpos.ne', if_neg hypos.ne'] at h
    exact eq_of_shortest hx hy hxpos hypos h

end Binary64
end TieredQuery.Decimal
