/-!
# Finite double-precision numbers as exact values

A finite double is a sign and a magnitude `significand * 2 ^ exponent`. Everything that is said
about decimal text is said about this exact value.
-/

namespace TieredQuery.Decimal

/-- The exact value of a finite double. -/
structure Binary64 where
  negative : Bool
  significand : Nat
  exponent : Int
deriving DecidableEq

namespace Binary64

/-- The leading bit of a normal significand, which is not stored: fifty-two bits follow it. -/
def leadingBit : Nat := 0x10000000000000

/-- The eleven stored bits of the exponent have this many values. -/
def scales : Nat := 2048

/-- Reads the sixty-four bits of a double; infinities and NaNs have no value. -/
def ofBits (bits : UInt64) : Option Binary64 :=
  let n := bits.toNat
  let fraction := n % leadingBit
  let scale := n / leadingBit % scales
  let negative := leadingBit * scales ≤ n
  -- the largest stored exponent is that of infinities and NaNs, the least that of subnormals
  if scale = scales - 1 then none
  else if scale = 0 then some ⟨negative, fraction, -1074⟩
  else some ⟨negative, leadingBit + fraction, (scale : Int) - 1075⟩

/-- At the foot of a binade the gap to the neighbour below is half the gap above. -/
def narrowBelow (x : Binary64) : Bool := x.significand == leadingBit && x.exponent != -1074

/-- Numerator and denominator of `n * 2 ^ e`. -/
def scaled (n : Nat) (e : Int) : Nat × Nat := (n * Nat.pow 2 e.toNat, Nat.pow 2 (-e).toNat)

/-- Numerator and denominator of the magnitude. -/
def ratio (x : Binary64) : Nat × Nat := scaled x.significand x.exponent

/-- No magnitude has a zero denominator. -/
theorem scaled_den_pos (n : Nat) (e : Int) : 0 < (scaled n e).2 := Nat.pow_pos (by decide)

end Binary64
end TieredQuery.Decimal
