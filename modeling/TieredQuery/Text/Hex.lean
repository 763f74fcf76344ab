/-!
# Hexadecimal text

Bytes and words in lowercase hexadecimal digits, most significant first.
-/

namespace TieredQuery.Text.Hex

/-- The lowest `width` hexadecimal digits of a number. -/
def padded : (width : Nat) → Nat → List Char
  | 0, _ => []
  | width + 1, n => padded width (n / 16) ++ [(n % 16).digitChar]

/-- Two digits a byte. -/
def bytes (bs : List UInt8) : String := String.ofList (bs.flatMap fun b => padded 2 b.toNat)

/-- All sixteen digits of a word. -/
def word (w : UInt64) : String := String.ofList (padded 16 w.toNat)

/-- The digits of a number without leading zeros. -/
def shortest (n : Nat) : String := String.ofList (Nat.toDigits 16 n)

/-- A number is padded to its width, or cut to it. -/
theorem padded_length (width n : Nat) : (padded width n).length = width := by
  induction width generalizing n with
  | zero => rfl
  | succ width ih => simp [padded, ih]

end TieredQuery.Text.Hex
