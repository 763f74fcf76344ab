import TieredQuery.Json.Numeral
import TieredQuery.Json.NumberText
import TieredQuery.Proofs.Decimal.ReadBack

/-!
# Numbers read back as they were written

The text of a number is that of a numeral: a sign, digits before the point, and digits after it and
an exponent if there are any (`Numeral.text`). A numeral that is `Plain` is read back from its text,
whatever follows, as long as what follows could not be a part of it (`read_text`). Integers and
doubles are written as plain numerals, so all that is to be known of their texts is known of the
numerals: an integer has neither fraction nor exponent, a double has one of them, and a numeral
stands for one number only (`eq_of_stands`).

For doubles the layout of the digits must not change their value, whether they are written
positionally or with an exponent (`exists_numeral_layout`); which decimal they are is the matter of
`Decimal.Binary64.eq_of_written`.

## Key results

- `Numeral.read_text`: plain numerals are read back
- `exists_numeral_int`, `exists_numeral_ofBits`: the texts of numbers are those of numerals
- `eq_of_stands`: which determine the numbers
-/

namespace TieredQuery.Json

open Decimal (Binary64)

/-! ## Numerals and their texts -/

/-- Whether what follows a number cannot be a part of it. -/
def Breaks (rest : List Char) : Prop :=
  ∀ c ∈ rest.head?, c.isDigit = false ∧ c ≠ '.' ∧ c ≠ 'e' ∧ c ≠ 'E'

/-- Whether a text is one or more digits. -/
def IsDigits (digits : List Char) : Prop := digits ≠ [] ∧ ∀ c ∈ digits, c.isDigit = true

/-- Digits that are not a zero followed by others. -/
def IsWhole (digits : List Char) : Prop :=
  digits = ['0'] ∨ IsDigits digits ∧ digits.head? ≠ some '0'

namespace Numeral

/-- The text of a point and the digits after it. -/
@[simp] def fractionText : Option (List Char) → List Char
  | none => []
  | some digits => '.' :: digits

/-- The text of an exponent. -/
@[simp] def exponentText : Option (Bool × List Char) → List Char
  | none => []
  | some (negative, digits) => 'e' :: (if negative then '-' else '+') :: digits

/-- The text of a numeral after its sign. -/
def unsigned (n : Numeral) : List Char :=
  n.whole ++ (fractionText n.fraction ++ exponentText n.exponent)

/-- The digits and signs of a numeral, an exponent with a sign in any case. -/
def text (n : Numeral) : List Char := (if n.negative then ['-'] else []) ++ n.unsigned

/-- Whether the digits of a numeral are where they belong. -/
structure Plain (n : Numeral) : Prop where
  whole : IsWhole n.whole
  fraction : ∀ digits, n.fraction = some digits → IsDigits digits
  exponent : ∀ negative digits, n.exponent = some (negative, digits) → IsDigits digits

/-! ## Reading back -/

/-- Digits are taken up to the first character that is none. -/
theorem takeWhile_digits {digits rest : List Char} (hdigits : ∀ c ∈ digits, c.isDigit = true)
    (hrest : ∀ c ∈ rest.head?, c.isDigit = false) :
    (digits ++ rest).takeWhile Char.isDigit = digits ∧
      (digits ++ rest).dropWhile Char.isDigit = rest := by
  rw [List.takeWhile_append_of_pos hdigits, List.dropWhile_append_of_pos hdigits]
  cases rest with
  | nil => exact ⟨List.append_nil _, rfl⟩
  | cons c rest =>
    have hc : c.isDigit = false := hrest c rfl
    simp [hc]

/-- One or more digits are read back. -/
theorem readDigits_append {digits rest : List Char} (hdigits : IsDigits digits)
    (hrest : ∀ c ∈ rest.head?, c.isDigit = false) (atEnd : Cause) :
    readDigits atEnd (digits ++ rest) = .ok (digits, rest) := by
  obtain ⟨hnonempty, hall⟩ := hdigits
  cases digits with
  | nil => exact absurd rfl hnonempty
  | cons c digits =>
    obtain ⟨hc, hall⟩ := List.forall_mem_cons.mp hall
    obtain ⟨htake, hdrop⟩ := takeWhile_digits hall hrest
    rw [List.cons_append, readDigits, if_pos hc, htake, hdrop]

/-- The digits before the point are read back: a zero alone, or digits that start with another. -/
theorem readWhole_append {digits rest : List Char} (hdigits : IsWhole digits)
    (hrest : ∀ c ∈ rest.head?, c.isDigit = false) (atEnd : Cause) :
    readWhole atEnd (digits ++ rest) = .ok (digits, rest) := by
  -- a zero may not be followed by a digit, and what comes after the digits is none
  rcases hdigits with rfl | ⟨⟨hnonempty, hall⟩, hhead⟩
  · have hnone : rest.head?.any Char.isDigit = false := by
      rw [Option.any_eq_false]
      simpa using hrest
    rw [List.singleton_append, readWhole, hnone]
    rfl
  · cases digits with
    | nil => exact absurd rfl hnonempty
    | cons c digits =>
      have hzero : c ≠ '0' := fun heq => hhead (by rw [heq]; rfl)
      obtain ⟨hc, hall⟩ := List.forall_mem_cons.mp hall
      obtain ⟨htake, hdrop⟩ := takeWhile_digits hall hrest
      rw [List.cons_append, readWhole.eq_3 _ _ _ (fun heq => absurd heq hzero), if_pos hc, htake,
        hdrop]

/-- A point and its digits are read back, or that there is no point. -/
theorem readFraction_append {fraction : Option (List Char)} {rest : List Char}
    (hdigits : ∀ digits, fraction = some digits → IsDigits digits)
    (hrest : ∀ c ∈ rest.head?, c.isDigit = false ∧ c ≠ '.') (atEnd : Cause) :
    readFraction atEnd (fractionText fraction ++ rest) = .ok (fraction, rest) := by
  cases fraction with
  | none =>
    rw [fractionText, List.nil_append]
    unfold readFraction
    split
    next rest => exact absurd rfl (hrest '.' rfl).2
    next => rfl
  | some digits =>
    rw [fractionText, List.cons_append, readFraction,
      readDigits_append (hdigits digits rfl) (fun c hc => (hrest c hc).1)]

/-- An exponent is read back, or that there is none. -/
theorem readExponent_append {exponent : Option (Bool × List Char)} {rest : List Char}
    (hdigits : ∀ negative digits, exponent = some (negative, digits) → IsDigits digits)
    (hrest : Breaks rest) (atEnd : Cause) :
    readExponent atEnd (exponentText exponent ++ rest) = .ok (exponent, rest) := by
  -- Case split on the exponent: without one, what follows must not look like one.
  cases exponent with
  | none =>
    rw [exponentText, List.nil_append]
    cases rest with
    | nil => rfl
    | cons c rest =>
      obtain ⟨-, -, hlower, hupper⟩ := hrest c rfl
      rw [readExponent, if_neg (not_or.mpr ⟨hlower, hupper⟩)]
  | some exponent =>
    obtain ⟨negative, digits⟩ := exponent
    have hread := readDigits_append (hdigits negative digits rfl) (fun c hc => (hrest c hc).1)
      atEnd
    rw [exponentText, List.cons_append, List.cons_append, readExponent, if_pos (Or.inl rfl)]
    cases negative <;> simp [splitSign, hread]

/-- Neither a point nor an exponent goes on the digits before it. -/
theorem head?_exponentText (exponent : Option (Bool × List Char)) {rest : List Char}
    (hrest : Breaks rest) :
    ∀ c ∈ (exponentText exponent ++ rest).head?, c.isDigit = false ∧ c ≠ '.' := by
  cases exponent with
  | none => exact fun c hc => ⟨(hrest c hc).1, (hrest c hc).2.1⟩
  | some exponent =>
    intro c hc
    obtain rfl : 'e' = c := by simpa using hc
    decide

/-- Nor does a point. -/
theorem head?_fractionText (fraction : Option (List Char)) {rest : List Char}
    (hrest : ∀ c ∈ rest.head?, c.isDigit = false) :
    ∀ c ∈ (fractionText fraction ++ rest).head?, c.isDigit = false := by
  cases fraction with
  | none => exact hrest
  | some digits =>
    intro c hc
    obtain rfl : '.' = c := by simpa using hc
    rfl

/-- What comes before the point starts with a digit, so it is no sign. -/
theorem exists_digit_of_isWhole {digits : List Char} (h : IsWhole digits) :
    ∃ c rest, digits = c :: rest ∧ c.isDigit = true := by
  rcases h with rfl | ⟨⟨hnonempty, hall⟩, -⟩
  · exact ⟨'0', [], rfl, rfl⟩
  · obtain ⟨c, rest, rfl⟩ := List.exists_cons_of_ne_nil hnonempty
    exact ⟨c, rest, rfl, hall c List.mem_cons_self⟩

/-- A plain numeral is read back from its text. -/
theorem read_text {n : Numeral} (h : n.Plain) {rest : List Char} (hrest : Breaks rest)
    (atEnd : Cause) : read atEnd (n.text ++ rest) = .ok (n, rest) := by
  obtain ⟨negative, whole, fraction, exponent⟩ := n
  -- each part ends where the next one starts, since no part can go on with what follows it
  have hpoint := head?_exponentText exponent hrest
  have hdigit := head?_fractionText fraction fun c hc => (hpoint c hc).1
  have hexponent := readExponent_append h.exponent hrest atEnd
  have hfraction := readFraction_append h.fraction hpoint atEnd
  have hwhole := readWhole_append h.whole hdigit atEnd
  dsimp only at hexponent hfraction hwhole
  cases negative with
  | true =>
    have htext : text ⟨true, whole, fraction, exponent⟩ ++ rest =
        '-' :: (whole ++ (fractionText fraction ++ (exponentText exponent ++ rest))) := by
      simp [text, unsigned]
    rw [htext, read]
    simp only [bind, Except.bind, pure, Except.pure, hwhole, hfraction, hexponent]
  | false =>
    have htext : text ⟨false, whole, fraction, exponent⟩ ++ rest =
        whole ++ (fractionText fraction ++ (exponentText exponent ++ rest)) := by
      simp [text, unsigned]
    rw [htext, read]
    · simp only [bind, Except.bind, pure, Except.pure, hwhole, hfraction, hexponent]
    · -- without a sign the text starts with a digit, so no sign is read
      intro after hafter
      obtain ⟨c, digits, hdigits, hc⟩ := exists_digit_of_isWhole h.whole
      rw [show whole = c :: digits from hdigits, List.cons_append] at hafter
      cases hafter
      cases hc

/-! ## What numerals are worth -/

/-- The value of an exponent. -/
def exponentInt : Option (Bool × List Char) → Int
  | none => 0
  | some (true, digits) => -Nat.ofDigitChars 10 digits 0
  | some (false, digits) => Nat.ofDigitChars 10 digits 0

/-- The absolute value of a numeral. -/
def magnitude (n : Numeral) : ℚ :=
  Nat.ofDigitChars 10 (n.whole ++ n.fraction.getD []) 0 *
    10 ^ (exponentInt n.exponent - (n.fraction.getD []).length)

/-- Whether a numeral is what is written for a number. -/
def Stands (n : Numeral) : Value → Prop
  | .int i => n.fraction = none ∧ n.exponent = none ∧
    i.val = if n.negative then -(Nat.ofDigitChars 10 n.whole 0 : Int)
      else Nat.ofDigitChars 10 n.whole 0
  | .float bits => (n.fraction ≠ none ∨ n.exponent ≠ none) ∧
    ∃ x, Binary64.ofBits bits = some x ∧ n.negative = x.negative ∧
      n.magnitude = x.written
  | _ => False

end Numeral

/-! ## Digits of numbers -/

/-- A zero is a digit. -/
theorem isDigits_zero : IsDigits ['0'] := ⟨List.cons_ne_nil _ _, List.forall_mem_singleton.mpr rfl⟩

/-- A number is written with digits. -/
theorem isDigits_toDigits (k : Nat) : IsDigits (Nat.toDigits 10 k) :=
  ⟨Nat.toDigits_ne_nil, fun _ hc => Nat.isDigit_of_mem_toDigits (by decide) (by decide) hc⟩

/-- The digits of a number are worth the number. -/
theorem ofDigitChars_toDigits (k : Nat) : Nat.ofDigitChars 10 (Nat.toDigits 10 k) 0 = k :=
  Nat.ofDigitChars_toDigits (by decide) (by decide)

/-- Only zero is written with a zero in front. -/
theorem head?_toDigits {k : Nat} (h : 0 < k) : (Nat.toDigits 10 k).head? ≠ some '0' := by
  induction k using Nat.strong_induction_on with
  -- Induction on the number: all digits but the last are those of a smaller one.
  | _ k ih =>
    rw [Nat.toDigits_eq_if (by decide)]
    split
    next hlt =>
      intro hzero
      have hchar : k.digitChar = '0' := by simpa using hzero
      have hnat := Nat.toNat_digitChar_of_lt_ten hlt
      rw [hchar] at hnat
      have hcode : '0'.toNat = 48 := rfl
      omega
    next hle =>
      rw [List.head?_append_of_ne_nil _ Nat.toDigits_ne_nil]
      exact ih (k / 10) (by omega) (by omega)

/-- Any number can stand before the point. -/
theorem isWhole_toDigits (k : Nat) : IsWhole (Nat.toDigits 10 k) := by
  rcases Nat.eq_zero_or_pos k with rfl | hpos
  · exact Or.inl rfl
  · exact Or.inr ⟨isDigits_toDigits k, head?_toDigits hpos⟩

/-- The digits and the sign of an exponent are worth the exponent. -/
theorem exponentInt_toDigits (e : Int) :
    Numeral.exponentInt (some (decide (e < 0), Nat.toDigits 10 e.natAbs)) = e := by
  by_cases hneg : e < 0
  · rw [decide_eq_true hneg, Numeral.exponentInt, ofDigitChars_toDigits]
    omega
  · rw [decide_eq_false hneg, Numeral.exponentInt, ofDigitChars_toDigits]
    omega

/-! ## Integers -/

/-- An integer is written without a point and without an exponent. -/
theorem plain_toDigits (negative : Bool) (k : Nat) :
    Numeral.Plain ⟨negative, Nat.toDigits 10 k, none, none⟩ := ⟨isWhole_toDigits k, nofun, nofun⟩

/-- The text of an integer is that of a numeral that stands for it. -/
theorem exists_numeral_int (i : Integer) :
    ∃ n : Numeral, n.Plain ∧ n.text = i.chars ∧ n.Stands (.int i) := by
  -- Split by the sign, which decides what digits are written.
  unfold Integer.chars
  split
  next k hval =>
    refine ⟨_, plain_toDigits false k, by simp [Numeral.text, Numeral.unsigned], rfl, rfl, ?_⟩
    rw [hval, if_neg Bool.false_ne_true, ofDigitChars_toDigits]
    rfl
  next k hval =>
    refine ⟨_, plain_toDigits true (k + 1), by simp [Numeral.text, Numeral.unsigned], rfl, rfl, ?_⟩
    rw [hval, if_pos rfl, ofDigitChars_toDigits]
    rfl

/-! ## Doubles -/

section Layout

variable {digits : List Char}

/-- Zeros after the digits multiply their value. -/
theorem ofDigitChars_zeros (digits : List Char) (k : Nat) :
    Nat.ofDigitChars 10 (digits ++ List.replicate k '0') 0 =
      10 ^ k * Nat.ofDigitChars 10 digits 0 := by
  rw [Nat.ofDigitChars_append, Nat.ofDigitChars_replicate_zero]

/-- Zeros before the digits do not change it. -/
theorem zeros_ofDigitChars (k : Nat) (digits : List Char) :
    Nat.ofDigitChars 10 (List.replicate k '0' ++ digits) 0 = Nat.ofDigitChars 10 digits 0 := by
  rw [Nat.ofDigitChars_append, Nat.ofDigitChars_replicate_zero, Nat.mul_zero]

/-- Digits before digits are digits. -/
theorem isDigits_append {front back : List Char} (hfront : ∀ c ∈ front, c.isDigit = true)
    (hback : IsDigits back) : IsDigits (front ++ back) :=
  ⟨List.append_ne_nil_of_right_ne_nil _ hback.1,
    fun c hc => (List.mem_append.mp hc).elim (hfront c) (hback.2 c)⟩

/-- The zeros are digits. -/
theorem isDigit_of_mem_replicate {k : Nat} {c : Char} (h : c ∈ List.replicate k '0') :
    c.isDigit = true := by
  rw [List.eq_of_mem_replicate h]
  rfl

/-- The first of the digits can stand before the point. -/
theorem isWhole_take (hdigits : IsDigits digits)
    (hhead : digits.head? ≠ some '0') {k : Nat} (hk : 0 < k) : IsWhole (digits.take k) := by
  refine Or.inr ⟨⟨fun hnil => ?_, fun c hc => hdigits.2 c (List.mem_of_mem_take hc)⟩, ?_⟩
  · exact (List.take_eq_nil_iff.mp hnil).elim hk.ne' hdigits.1
  · rwa [List.head?_take, if_neg hk.ne']

/-- The last of the digits can stand after the point. -/
theorem isDigits_drop (hdigits : IsDigits digits) {k : Nat}
    (hk : k < digits.length) : IsDigits (digits.drop k) :=
  ⟨fun hnil => absurd (List.drop_eq_nil_iff.mp hnil) (Nat.not_le.mpr hk),
    fun c hc => hdigits.2 c (List.mem_of_mem_drop hc)⟩

/-- Zeros after the digits are made up for by the point. -/
theorem pow_mul_zpow (n k : Nat) (e : Int) :
    ((10 ^ k * n : Nat) : ℚ) * 10 ^ e = n * 10 ^ (e + k) := by
  rw [zpow_add₀ (by norm_num), zpow_natCast]
  push_cast
  ring

/-- A numeral that is worth the number `0.d₁d₂… * 10 ^ point`, with a point or an exponent. -/
structure Numeral.Shows (n : Numeral) (negative : Bool) (digits : List Char) (point : Int) :
    Prop where
  plain : n.Plain
  sign : n.negative = negative
  broken : n.fraction ≠ none ∨ n.exponent ≠ none
  magnitude : n.magnitude = Nat.ofDigitChars 10 digits 0 * 10 ^ (point - digits.length)

variable (hdigits : IsDigits digits) (hhead : digits.head? ≠ some '0') (negative : Bool)
  {point : Int}

include hdigits hhead

/-- A whole number: zeros up to the point, and one after it. -/
theorem shows_whole (hpos : 0 < point) (hshort : digits.length ≤ point.toNat) :
    Numeral.Shows ⟨negative, digits ++ List.replicate (point.toNat - digits.length) '0', some ['0'],
      none⟩ negative digits point where
  plain := by
    refine ⟨Or.inr ⟨⟨List.append_ne_nil_of_left_ne_nil hdigits.1 _, fun c hc => ?_⟩, ?_⟩, ?_, nofun⟩
    · exact (List.mem_append.mp hc).elim (hdigits.2 c) isDigit_of_mem_replicate
    · rwa [List.head?_append_of_ne_nil _ hdigits.1]
    · rintro _ ⟨⟩
      exact isDigits_zero
  sign := rfl
  broken := Or.inl nofun
  magnitude := by
    generalize hzeros : point.toNat - digits.length = zeros
    -- the digit after the point is one more zero
    have hjoined : digits ++ List.replicate zeros '0' ++ ['0'] =
        digits ++ List.replicate (zeros + 1) '0' := by
      rw [List.append_assoc, ← List.replicate_succ']
    show (Nat.ofDigitChars 10 (digits ++ List.replicate zeros '0' ++ ['0']) 0 : ℚ) *
      10 ^ ((0 : Int) - 1) = _
    rw [hjoined, ofDigitChars_zeros, pow_mul_zpow]
    congr 2
    omega

/-- The point stands among the digits. -/
theorem shows_among (hpos : 0 < point) (hlong : point.toNat < digits.length) :
    Numeral.Shows ⟨negative, digits.take point.toNat, some (digits.drop point.toNat), none⟩ negative
      digits point where
  plain := by
    refine ⟨isWhole_take hdigits hhead (by omega), ?_, nofun⟩
    rintro _ ⟨⟩
    exact isDigits_drop hdigits hlong
  sign := rfl
  broken := Or.inl nofun
  magnitude := by
    show (Nat.ofDigitChars 10 (digits.take point.toNat ++ digits.drop point.toNat) 0 : ℚ) *
      10 ^ ((0 : Int) - (digits.drop point.toNat).length) = _
    rw [List.take_append_drop, List.length_drop]
    congr 2
    omega

omit hhead in
/-- The point stands before the digits. -/
theorem shows_before (hneg : point ≤ 0) :
    Numeral.Shows ⟨negative, ['0'], some (List.replicate (-point).toNat '0' ++ digits), none⟩
      negative digits point where
  plain := by
    refine ⟨Or.inl rfl, ?_, nofun⟩
    rintro _ ⟨⟩
    exact isDigits_append (fun c => isDigit_of_mem_replicate) hdigits
  sign := rfl
  broken := Or.inl nofun
  magnitude := by
    show (Nat.ofDigitChars 10
      (List.replicate 1 '0' ++ (List.replicate (-point).toNat '0' ++ digits)) 0 : ℚ) *
      10 ^ ((0 : Int) - (List.replicate (-point).toNat '0' ++ digits).length) = _
    rw [zeros_ofDigitChars, zeros_ofDigitChars, List.length_append, List.length_replicate]
    congr 2
    omega

/-- The point stands after the first digit, and an exponent makes up for it. -/
theorem shows_scientific :
    Numeral.Shows ⟨negative, digits.take 1,
      if digits.length ≤ 1 then none else some (digits.drop 1),
      some (decide (point - 1 < 0), Nat.toDigits 10 (point - 1).natAbs)⟩ negative digits point where
  plain := by
    refine ⟨isWhole_take hdigits hhead Nat.one_pos, ?_, ?_⟩
    · -- digits stand after the point where there is more than one
      intro rest hrest
      split at hrest
      next => cases hrest
      next hlong =>
        cases hrest
        exact isDigits_drop hdigits (Nat.lt_of_not_le hlong)
    · rintro _ _ ⟨⟩
      exact isDigits_toDigits _
  sign := rfl
  broken := Or.inr nofun
  magnitude := by
    have hpos : 0 < digits.length := List.length_pos_iff.mpr hdigits.1
    -- where there is one digit only, none stands after the point
    have hrest : (if digits.length ≤ 1 then none else some (digits.drop 1)).getD [] =
        digits.drop 1 := by
      split
      next hshort => exact (List.drop_eq_nil_iff.mpr hshort).symm
      next => rfl
    rw [Numeral.magnitude, hrest, exponentInt_toDigits, List.take_append_drop, List.length_drop]
    congr 2
    omega

omit hdigits hhead in
/-- However digits are laid out, the numeral that comes of it is worth as much. -/
theorem exists_numeral_layout (hdigits : IsDigits digits) (hhead : digits.head? ≠ some '0')
    (negative : Bool) (point : Int) :
    ∃ n : Numeral, n.Shows negative digits point ∧ n.unsigned = NumberText.layout digits point := by
  unfold NumberText.layout
  -- Case split as the layout does, on where the point stands.
  split
  next hplaces =>
    dsimp only
    split
    next hshort =>
      exact ⟨_, shows_whole hdigits hhead negative hplaces.1 hshort,
        by simp [Numeral.unsigned]⟩
    next hlong =>
      exact ⟨_, shows_among hdigits hhead negative hplaces.1 (Nat.lt_of_not_le hlong),
        by simp [Numeral.unsigned]⟩
  next =>
    split
    next hsmall =>
      exact ⟨_, shows_before hdigits negative hsmall.2,
        by simp [Numeral.unsigned]⟩
    next =>
      refine ⟨_, shows_scientific hdigits hhead negative, ?_⟩
      have hfraction : Numeral.fractionText (if digits.length ≤ 1 then none
          else some (digits.drop 1)) = if digits.length ≤ 1 then [] else '.' :: digits.drop 1 := by
        split <;> rfl
      rw [Numeral.unsigned, hfraction]
      simp

end Layout

/-- A double is written as a numeral with a point or an exponent, that is worth its decimal. -/
theorem exists_numeral_ofBinary64 (x : Binary64) :
    ∃ n : Numeral, n.Plain ∧ n.text = NumberText.ofBinary64 x ∧ n.negative = x.negative ∧
      (n.fraction ≠ none ∨ n.exponent ≠ none) ∧ n.magnitude = x.written := by
  unfold NumberText.ofBinary64 Binary64.written
  -- Zero has no shortest decimal and is written as such.
  by_cases hzero : x.significand = 0
  · refine ⟨⟨x.negative, ['0'], some ['0'], none⟩, ⟨Or.inl rfl, ?_, nofun⟩, ?_, rfl, Or.inl nofun,
      ?_⟩
    · rintro _ ⟨⟩
      exact isDigits_zero
    · rw [if_pos hzero]
      cases hsign : x.negative <;>
        simp [Numeral.text, Numeral.unsigned]
    · rw [if_pos hzero]
      exact zero_mul _
  · have hpos := Binary64.toRat_shortest_pos (Nat.pos_of_ne_zero hzero)
    rw [if_neg hzero, if_neg hzero]
    -- of the shortest decimal only its value is needed
    generalize x.shortest = d at hpos
    have hdigits : 0 < d.digits := by
      refine Nat.pos_of_ne_zero fun hnone => ?_
      rw [Decimal.Scientific.toRat, hnone, Nat.cast_zero, zero_mul] at hpos
      exact absurd hpos (lt_irrefl 0)
    obtain ⟨n, ⟨hplain, hsign, hbroken, hmagnitude⟩, htext⟩ := exists_numeral_layout
      (isDigits_toDigits d.digits) (head?_toDigits hdigits) x.negative
      ((Nat.toDigits 10 d.digits).length + d.exponent)
    refine ⟨n, hplain, ?_, hsign, hbroken, ?_⟩
    · rw [Numeral.text, hsign, htext]
      by_cases hneg : x.negative = true
      · rw [if_pos hneg, if_pos hneg, List.singleton_append]
      · rw [if_neg hneg, if_neg hneg, List.nil_append]
    · rw [hmagnitude, ofDigitChars_toDigits, Decimal.Scientific.toRat]
      congr 2
      omega

/-! ## Which number a numeral stands for -/

/-- The text of a finite double is that of a numeral that stands for it. -/
theorem exists_numeral_ofBits {bits : UInt64} (h : (Binary64.ofBits bits).isSome) :
    ∃ n : Numeral, n.Plain ∧ n.text = NumberText.ofBits bits ∧ n.Stands (.float bits) := by
  obtain ⟨x, hx⟩ := Option.isSome_iff_exists.mp h
  obtain ⟨n, hplain, htext, hsign, hbroken, hmagnitude⟩ := exists_numeral_ofBinary64 x
  refine ⟨n, hplain, ?_, hbroken, x, hx, hsign, hmagnitude⟩
  rw [htext, NumberText.ofBits, hx]

/-- No numeral stands for two numbers. -/
theorem eq_of_stands {n : Numeral} {v v' : Value} (h : n.Stands v) (h' : n.Stands v') : v = v' := by
  -- An integer has neither fraction nor exponent, a double has one of them.
  cases v with
  | int i =>
    obtain ⟨hfraction, hexponent, hval⟩ := h
    cases v' with
    | int i' =>
      obtain ⟨-, -, hval'⟩ := h'
      obtain ⟨val, lower, upper⟩ := i
      obtain ⟨val', lower', upper'⟩ := i'
      obtain rfl : val = val' := hval.trans hval'.symm
      rfl
    | float bits =>
      obtain ⟨hbroken, -⟩ := h'
      exact (hbroken.elim (absurd hfraction) (absurd hexponent) : False).elim
    | null | bool _ | str _ | arr _ | obj _ => exact False.elim h'
  | float bits =>
    obtain ⟨hbroken, x, hx, hsign, hmagnitude⟩ := h
    cases v' with
    | int i =>
      obtain ⟨hfraction, hexponent, -⟩ := h'
      exact (hbroken.elim (absurd hfraction) (absurd hexponent) : False).elim
    | float bits' =>
      -- both doubles are rounded from the number that the numeral writes
      obtain ⟨-, y, hy, hsign', hmagnitude'⟩ := h'
      obtain rfl : x = y := Binary64.eq_of_written (Binary64.regular_ofBits hx)
        (Binary64.regular_ofBits hy) (hsign.symm.trans hsign')
        (hmagnitude.symm.trans hmagnitude')
      rw [Binary64.ofBits_injective hx hy]
    | null | bool _ | str _ | arr _ | obj _ => exact False.elim h'
  | null | bool _ | str _ | arr _ | obj _ => exact False.elim h

end TieredQuery.Json
