import TieredQuery.Json.Render
import TieredQuery.Proofs.Json.NumberText

/-!
# Texts determine values

No two JSON values have the same text. What follows a value does not matter as long as it could not
be a part of a number, so the texts of items and members can be taken apart one after the other.
The first character tells of which kind a value is (`Kind.ofChar`); a number is known by its
numeral, a string is read back by the reader of strings (`stringBody_append`), and arrays and
objects are known by their parts.

Doubles that are infinite or not a number are written as null. They are left out here; such a value
is not `Finite`.

## Key results

- `stringBody_append`: strings are read back
- `known`: a text and what follows it determine the value
- `render_injective`: texts determine values
-/

namespace TieredQuery.Json

open Decimal (Binary64)

/-! ## Strings -/

/-- A digit in base sixteen is read as its value. -/
theorem hexValue?_digitChar : ∀ d < 16, hexValue? d.digitChar = some d := by decide

/-- Four digits are read as the number that they write. -/
theorem hexUnit?_of_values {a b c d : Char} {i j k l : Nat} (ha : hexValue? a = some i)
    (hb : hexValue? b = some j) (hc : hexValue? c = some k) (hd : hexValue? d = some l)
    (rest : List Char) :
    ∃ hshorter, hexUnit? (a :: b :: c :: d :: rest) =
      some (((i * 16 + j) * 16 + k) * 16 + l, ⟨rest, hshorter⟩) := by
  refine ⟨by simp only [List.length_cons]; omega, ?_⟩
  rw [hexUnit?, ha, hb, hc, hd]
  rfl

/-- A character that is written by its number is read back. -/
theorem unescape_padded {n : Nat} (h : n < 0xD800) (rest : List Char) :
    ∃ hshorter, unescape ('u' :: (Text.Hex.padded 4 n ++ rest)) =
      .ok (Char.ofNat n, ⟨rest, hshorter⟩) := by
  have hvalue : ∀ m, hexValue? (m % 16).digitChar = some (m % 16) := fun m =>
    hexValue?_digitChar _ (Nat.mod_lt m (by decide))
  have hdigits : Text.Hex.padded 4 n ++ rest = (n / 16 / 16 / 16 % 16).digitChar ::
      (n / 16 / 16 % 16).digitChar :: (n / 16 % 16).digitChar :: (n % 16).digitChar :: rest := by
    simp only [Text.Hex.padded, List.nil_append, List.cons_append]
  -- the four digits make up the number again
  have hnumber : ((n / 16 / 16 / 16 % 16 * 16 + n / 16 / 16 % 16) * 16 + n / 16 % 16) * 16 +
      n % 16 = n := by omega
  obtain ⟨hshorter, hunit⟩ := hexUnit?_of_values (hvalue (n / 16 / 16 / 16)) (hvalue (n / 16 / 16))
    (hvalue (n / 16)) (hvalue n) rest
  rw [hnumber] at hunit
  rw [hdigits]
  refine ⟨by simp only [List.length_cons]; omega, ?_⟩
  simp only [unescape, hexUnit, hunit]
  rw [if_neg (by omega), if_neg (by omega)]

/-- An escape is read as the character that it is for. -/
theorem stringBody_of_unescape {s rest : List Char} {c : Char}
    (h : ∃ hshorter, unescape s = .ok (c, ⟨rest, hshorter⟩)) (read : List Char) :
    stringBody read ('\\' :: s) = stringBody (c :: read) rest := by
  obtain ⟨hshorter, hread⟩ := h
  rw [stringBody, hread]

/-- A character is read back from what is written for it. -/
theorem stringBody_escape (c : Char) (read rest : List Char) :
    stringBody read (escape c ++ rest) = stringBody (c :: read) rest := by
  unfold escape
  split
  -- The last case is that of a character without an escape of its own.
  case h_8 hquote hbackslash _ _ _ _ _ =>
    split
    next hcontrol =>
      have hsmall : c.toNat < 32 := hcontrol
      have hread := unescape_padded (n := c.toNat) (by omega) rest
      rw [Char.ofNat_toNat] at hread
      exact stringBody_of_unescape hread read
    next hcontrol =>
      rw [List.singleton_append, stringBody, if_neg hcontrol]
      · exact hquote
      · exact hbackslash
  all_goals exact stringBody_of_unescape ⟨_, rfl⟩ read

/-- A string is read back, whatever follows it. -/
theorem stringBody_append (s read rest : List Char) :
    stringBody read (s.flatMap escape ++ '"' :: rest) =
      .ok (String.ofList (read.reverse ++ s), rest) := by
  -- on the characters that are left
  induction s generalizing read with
  | nil => rw [List.flatMap_nil, List.nil_append, stringBody, List.append_nil]
  | cons c s ih =>
    rw [List.flatMap_cons, List.append_assoc, stringBody_escape, ih, List.reverse_cons,
      List.append_assoc, List.singleton_append]

/-- A string in quotes can be told from what follows it. -/
theorem quoted_append_inj {s s' : String} {rest rest' : List Char}
    (h : quoted s ++ rest = quoted s' ++ rest') : s = s' ∧ rest = rest' := by
  -- what stands behind the opening quotes is read to the same string and the same rest
  have hbody : s.toList.flatMap escape ++ '"' :: rest =
      s'.toList.flatMap escape ++ '"' :: rest' := by
    simpa [quoted] using h
  have hread := congrArg (stringBody []) hbody
  rw [stringBody_append, stringBody_append] at hread
  simpa using hread

/-! ## Kinds of values -/

/-- What the first character of its text tells of a value. -/
inductive Kind where
  | null
  | bool (b : Bool)
  | number
  | str
  | arr
  | obj

/-- The kind of the values whose texts start with a character, if there are any. -/
def Kind.ofChar (c : Char) : Option Kind :=
  match c with
  | 'n' => some .null
  | 't' => some (.bool true)
  | 'f' => some (.bool false)
  | '"' => some .str
  | '[' => some .arr
  | '{' => some .obj
  | c => if c = '-' ∨ c.isDigit then some .number else none

/-- A text that starts with a digit is that of a number. -/
theorem Kind.ofChar_of_isDigit {c : Char} (h : c.isDigit = true) : ofChar c = some .number := by
  unfold ofChar
  split
  case h_7 => exact if_pos (Or.inr h)
  all_goals cases h

namespace Value

/-- The kind of a value. -/
def kind : Value → Kind
  | .null => .null
  | .bool b => .bool b
  | .int _ | .float _ => .number
  | .str _ => .str
  | .arr _ => .arr
  | .obj _ => .obj

mutual

/-- Whether all doubles are finite, so that they have numerals. -/
def Finite : Value → Prop
  | .float bits => (Binary64.ofBits bits).isSome
  | .arr items => FiniteItems items
  | .obj members => FiniteMembers members
  | _ => True

/-- Whether all doubles of some items are finite. -/
def FiniteItems : List Value → Prop
  | [] => True
  | v :: rest => v.Finite ∧ FiniteItems rest

/-- Whether all doubles of some members are finite. -/
def FiniteMembers : List (String × Value) → Prop
  | [] => True
  | (_, v) :: rest => v.Finite ∧ FiniteMembers rest

end

/-- Items are finite one by one. -/
theorem finiteItems_iff {vs : List Value} : FiniteItems vs ↔ ∀ v ∈ vs, v.Finite := by
  induction vs with
  | nil => simp [FiniteItems]
  | cons v vs ih => rw [FiniteItems, ih, List.forall_mem_cons]

/-- Members are finite one by one. -/
theorem finiteMembers_iff {ms : List (String × Value)} :
    FiniteMembers ms ↔ ∀ m ∈ ms, m.2.Finite := by
  induction ms with
  | nil => simp [FiniteMembers]
  | cons m ms ih => rw [FiniteMembers, ih, List.forall_mem_cons]

/-- The text of a finite number is that of a numeral that stands for it. -/
theorem exists_numeral {v : Value} (hfinite : v.Finite) (hkind : v.kind = .number) :
    ∃ n : Numeral, n.Plain ∧ n.text = v.chars ∧ n.Stands v := by
  -- Case split on the value: integers and doubles are the numbers.
  cases v with
  | int i => simpa only [chars] using exists_numeral_int i
  | float bits => simpa only [chars] using exists_numeral_ofBits hfinite
  | null | bool _ | str _ | arr _ | obj _ => cases hkind

end Value

/-- The text of a numeral starts with a minus sign or with a digit. -/
theorem Numeral.exists_head {n : Numeral} (h : n.Plain) :
    ∃ c rest, n.text = c :: rest ∧ Kind.ofChar c = some .number := by
  obtain ⟨c, digits, hwhole, hc⟩ := exists_digit_of_isWhole h.whole
  unfold text unsigned
  cases n.negative with
  | true => exact ⟨'-', _, rfl, rfl⟩
  | false =>
    rw [hwhole]
    exact ⟨c, _, rfl, Kind.ofChar_of_isDigit hc⟩

namespace Value

/-- The first character of a text tells the kind of the value. -/
theorem exists_head {v : Value} (h : v.Finite) :
    ∃ c rest, v.chars = c :: rest ∧ Kind.ofChar c = some v.kind := by
  -- Case split on the value: its first character tells the kind.
  cases v with
  | null => exact ⟨'n', _, chars.eq_1, rfl⟩
  | bool b => cases b <;> exact ⟨_, _, by simp only [chars]; rfl, rfl⟩
  | int i =>
    obtain ⟨n, hplain, htext, -⟩ := exists_numeral h rfl
    exact htext ▸ Numeral.exists_head hplain
  | float bits =>
    obtain ⟨n, hplain, htext, -⟩ := exists_numeral h rfl
    exact htext ▸ Numeral.exists_head hplain
  | str s => exact ⟨'"', _, by simp only [chars]; rfl, rfl⟩
  | arr items => cases items <;> exact ⟨'[', _, by simp only [chars]; rfl, rfl⟩
  | obj members =>
    cases members with
    | nil => exact ⟨'{', _, by simp only [chars]; rfl, rfl⟩
    | cons member rest => exact ⟨'{', _, by simp only [chars]; rfl, rfl⟩

/-- Of two finite values with one text, the kinds agree. -/
theorem kind_eq_of_chars {v v' : Value} (h : v.Finite) (h' : v'.Finite) {rest rest' : List Char}
    (hchars : v.chars ++ rest = v'.chars ++ rest') : v.kind = v'.kind := by
  obtain ⟨c, tail, htext, hkind⟩ := exists_head h
  obtain ⟨c', tail', htext', hkind'⟩ := exists_head h'
  rw [htext, htext', List.cons_append, List.cons_append] at hchars
  rw [(List.cons.inj hchars).1] at hkind
  exact Option.some.inj (hkind.symm.trans hkind')

/-! ## Values and what follows them -/

/-- Whether a value can be told, with what follows it, from all others. -/
def Known (v : Value) : Prop :=
  ∀ (v' : Value) (rest rest' : List Char), v'.Finite → Breaks rest → Breaks rest' →
    v.chars ++ rest = v'.chars ++ rest' → v = v' ∧ rest = rest'

/-- Whether items can be told, with what follows their bracket, from all others. -/
def KnownItems (vs : List Value) : Prop :=
  ∀ (vs' : List Value) (rest rest' : List Char), FiniteItems vs' →
    itemsChars vs ++ rest = itemsChars vs' ++ rest' → vs = vs' ∧ rest = rest'

/-- Whether members can be told, with what follows their brace, from all others. -/
def KnownMembers (ms : List (String × Value)) : Prop :=
  ∀ (ms' : List (String × Value)) (rest rest' : List Char), FiniteMembers ms' →
    membersChars ms ++ rest = membersChars ms' ++ rest' → ms = ms' ∧ rest = rest'

/-- What starts with such a character could not go on with a number. -/
theorem breaks_cons {c : Char} (h : c.isDigit = false ∧ c ≠ '.' ∧ c ≠ 'e' ∧ c ≠ 'E')
    (rest : List Char) : Breaks (c :: rest) := by
  intro d hd
  obtain rfl : c = d := by simpa using hd
  exact h

/-- What goes on after an item is a comma or the bracket. -/
theorem breaks_itemsChars (vs : List Value) (rest : List Char) :
    Breaks (itemsChars vs ++ rest) := by
  cases vs with
  | nil =>
    rw [itemsChars, List.singleton_append]
    exact breaks_cons (by decide) rest
  | cons v vs =>
    rw [itemsChars, List.cons_append]
    exact breaks_cons (by decide) _

/-- What goes on after a member is a comma or the brace. -/
theorem breaks_membersChars (ms : List (String × Value)) (rest : List Char) :
    Breaks (membersChars ms ++ rest) := by
  cases ms with
  | nil =>
    rw [membersChars, List.singleton_append]
    exact breaks_cons (by decide) rest
  | cons m ms =>
    rw [membersChars, List.cons_append]
    exact breaks_cons (by decide) _

/-- A number is known by its numeral, which is read back from the text. -/
theorem known_number {v : Value} (hfinite : v.Finite) (hkind : v.kind = .number) : v.Known := by
  intro v' rest rest' hfinite' hrest hrest' hchars
  have hkind' : v'.kind = .number := (kind_eq_of_chars hfinite hfinite' hchars).symm.trans hkind
  obtain ⟨n, hplain, htext, hstands⟩ := exists_numeral hfinite hkind
  obtain ⟨n', hplain', htext', hstands'⟩ := exists_numeral hfinite' hkind'
  have hread := Numeral.read_text hplain hrest .valueEnds
  rw [htext, hchars, ← htext', Numeral.read_text hplain' hrest' .valueEnds] at hread
  obtain ⟨rfl, rfl⟩ : n' = n ∧ rest' = rest := by simpa using hread
  exact ⟨eq_of_stands hstands hstands', rfl⟩

/-- Null is known by its word. -/
theorem known_null : Known .null := by
  intro v' rest rest' hfinite hrest hrest' hchars
  have hkind := kind_eq_of_chars (v := .null) trivial hfinite hchars
  cases v' with
  | null => exact ⟨rfl, List.append_cancel_left hchars⟩
  | _ => cases hkind

/-- A truth value is known by its word. -/
theorem known_bool (b : Bool) : Known (.bool b) := by
  intro v' rest rest' hfinite hrest hrest' hchars
  have hkind := kind_eq_of_chars (v := .bool b) trivial hfinite hchars
  cases v' with
  | bool b' =>
    cases hkind
    exact ⟨rfl, List.append_cancel_left hchars⟩
  | _ => cases hkind

/-- A string is known by what is between its quotes. -/
theorem known_str (s : String) : Known (.str s) := by
  intro v' rest rest' hfinite hrest hrest' hchars
  have hkind := kind_eq_of_chars (v := .str s) trivial hfinite hchars
  cases v' with
  | str s' =>
    simp only [chars] at hchars
    obtain ⟨rfl, rfl⟩ := quoted_append_inj hchars
    exact ⟨rfl, rfl⟩
  | _ => cases hkind

/-- No value starts with a closing bracket, so an array without items differs from one with some. -/
theorem closing_ne_chars {v : Value} (h : v.Finite) (rest rest' : List Char) :
    ']' :: rest ≠ v.chars ++ rest' := by
  obtain ⟨c, tail, htext, hkind⟩ := exists_head h
  rw [htext, List.cons_append]
  intro heq
  rw [← (List.cons.inj heq).1] at hkind
  cases hkind

/-- The text of an array is that of its items, with a bracket in place of a comma. -/
theorem itemsChars_eq_of_chars {items items' : List Value} (h : FiniteItems items)
    (h' : FiniteItems items') {rest rest' : List Char}
    (hchars : (arr items).chars ++ rest = (arr items').chars ++ rest') :
    itemsChars items ++ rest = itemsChars items' ++ rest' := by
  -- Split by whether the arrays have items.
  cases items with
  | nil =>
    cases items' with
    | nil => exact (List.cons.inj hchars).2
    | cons v' items' =>
      simp only [chars, List.cons_append, List.append_assoc, List.nil_append] at hchars
      exact absurd (List.cons.inj hchars).2 (closing_ne_chars h'.1 _ _)
  | cons v items =>
    cases items' with
    | nil =>
      simp only [chars, List.cons_append, List.append_assoc, List.nil_append] at hchars
      exact absurd (List.cons.inj hchars).2.symm (closing_ne_chars h.1 _ _)
    | cons v' items' =>
      simp only [chars, List.cons_append, List.append_assoc] at hchars
      rw [itemsChars, itemsChars, List.cons_append, List.cons_append, List.append_assoc,
        List.append_assoc, (List.cons.inj hchars).2]

/-- The text of an object is that of its members, with a brace in place of a comma. -/
theorem membersChars_eq_of_chars {members members' : List (String × Value)} {rest rest' : List Char}
    (hchars : (obj members).chars ++ rest = (obj members').chars ++ rest') :
    membersChars members ++ rest = membersChars members' ++ rest' := by
  cases members with
  | nil =>
    cases members' with
    | nil => exact (List.cons.inj hchars).2
    | cons m' members' => simp [chars, quoted] at hchars
  | cons m members =>
    cases members' with
    | nil => simp [chars, quoted] at hchars
    | cons m' members' =>
      simp only [chars, List.cons_append, List.append_assoc] at hchars
      simp only [membersChars, List.cons_append, List.append_assoc, (List.cons.inj hchars).2]

mutual

/-- A finite value can be told from all others. -/
theorem known : (v : Value) → v.Finite → v.Known
  | .null, _ => known_null
  | .bool b, _ => known_bool b
  | .int _, hfinite => known_number hfinite rfl
  | .float _, hfinite => known_number hfinite rfl
  | .str s, _ => known_str s
  | .arr items, hfinite => by
    intro v' rest rest' hfinite' hrest hrest' hchars
    have hkind := kind_eq_of_chars hfinite hfinite' hchars
    cases v' with
    | arr items' =>
      obtain ⟨rfl, rfl⟩ := knownItems items hfinite items' rest rest' hfinite'
        (itemsChars_eq_of_chars hfinite hfinite' hchars)
      exact ⟨rfl, rfl⟩
    | _ => cases hkind
  | .obj members, hfinite => by
    intro v' rest rest' hfinite' hrest hrest' hchars
    have hkind := kind_eq_of_chars hfinite hfinite' hchars
    cases v' with
    | obj members' =>
      obtain ⟨rfl, rfl⟩ := knownMembers members hfinite members' rest rest' hfinite'
        (membersChars_eq_of_chars hchars)
      exact ⟨rfl, rfl⟩
    | _ => cases hkind

/-- Finite items can be told from all others: the first one by what it is, and then the rest. -/
theorem knownItems : (vs : List Value) → FiniteItems vs → KnownItems vs
  | [], _ => by
    intro vs' rest rest' hfinite' hchars
    cases vs' with
    | nil => exact ⟨rfl, List.append_cancel_left hchars⟩
    | cons v' vs' => simp [itemsChars] at hchars
  | v :: vs, hfinite => by
    intro vs' rest rest' hfinite' hchars
    cases vs' with
    | nil => simp [itemsChars] at hchars
    | cons v' vs' =>
      simp only [itemsChars, List.cons_append, List.append_assoc, List.cons.injEq,
        true_and] at hchars
      obtain ⟨rfl, hafter⟩ := known v hfinite.1 v' _ _ hfinite'.1 (breaks_itemsChars vs rest)
        (breaks_itemsChars vs' rest') hchars
      obtain ⟨rfl, rfl⟩ := knownItems vs hfinite.2 vs' rest rest' hfinite'.2 hafter
      exact ⟨rfl, rfl⟩

/-- Finite members can be told from all others: the key first, then the value, then the rest. -/
theorem knownMembers : (ms : List (String × Value)) → FiniteMembers ms → KnownMembers ms
  | [], _ => by
    intro ms' rest rest' hfinite' hchars
    cases ms' with
    | nil => exact ⟨rfl, List.append_cancel_left hchars⟩
    | cons m' ms' => simp [membersChars] at hchars
  | (k, v) :: ms, hfinite => by
    intro ms' rest rest' hfinite' hchars
    cases ms' with
    | nil => simp [membersChars] at hchars
    | cons m' ms' =>
      obtain ⟨k', v'⟩ := m'
      simp only [membersChars, List.cons_append, List.append_assoc, List.cons.injEq,
        true_and] at hchars
      obtain ⟨rfl, hvalue⟩ := quoted_append_inj hchars
      obtain ⟨rfl, hafter⟩ := known v hfinite.1 v' _ _ hfinite'.1 (breaks_membersChars ms rest)
        (breaks_membersChars ms' rest') (List.cons.inj hvalue).2
      obtain ⟨rfl, rfl⟩ := knownMembers ms hfinite.2 ms' rest rest' hfinite'.2 hafter
      exact ⟨rfl, rfl⟩

end

/-- Finite values with one text are equal. -/
theorem render_injective {v v' : Value} (h : v.Finite) (h' : v'.Finite)
    (hrender : v.render = v'.render) : v = v' := by
  -- nothing follows a whole text
  have hchars : v.chars ++ [] = v'.chars ++ [] := by
    rw [List.append_nil, List.append_nil, ← String.ofList_inj]
    exact hrender
  have hbreaks : Breaks [] := nofun
  exact (known v h v' [] [] h' hbreaks hbreaks hchars).1

end Value
end TieredQuery.Json
