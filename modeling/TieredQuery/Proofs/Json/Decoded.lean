import Mathlib.Data.List.DropRight
import TieredQuery.Proofs.Json.Records

/-!
# What is read

Reading makes only some values: their keys ascend, since objects are entered into dictionaries, and
they are nested no deeper than the reader goes (`Value.Legible`). This is what the writer has to
know of a value for its text to be read back.

`Yields` says of a reader that all it makes of texts has a property. The loops over items and
members keep what each turn keeps, and a record has what its blank has and every field keeps,
whether it is written as an object or as an array.

## Key results

- `yields_value`: values that were read are legible
- `yields_optional_any`: what is read as there is not null
- `Record.yields_decoder`: records
- `of_decode`: whole texts
-/

namespace TieredQuery.Json

variable {α β ρ σ : Type}

/-- Whether all that a reader makes of texts has a property. -/
def Yields (reader : Reader α) (P : α → Prop) : Prop :=
  ∀ s a rest, reader s = .ok (a, rest) → P a

/-- A reader that yields something yields what follows from it. -/
theorem Yields.imp {reader : Reader α} {P Q : α → Prop} (h : Yields reader P)
    (himp : ∀ a, P a → Q a) : Yields reader Q :=
  fun s a rest hread => himp a (h s a rest hread)

/-- Two steps give something if the first one does and the second one does after it. -/
theorem exists_of_bind_eq_ok {ε : Type} {first : Except ε α} {second : α → Except ε β} {b : β}
    (h : (first >>= second) = .ok b) : ∃ a, first = .ok a ∧ second a = .ok b := by
  cases first with
  | error fault => cases h
  | ok a => exact ⟨a, rfl, h⟩

/-- What is made of a result was made of something that was read. -/
theorem exists_of_map_eq_ok {result : Except Fault (α × List Char)} {f : α → β} {b : β}
    {rest : List Char} (h : (result.map fun (a, rest) => (f a, rest)) = .ok (b, rest)) :
    ∃ a, result = .ok (a, rest) ∧ f a = b := by
  cases result with
  | error fault => cases h
  | ok result =>
    obtain ⟨a, after⟩ := result
    cases h
    exact ⟨a, rfl, rfl⟩

/-- What is made of what a reader yields has the properties that all of it has. -/
theorem yields_map {reader : Reader α} (f : α → β) {P : β → Prop}
    (h : Yields reader fun a => P (f a)) :
    Yields (fun s => (reader s).map fun (a, rest) => (f a, rest)) P := by
  intro s b rest hread
  obtain ⟨a, hresult, rfl⟩ := exists_of_map_eq_ok hread
  exact h s a rest hresult

/-! ## Containers -/

section Containers

variable {P : α → Prop} {leave : List Char → List Char × Option Fault}

/-- The loop over items yields lists of what the reader of an item yields. -/
theorem yields_itemsLoop {item : Reader α} (h : Yields item P) (fuel : Nat) {read : List α}
    (hread : ∀ a ∈ read, P a) : Yields (itemsLoop item fuel read) fun as => ∀ a ∈ as, P a := by
  -- on the turns of the loop; what has been read so far has the property
  induction fuel generalizing read with
  | zero =>
    intro s as rest hloop
    cases hloop
  | succ fuel ih =>
    intro s as rest hloop
    rw [itemsLoop] at hloop
    split at hloop
    · -- nothing could be read here
      cases hloop
    · -- the list ends, and what was read is turned round
      cases hloop
      simpa using hread
    · split at hloop
      · cases hloop
      · next a after hitem =>
        exact ih (List.forall_mem_cons.mpr ⟨h _ a after hitem, hread⟩) _ as rest hloop

/-- A list holds what the reader of an item yields. -/
theorem yields_items {item : Reader α} (h : Yields item P) :
    Yields (items item) fun as => ∀ a ∈ as, P a :=
  fun s => yields_itemsLoop h (s.length + 1) (fun _ hmem => absurd hmem List.not_mem_nil) s

/-- The loop over members keeps what each member keeps of the things gathered. -/
theorem yields_membersLoop {member : String → α → Reader α}
    (h : ∀ key gathered, P gathered → Yields (member key gathered) P) (fuel : Nat) (first : Bool)
    {gathered : α} (hgathered : P gathered) :
    Yields (membersLoop member fuel first gathered) P := by
  -- on the turns of the loop, as for items
  induction fuel generalizing first gathered with
  | zero =>
    intro s a rest hloop
    cases hloop
  | succ fuel ih =>
    intro s a rest hloop
    rw [membersLoop] at hloop
    split at hloop
    · cases hloop
    · cases hloop
      exact hgathered
    · split at hloop
      · cases hloop
      · next key after _ _ gathered' after' hmember =>
        exact ih false (h key gathered hgathered after gathered' after' hmember) _ a rest hloop

/-- What is gathered from members has what it started with and every member keeps. -/
theorem yields_members {member : String → α → Reader α} {none : α} (hnone : P none)
    (h : ∀ key gathered, P gathered → Yields (member key gathered) P) :
    Yields (members member none) P :=
  fun s => yields_membersLoop h (s.length + 1) true hnone s

/-- A dictionary holds what was read for its members. -/
theorem yields_entry {item : Reader α} (h : Yields item P) (key : String) (d : Dictionary α)
    (hd : ∀ entry ∈ d.entries, P entry.2) :
    Yields (entry item key d) fun d => ∀ entry ∈ d.entries, P entry.2 := by
  intro s d' rest hentry
  obtain ⟨after, -, hentry⟩ := exists_of_bind_eq_ok hentry
  obtain ⟨⟨a, after'⟩, hitem, hinsert⟩ := exists_of_bind_eq_ok hentry
  cases hinsert
  -- an entry is the one just read, or was there before
  intro e he
  rcases Dictionary.mem_insertEntry he with rfl | hold
  · exact h after a rest hitem
  · exact hd e hold

/-- A dictionary holds what the reader of an item yields. -/
theorem yields_dictionary {item : Reader α} (h : Yields item P) :
    Yields (members (entry item) .empty) fun d => ∀ entry ∈ d.entries, P entry.2 :=
  yields_members (fun _ hmem => absurd hmem List.not_mem_nil) fun key d => yields_entry h key d

/-- Leaving a container does not change what was read in it. -/
theorem yields_within {content : Reader α} (h : Yields content P) :
    Yields (within leave content) P := by
  intro s a rest hwithin
  unfold within at hwithin
  split at hwithin
  · cases hwithin
  · cases hwithin
  · next hcontent =>
    split at hwithin
    · cases hwithin
    · cases hwithin
      exact h s a _ hcontent

/-- The content of a container is read one level below it. -/
theorem yields_nested {content : Nat → Reader α} {P : Nat → α → Prop}
    (h : ∀ levels, Yields (content levels) (P levels)) (levels : Nat) :
    Yields (nested leave content levels) fun a => ∃ inner, levels = inner + 1 ∧ P inner a := by
  intro s a rest hnested
  cases levels with
  | zero => cases hnested
  | succ inner => exact ⟨inner, rfl, yields_within (h inner) (s.drop 1) a rest hnested⟩

end Containers

/-! ## Scalars -/

/-- A word is read as what it means and as nothing else. -/
theorem eq_of_word {meaning a : α} {letters s rest : List Char}
    (h : word meaning letters s = .ok (a, rest)) : a = meaning := by
  -- on the letters that are left
  induction letters generalizing s with
  | nil =>
    cases h
    rfl
  | cons letter letters ih =>
    cases s with
    | nil => cases h
    | cons c s =>
      rw [word] at h
      split at h
      · exact ih h
      · cases h

namespace Numeral

/-- An integer is a number, and so is one that has to be a double. -/
theorem kind_integer (negative : Bool) (significand : Nat) :
    (integer negative significand).kind = .number := by
  unfold integer
  dsimp only
  split
  · rfl
  · split <;> rfl

/-- Whatever a numeral is worth, it is a number. -/
theorem kind_of_value {n : Numeral} {v : Value} {rest : List Char} (h : n.value rest = .ok v) :
    v.kind = .number := by
  unfold value at h
  dsimp only at h
  split at h
  · cases h
    exact kind_integer _ _
  · -- doubles, if they are not too great
    split at h <;> split at h <;> try split at h
    all_goals cases h <;> rfl

end Numeral

/-- What is read as a number is one. -/
theorem kind_of_number {s rest : List Char} {v : Value} (h : number s = .ok (v, rest)) :
    v.kind = .number := by
  obtain ⟨⟨numeral, after⟩, -, h⟩ := exists_of_bind_eq_ok h
  obtain ⟨value, hvalue, hresult⟩ := exists_of_bind_eq_ok h
  cases hresult
  exact Numeral.kind_of_value hvalue

/-- A scalar that was read is not nested, and its kind is told by the first character. -/
theorem kind_of_scalar {s rest : List Char} {v : Value} (h : scalar s = .ok (v, rest)) :
    v.depth = 0 ∧ ∃ c tail, s = c :: tail ∧ Kind.ofChar c = some v.kind := by
  unfold scalar at h
  -- One case for each letter that a scalar may start with.
  split at h
  · -- null and the two truth values are words
    obtain rfl := eq_of_word h
    exact ⟨rfl, 'n', _, rfl, rfl⟩
  · obtain rfl := eq_of_word h
    exact ⟨rfl, 't', _, rfl, rfl⟩
  · obtain rfl := eq_of_word h
    exact ⟨rfl, 'f', _, rfl, rfl⟩
  · -- a string
    split at h
    · cases h
    · cases h
      exact ⟨rfl, '"', _, rfl, rfl⟩
  · -- a number, if the character is a minus sign or a digit
    split at h
    · next c tail _ _ _ _ hnumeric =>
      have hnumber := kind_of_number h
      have hchar : Kind.ofChar c = some .number := by
        rcases hnumeric with rfl | hdigit
        · rfl
        · exact Kind.ofChar_of_isDigit hdigit
      refine ⟨?_, c, tail, rfl, by rw [hchar, hnumber]⟩
      cases v with
      | arr _ | obj _ => cases hnumber
      | _ => rfl
    · cases h
  · cases h

/-! ## Values -/

namespace Value

/-- Items are canonical one by one. -/
theorem canonicalItems_iff {vs : List Value} : CanonicalItems vs ↔ ∀ v ∈ vs, v.Canonical := by
  induction vs with
  | nil => simp [CanonicalItems]
  | cons v vs ih => rw [CanonicalItems, ih, List.forall_mem_cons]

/-- Members are canonical one by one. -/
theorem canonicalMembers_iff {ms : List (String × Value)} :
    CanonicalMembers ms ↔ ∀ m ∈ ms, m.2.Canonical := by
  induction ms with
  | nil => simp [CanonicalMembers]
  | cons m ms ih => rw [CanonicalMembers, ih, List.forall_mem_cons]

/-- The deepest item decides the depth. -/
theorem depthItems_le_iff {vs : List Value} {n : Nat} :
    depthItems vs ≤ n ↔ ∀ v ∈ vs, v.depth ≤ n := by
  induction vs with
  | nil => simp [depthItems]
  | cons v vs ih => rw [depthItems, Nat.max_le, ih, List.forall_mem_cons]

/-- Whether the keys of every object ascend, and arrays and objects are nested at most a number of
    levels deep. -/
structure Legible (levels : Nat) (v : Value) : Prop where
  canonical : v.Canonical
  depth_le : v.depth ≤ levels

/-- What is not nested is legible at any level. -/
theorem legible_of_depth_eq_zero {v : Value} (h : v.depth = 0) (levels : Nat) :
    v.Legible levels := by
  refine ⟨?_, by omega⟩
  cases v with
  | arr _ | obj _ => cases h
  | _ => trivial

/-- An array of legible items is legible one level higher. -/
theorem legible_arr {levels : Nat} {items : List Value} (h : ∀ v ∈ items, v.Legible levels) :
    (arr items).Legible (levels + 1) where
  canonical := canonicalItems_iff.mpr fun v hv => (h v hv).canonical
  depth_le := Nat.succ_le_succ (depthItems_le_iff.mpr fun v hv => (h v hv).depth_le)

/-- An object made of a dictionary is legible, for the keys of a dictionary ascend. -/
theorem legible_ofDictionary {levels : Nat} {d : Dictionary Value}
    (h : ∀ entry ∈ d.entries, entry.2.Legible levels) : (ofDictionary d).Legible (levels + 1) where
  canonical := ⟨d.ascending, canonicalMembers_iff.mpr fun e he => (h e he).canonical⟩
  depth_le := Nat.succ_le_succ (depthMembers_le_iff.mpr fun e he => (h e he).depth_le)

end Value

/-- A value is a list, an object or a scalar, as its first character says. -/
theorem yields_valueWith {list object : Reader Value} {P : Value → Prop} (hscalar : Yields scalar P)
    (hlist : Yields list P) (hobject : Yields object P) : Yields (valueWith list object) P := by
  intro s v rest hread
  unfold valueWith at hread
  split at hread
  · exact hlist _ v rest hread
  · exact hobject _ v rest hread
  · exact hscalar _ v rest hread

/-- Values that were read are legible: each container takes one of the levels that are left. -/
theorem yields_value (levels : Nat) : Yields (value levels) (Value.Legible levels) := by
  have hscalar : ∀ levels, Yields scalar (Value.Legible levels) := fun levels s v rest hread =>
    Value.legible_of_depth_eq_zero (kind_of_scalar hread).1 levels
  induction levels with
  | zero =>
    -- no container is entered
    rw [value]
    refine yields_valueWith (hscalar 0) ?_ ?_ <;> (intro s v rest hread; cases hread)
  | succ levels ih =>
    rw [value]
    refine yields_valueWith (hscalar (levels + 1)) ?_ ?_
    · refine yields_map Value.arr fun s items rest hread => ?_
      exact Value.legible_arr (yields_within (yields_items ih) (s.drop 1) items rest hread)
    · refine yields_map Value.ofDictionary fun s d rest hread => ?_
      exact Value.legible_ofDictionary
        (yields_within (yields_dictionary ih) (s.drop 1) d rest hread)

/-- The first character tells the kind of what is read. -/
theorem kind_of_valueWith {list object : Reader Value} (hlist : Yields list fun v => v.kind = .arr)
    (hobject : Yields object fun v => v.kind = .obj) {s rest : List Char} {v : Value}
    (h : valueWith list object s = .ok (v, rest)) :
    ∃ c tail, skipBlanks s = c :: tail ∧ Kind.ofChar c = some v.kind := by
  unfold valueWith at h
  split at h
  · next tail hblanks =>
    rw [hlist _ v rest h]
    exact ⟨'[', tail, hblanks, rfl⟩
  · next tail hblanks =>
    rw [hobject _ v rest h]
    exact ⟨'{', tail, hblanks, rfl⟩
  · exact (kind_of_scalar h).2

/-- The same holds at any level: where none is left, no container is read at all. -/
theorem kind_of_value {levels : Nat} {s rest : List Char} {v : Value}
    (h : value levels s = .ok (v, rest)) :
    ∃ c tail, skipBlanks s = c :: tail ∧ Kind.ofChar c = some v.kind := by
  cases levels with
  | zero =>
    rw [value] at h
    refine kind_of_valueWith ?_ ?_ h <;> (intro s v rest hread; cases hread)
  | succ levels =>
    rw [value] at h
    exact kind_of_valueWith (yields_map Value.arr fun _ _ _ _ => rfl)
      (yields_map Value.ofDictionary fun _ _ _ _ => rfl) h

/-! ## Typed values -/

namespace Decoder

/-- Only one character starts a null. -/
theorem eq_of_kind_null {c : Char} (h : Kind.ofChar c = some .null) : c = 'n' := by
  unfold Kind.ofChar at h
  split at h
  · rfl
  case h_7 => cases (Option.ite_none_right_eq_some.mp h).2
  all_goals cases h

/-- What is read as there is not null, which is read as absent. -/
theorem yields_optional_any (levels : Nat) : Yields (optional any levels) fun data =>
    ∀ v, data = some v → v.kind ≠ .null ∧ v.Legible levels := by
  intro s data rest hread
  unfold optional at hread
  split at hread
  · -- a null
    obtain rfl := eq_of_word hread
    nofun
  · next hletter =>
    obtain ⟨v, hvalue, rfl⟩ := exists_of_map_eq_ok hread
    rintro v' ⟨⟩
    refine ⟨fun hnull => ?_, yields_value levels _ v rest hvalue⟩
    -- the text would start with the letter of null
    obtain ⟨c, tail, hblanks, hchar⟩ := kind_of_value hvalue
    rw [hnull] at hchar
    rw [skipBlanks, skipBlanks, List.dropWhile_idempotent, eq_of_kind_null hchar] at hblanks
    exact hletter tail hblanks

end Decoder

namespace Record

variable {r : Record ρ} {P : Nat → ρ → Prop}

/-- Whether every field of a record type keeps a property of records, at any level. -/
def Keeps (r : Record ρ) (P : Nat → ρ → Prop) : Prop :=
  ∀ field ∈ r.fields, ∀ levels,
    Yields (field.read levels) fun set => ∀ record, P levels record → P levels (set record)

/-- A member sets its field, if it has one, and keeps what the field keeps. -/
theorem yields_member (hkeeps : r.Keeps P) (levels : Nat) (key : String)
    {read : List String × ρ} (hread : P levels read.2) :
    Yields (r.member levels key read) fun read => P levels read.2 := by
  obtain ⟨given, record⟩ := read
  intro s read' rest hmember
  unfold member at hmember
  dsimp only at hmember
  -- A member without a field is skipped; one whose field was given already is refused.
  split at hmember
  · obtain ⟨after, -, hmember⟩ := exists_of_bind_eq_ok hmember
    obtain ⟨after', -, hskipped⟩ := exists_of_bind_eq_ok hmember
    cases hskipped
    exact hread
  · next field hfield =>
    split at hmember
    · cases hmember
    · obtain ⟨after, -, hmember⟩ := exists_of_bind_eq_ok hmember
      obtain ⟨⟨set, after'⟩, hset, hresult⟩ := exists_of_bind_eq_ok hmember
      cases hresult
      exact hkeeps field (List.mem_of_find?_eq_some hfield) levels after set after' hset record
        hread

/-- A record that is written as an object has what its blank has and every field keeps. -/
theorem yields_ofMembers (hkeeps : r.Keeps P) {levels : Nat} (hblank : P levels r.blank) :
    Yields (r.ofMembers levels) (P levels) := by
  intro s record rest hread
  obtain ⟨⟨⟨given, record'⟩, after⟩, hmembers, hread⟩ := exists_of_bind_eq_ok hread
  have hrecord : P levels record' := yields_members (P := fun read => P levels read.2) hblank
    (fun key read hread => yields_member hkeeps levels key hread) s _ after hmembers
  dsimp only at hread
  split at hread
  · cases hread
  · cases hread
    exact hrecord

/-- The same holds of a record that is written as an array, field by field. -/
theorem yields_ofItemsFrom (hkeeps : r.Keeps P) (levels : Nat) {fields : List (Field ρ)}
    (hfields : fields ⊆ r.fields) (index : Nat) {record : ρ} (hrecord : P levels record) :
    Yields (r.ofItemsFrom levels fields index record) (P levels) := by
  -- on the fields that are left
  induction fields generalizing index record with
  | nil =>
    intro s record' rest hread
    cases hread
    exact hrecord
  | cons field fields ih =>
    obtain ⟨hfield, hfields⟩ := List.cons_subset.mp hfields
    intro s record' rest hread
    obtain ⟨⟨more, after⟩, -, hread⟩ := exists_of_bind_eq_ok hread
    dsimp only at hread
    split at hread
    · -- an item is there, and the field reads it
      obtain ⟨⟨set, after'⟩, hset, hread⟩ := exists_of_bind_eq_ok hread
      have hkept := hkeeps field hfield levels after set after' hset record hrecord
      exact ih hfields (index + 1) hkept after' record' rest hread
    · -- the array has ended: a field that must be given is missing, others are as in the blank
      split at hread
      · cases hread
      · exact ih hfields (index + 1) hrecord after record' rest hread

/-- A record has what its blank has and every field keeps. -/
theorem yields_decoder (hkeeps : r.Keeps P) (hblank : ∀ levels, P levels r.blank) (levels : Nat) :
    Yields (r.decoder levels) fun record => ∃ inner, levels = inner + 1 ∧ P inner record := by
  intro s record rest hread
  unfold decoder at hread
  split at hread
  · cases hread
  · exact yields_nested (fun inner => yields_ofMembers hkeeps (hblank inner)) levels _ record rest
      hread
  · exact yields_nested (fun inner => yields_ofItemsFrom hkeeps inner (List.Subset.refl _) 0
      (hblank inner)) levels _ record rest hread
  · cases hread

end Record

/-- What a whole text is decoded to is what its decoder yields. -/
theorem of_decode {decoder : Decoder α} {P : α → Prop} (h : Yields (decoder greatestDepth) P)
    {text : String} {a : α} (hdecode : decode decoder text = .ok a) : P a := by
  unfold decode at hdecode
  -- nothing but blanks may follow what was read
  dsimp only at hdecode
  split at hdecode
  · cases hdecode
  · next b rest hread =>
    split at hdecode
    · cases hdecode
      exact h _ a rest hread
    · cases hdecode

end TieredQuery.Json
