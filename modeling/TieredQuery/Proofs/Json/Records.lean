import Mathlib.Data.List.Perm.Basic
import TieredQuery.Proofs.Dictionary
import TieredQuery.Proofs.Json.RoundTrip

/-!
# Typed values are read back

A decoder restores what a value was made from, if it reads it back wherever its text may be nested
(`Decoder.Restores`). A record is restored from an object whose members are each read by a field, as
long as no required one is left out: the `Filling`s of a record are its members together with what
reading them sets. Where they set different things, their order does not matter, and that of the
entries of a dictionary never does.

## Key results

- `restores_string`, `restores_word`, `restores_list`, `restores_dictionary`, `restores_choice`: the
  decoders of parts
- `restores_record`, `restores_record_of_perm`: records
- `decode_of_restores`: whole texts
-/

namespace TieredQuery.Json

variable {α β ρ : Type}

namespace Decoder

/-- Whether a decoder reads the text of a value back as something, within its limits. -/
def Restores (decoder : Decoder α) (v : Value) (a : α) : Prop :=
  ∀ levels, ReadsBack levels (decoder levels) v a

variable {decoder : Decoder α} {v : Value} {a : α}

/-- What is made of a restored thing is restored. -/
theorem restores_map (h : decoder.Restores v a) (f : α → β) : (decoder.map f).Restores v (f a) :=
  fun levels rest hrest => (h levels rest hrest).map f

/-- A value is restored as it is, if its keys ascend and its numbers are integers. -/
theorem restores_any (hcanonical : v.Canonical) (hintegral : v.Integral) : any.Restores v v :=
  Value.reads v hcanonical hintegral

/-- A string is restored, whatever is in it. -/
theorem restores_string (s : String) : string.Restores (.str s) s := by
  intro levels rest _
  obtain ⟨body, hquoted, hbody⟩ := stringBody_quoted s rest
  have hread : string levels ('"' :: body) = .ok (s, rest) := hbody
  rw [Value.chars, hquoted, hread]
  exact .flat levels s rest

/-- An integer within the limits is read as the natural number that it is. -/
theorem restores_unsigned (expected : String) {limit : Nat} {i : Integer} (hlower : 0 ≤ i.val)
    (hupper : i.val ≤ limit) : (unsigned expected limit).Restores (.int i) i.val.toNat := by
  intro levels rest hrest
  obtain ⟨c, tail, htext, hkind⟩ := Value.exists_head (v := .int i) trivial
  have hnumber := number_int i hrest
  rw [Value.chars] at htext ⊢
  rw [htext, List.cons_append] at hnumber ⊢
  unfold unsigned
  rw [skipBlanks_of_kind hkind]
  dsimp only
  -- a number that fits is not refused
  rw [if_pos (minus_or_digit_of_number hkind), hnumber]
  dsimp only
  rw [if_pos ⟨hlower, hupper⟩]
  exact .flat levels _ rest

/-- A word is restored from its integer, whose limits are its own. -/
theorem restores_word (expected : String) (w : UInt64) : (word expected).Restores (.word w) w := by
  have hread : (word expected).Restores (.word w) (UInt64.ofNat (Integer.ofWord w).val.toNat) := by
    refine restores_map (restores_unsigned expected ?_ ?_) UInt64.ofNat
    · rw [Integer.val_ofWord]
      omega
    · have hbound := w.toNat_lt
      rw [Integer.val_ofWord, UInt64.size]
      omega
  rwa [Integer.val_ofWord, Int.toNat_natCast, UInt64.ofNat_toNat] at hread

/-- Null is restored as nothing. -/
theorem restores_null (decoder : Decoder α) : (optional decoder).Restores .null none := by
  intro levels rest _
  rw [Value.chars]
  exact .flat levels none rest

/-- What is there is not taken for null. -/
theorem restores_optional (h : decoder.Restores v a) (hfinite : v.Finite) (hkind : v.kind ≠ .null) :
    (optional decoder).Restores v (some a) := by
  intro levels rest hrest
  obtain ⟨c, tail, htext, hchar⟩ := Value.exists_head hfinite
  -- only null starts with this letter
  have hletter : c ≠ 'n' := by
    rintro rfl
    exact hkind (Option.some.inj hchar).symm
  have hread := (h levels rest hrest).map some
  rw [htext, List.cons_append] at hread ⊢
  unfold optional
  rw [skipBlanks_of_kind hchar]
  split
  next heq =>
    cases heq
    exact absurd rfl hletter
  next => exact hread

/-- A list is restored from the values of its items. -/
theorem restores_list {ι : Type} {shape : ι → Value} {meaning : ι → α} {is : List ι}
    (hfinite : ∀ i ∈ is, (shape i).Finite) (h : ∀ i ∈ is, decoder.Restores (shape i) (meaning i)) :
    (list decoder).Restores (.arr (is.map shape)) (is.map meaning) := by
  intro levels rest _
  obtain ⟨s, hs⟩ := Value.exists_chars_arr (is.map shape) rest
  have hread := reads_list hfinite (fun levels i hi => h i hi levels) levels rest
  rw [hs] at hread ⊢
  exact hread

/-- A dictionary is restored from its members, which are entered one after the other. -/
theorem restores_dictionary {ι : Type} {shape : ι → String × Value} {meaning : ι → α} {ms : List ι}
    (h : ∀ m ∈ ms, decoder.Restores (shape m).2 (meaning m)) :
    (dictionary decoder).Restores (.obj (ms.map shape))
      (ms.foldl (fun d m => d.insert (shape m).1 (meaning m)) .empty) := by
  intro levels rest _
  obtain ⟨s, hs⟩ := Value.exists_chars_obj (ms.map shape) rest
  have hread := reads_dictionary (fun levels m hm => h m hm levels) levels rest
  rw [hs] at hread ⊢
  exact hread

/-- A dictionary is restored from its entries in any order. -/
theorem restores_dictionary_of_perm (write : α → Value) {d : Dictionary α}
    {listed : List (String × α)} (hperm : listed.Perm d.entries)
    (h : ∀ entry ∈ d.entries, decoder.Restores (write entry.2) entry.2) :
    (dictionary decoder).Restores (.obj (listed.map fun entry => (entry.1, write entry.2))) d := by
  have hentries : listed.foldl (fun d entry => d.insert entry.1 entry.2) .empty = d :=
    Dictionary.ofList_of_perm hperm
  have hread : ∀ entry ∈ listed, decoder.Restores (write entry.2) entry.2 :=
    fun entry hentry => h entry (hperm.mem_iff.mp hentry)
  rw [← hentries]
  exact restores_dictionary hread

/-- One of some choices is restored from its name. -/
theorem restores_choice {choices : List (String × α)} {name : String}
    (h : choices.lookup name = some a) : (choice choices).Restores (.str name) a := by
  intro levels rest _
  obtain ⟨body, hquoted, hbody⟩ := stringBody_quoted name rest
  have hread : choice choices levels ('"' :: body) = .ok (a, rest) := by
    show (stringBody [] body >>= _) = _
    rw [hbody]
    show (choose choices name rest >>= _) = _
    rw [choose, h]
    rfl
  rw [Value.chars, hquoted, hread]
  exact .flat levels a rest

end Decoder

/-! ## Records -/

/-- A member by which a record is written, and what reading it sets. -/
structure Filling (ρ : Type) where
  name : String
  value : Value
  set : ρ → ρ

namespace Filling

/-- The member. -/
def shape (filling : Filling ρ) : String × Value := (filling.name, filling.value)

/-- Whether a field of a record type reads the member. -/
def Fits (filling : Filling ρ) (r : Record ρ) : Prop :=
  ∃ field, r.fields.find? (·.name == filling.name) = some field ∧
    field.read.Restores filling.value filling.set

/-- A field sets what its decoder restores. -/
theorem fits_of_restores {r : Record ρ} {name : String} {required : Bool} {decoder : Decoder α}
    {v : Value} {a : α} (set : α → ρ → ρ)
    (hfield : r.fields.find? (·.name == name) = some ⟨name, required, decoder.map set⟩)
    (h : decoder.Restores v a) : (Filling.mk name v (set a)).Fits r :=
  ⟨_, hfield, Decoder.restores_map h set⟩

end Filling

namespace Record

variable {r : Record ρ} {fillings : List (Filling ρ)}

/-- The names of the fields that must be given. -/
def required (r : Record ρ) : List String := (r.fields.filter (·.required)).map (·.name)

/-- A field that must be given is among those that must. -/
theorem name_mem_required {field : Field ρ} (hfield : field ∈ r.fields)
    (hneeded : field.required = true) : field.name ∈ r.required :=
  List.mem_map_of_mem (List.mem_filter.mpr ⟨hfield, hneeded⟩)

/-- The blank record with all that some members set, one after the other. -/
def filled (r : Record ρ) (fillings : List (Filling ρ)) : ρ :=
  fillings.foldl (fun record filling => filling.set record) r.blank

/-- Takes a member that was read into the record read so far, and its name to those given. -/
def take (read : List String × ρ) (filling : Filling ρ) : List String × ρ :=
  (filling.name :: read.1, filling.set read.2)

/-- Members that are taken one after the other leave their names, and what they have set. -/
theorem foldl_take (fillings : List (Filling ρ)) (read : List String × ρ) :
    fillings.foldl take read = ((fillings.map Filling.name).reverse ++ read.1,
      fillings.foldl (fun record filling => filling.set record) read.2) := by
  -- on the members that are left
  induction fillings generalizing read with
  | nil => rfl
  | cons filling fillings ih =>
    rw [List.foldl_cons, ih, take, List.map_cons, List.reverse_cons, List.append_assoc]
    rfl

/-- A member is read by the field of its name, unless it was given before. -/
theorem member_colon {field : Field ρ} {key : String} {given : List String}
    (hfield : r.fields.find? (·.name == key) = some field) (hnew : key ∉ given) (levels : Nat)
    (record : ρ) (s : List Char) :
    r.member levels key (given, record) (':' :: s) =
      (field.read levels s).map fun (set, rest) => ((key :: given, set record), rest) := by
  have hcolon : colon (':' :: s) = .ok s := rfl
  simp only [member, hfield, if_neg hnew, hcolon]
  show (field.read levels s >>= fun (set, s) => pure ((key :: given, set record), s)) = _
  cases field.read levels s <;> rfl

/-- Each member is read by its field, since none comes twice. -/
theorem readsMembers_record (hfits : ∀ filling ∈ fillings, filling.Fits r)
    (hnodup : (fillings.map Filling.name).Nodup) (levels : Nat) :
    ReadsMembers Filling.shape levels (r.member levels) take ([], r.blank) fillings := by
  rintro before filling after rfl rest hrest
  obtain ⟨field, hfield, hrestores⟩ := hfits filling (by simp)
  have hnew : filling.name ∉ (before.map Filling.name).reverse ++ [] := by
    rw [List.map_append, List.map_cons, List.nodup_append] at hnodup
    intro hmem
    rw [List.append_nil, List.mem_reverse] at hmem
    exact hnodup.2.2 _ hmem _ List.mem_cons_self rfl
  -- the names given so far are those of the members before
  rw [foldl_take]
  show Reads levels filling.value.depth _ rest (r.member levels filling.name _ _)
  rw [member_colon hfield hnew]
  exact (hrestores levels rest hrest).map fun set => (_, set _)

/-- Where no required field is left out, a record is what its members make of it. -/
theorem reads_ofMembers {levels depth : Nat} {given : List String} {record : ρ}
    {s rest : List Char}
    (h : Reads levels depth (given, record) rest (members (r.member levels) ([], r.blank) s))
    (hgiven : r.required ⊆ given) :
    Reads levels depth record rest (r.ofMembers levels s) := by
  -- no field that must be given was not
  have hfound : r.fields.find? (fun field => field.required && field.name ∉ given) = none := by
    rw [List.find?_eq_none]
    intro field hfield hmissing
    obtain ⟨hneeded, habsent⟩ := Bool.and_eq_true_iff.mp hmissing
    exact of_decide_eq_true habsent (hgiven (name_mem_required hfield hneeded))
  unfold ofMembers
  rw [← Nat.max_zero depth]
  apply h.bind
  dsimp only
  rw [hfound]
  exact .flat levels record rest

/-- A record is read back from its members, in any order, if no required one is missing. -/
theorem restores_record (hfits : ∀ filling ∈ fillings, filling.Fits r)
    (hnodup : (fillings.map Filling.name).Nodup)
    (hrequired : r.required ⊆ fillings.map Filling.name) :
    r.decoder.Restores (.obj (fillings.map Filling.shape)) (r.filled fillings) := by
  intro levels rest _
  obtain ⟨s, hs⟩ := Value.exists_chars_obj (fillings.map Filling.shape) rest
  -- the members are read up to the brace, and leaving the object reads the brace
  have hmembers : ∀ levels, Reads levels (Value.depthMembers (fillings.map Filling.shape))
      (r.filled fillings) ('}' :: rest)
      (r.ofMembers levels (((Value.obj (fillings.map Filling.shape)).chars ++ rest).drop 1)) := by
    intro levels
    have hread := reads_members rest (readsMembers_record hfits hnodup levels)
    rw [foldl_take, List.append_nil] at hread
    exact reads_ofMembers hread (List.subset_reverse.mpr hrequired)
  have hread : Reads levels (Value.depthMembers (fillings.map Filling.shape) + 1) _ rest
      (nested leaveObject r.ofMembers levels
        ((Value.obj (fillings.map Filling.shape)).chars ++ rest)) :=
    Reads.nested (fun levels => (hmembers levels).within rfl) levels
  rw [hs] at hread ⊢
  exact hread

/-- The order of members does not matter if they set different things. -/
theorem restores_record_of_perm {ms : List (String × Value)}
    (hperm : ms.Perm (fillings.map Filling.shape)) (hfits : ∀ filling ∈ fillings, filling.Fits r)
    (hnodup : (fillings.map Filling.name).Nodup)
    (hrequired : r.required ⊆ fillings.map Filling.name)
    (hcomm : ∀ filling ∈ fillings, ∀ other ∈ fillings, ∀ record,
      other.set (filling.set record) = filling.set (other.set record)) :
    r.decoder.Restores (.obj ms) (r.filled fillings) := by
  -- the members in the order given are those of the fillings in some order
  have hordered : Relation.Comp (fun ms ordered => ms = ordered.map Filling.shape) List.Perm
      ms fillings := by
    rw [List.eq_map_comp_perm]
    exact hperm
  obtain ⟨ordered, rfl, hsame⟩ := hordered
  have hfold : r.filled fillings = r.filled ordered := hsame.symm.foldl_eq' hcomm r.blank
  rw [hfold]
  apply restores_record
  · exact fun filling hfilling => hfits filling (hsame.mem_iff.mp hfilling)
  · exact (hsame.map Filling.name).nodup_iff.mpr hnodup
  · exact List.Subset.trans hrequired (hsame.map Filling.name).symm.subset

end Record

/-! ## Whole texts -/

/-- What is written for something is decoded to it, unless it is nested too deep. -/
theorem decode_of_restores {decoder : Decoder α} {v : Value} {a : α}
    (h : decoder.Restores v a) :
    (v.depth ≤ greatestDepth → decode decoder v.render = .ok a) ∧
    (greatestDepth < v.depth → ∃ reason, decode decoder v.render = .error reason ∧
      reason.cause = .nestedTooDeep) := by
  -- nothing follows the text
  have hread := h greatestDepth [] nofun
  rw [List.append_nil] at hread
  unfold decode
  rw [Value.render, String.toList_ofList]
  dsimp only
  -- Split by whether the reader goes deep enough.
  constructor
  · intro hdepth
    rw [hread.eq_ok hdepth]
    rfl
  · intro hdepth
    obtain ⟨unread, hrefused⟩ := hread.exists_error hdepth
    rw [hrefused]
    exact ⟨_, rfl, rfl⟩

end TieredQuery.Json
