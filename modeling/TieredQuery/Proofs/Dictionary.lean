import TieredQuery.Dictionary

/-!
# Dictionaries are known by what they hold

The entries of a dictionary ascend, so no key occurs twice and a key is found exactly where it is
listed (`lookup_eq_some_iff`). Two dictionaries that hold the same values under the same keys are
equal (`ext_get?`).

## Key results

- `ext_get?`: dictionaries with the same lookups are equal
- `get?_merge`: what the merger of two dictionaries holds
- `ofList_of_perm`: a dictionary is rebuilt from its entries in any order
-/

namespace TieredQuery.Dictionary

variable {β : Type}

/-- In ascending entries a key is found with a value exactly where the two are listed. -/
theorem lookup_eq_some_iff {entries : List (String × β)} (h : Ascending entries) {key : String}
    {value : β} : entries.lookup key = some value ↔ (key, value) ∈ entries := by
  induction entries with
  | nil => simp
  | cons head rest ih =>
    obtain ⟨k, v⟩ := head
    obtain ⟨habove, hrest⟩ := List.pairwise_cons.mp h
    rw [lookup_cons_eq, List.mem_cons]
    split
    next heq =>
      subst heq
      have habsent : (key, value) ∉ rest := fun hmem => String.lt_irrefl key (habove _ hmem)
      simp [habsent, eq_comm]
    next hne => simp [ih hrest, hne]

/-- Ascending entries are distinct. -/
theorem nodup_of_ascending {entries : List (String × β)} (h : Ascending entries) :
    entries.Nodup := by
  refine h.imp ?_
  rintro a b hlt rfl
  exact String.lt_irrefl a.1 hlt

/-- Dictionaries that hold the same are equal. -/
theorem ext_get? {d e : Dictionary β} (h : ∀ key, d.get? key = e.get? key) : d = e := by
  -- both list the same entries, in the one order in which they ascend
  have hmem : ∀ entry, entry ∈ d.entries ↔ entry ∈ e.entries := fun (key, value) => by
    rw [← lookup_eq_some_iff d.ascending, ← lookup_eq_some_iff e.ascending,
      show d.entries.lookup key = e.entries.lookup key from h key]
  have hperm : d.entries.Perm e.entries :=
    (List.perm_ext_iff_of_nodup (nodup_of_ascending d.ascending)
      (nodup_of_ascending e.ascending)).mpr hmem
  refine ext_entries (hperm.eq_of_pairwise ?_ d.ascending e.ascending)
  intro a b _ _ hab hba
  exact absurd (String.lt_trans hab hba) (String.lt_irrefl a.1)

/-- Inserting ascending entries one after another sets their keys and leaves the others. -/
theorem get?_foldl_insert (d : Dictionary β) {entries : List (String × β)} (h : Ascending entries)
    (key : String) :
    (entries.foldl (fun d e => d.insert e.1 e.2) d).get? key =
      (entries.lookup key).or (d.get? key) := by
  induction entries generalizing d with
  | nil => rfl
  | cons head rest ih =>
    obtain ⟨k, v⟩ := head
    obtain ⟨habove, hrest⟩ := List.pairwise_cons.mp h
    rw [List.foldl_cons, ih (d.insert k v) hrest, get?_insert, lookup_cons_eq]
    split
    next heq =>
      -- the key is not listed behind its entry, so it is not set again
      subst heq
      have habsent : rest.lookup key = none := by
        refine Option.eq_none_iff_forall_ne_some.mpr fun value hvalue => ?_
        exact String.lt_irrefl key (habove _ ((lookup_eq_some_iff hrest).mp hvalue))
      rw [habsent]
      rfl
    next => rfl

/-- A merger holds what the second dictionary holds, and otherwise what the first does. -/
theorem get?_merge (d e : Dictionary β) (key : String) :
    (d.merge e).get? key = (e.get? key).or (d.get? key) :=
  get?_foldl_insert d e.ascending key

/-! ## The order of entries -/

/-- Insertions of different keys may be exchanged. -/
theorem insert_comm (d : Dictionary β) {key other : String} (hne : key ≠ other) (value value' : β) :
    (d.insert key value).insert other value' = (d.insert other value').insert key value := by
  apply ext_get?
  intro k
  rw [get?_insert, get?_insert, get?_insert, get?_insert]
  by_cases hother : k = other
  · subst hother
    rw [if_pos rfl, if_neg hne.symm, if_pos rfl]
  · rw [if_neg hother, if_neg hother]

/-- A dictionary is rebuilt from its entries, in whatever order they are listed. -/
theorem ofList_of_perm {d : Dictionary β} {listed : List (String × β)}
    (hperm : listed.Perm d.entries) : ofList listed = d := by
  have hcomm : ∀ a ∈ listed, ∀ b ∈ listed, ∀ e : Dictionary β,
      (e.insert a.1 a.2).insert b.1 b.2 = (e.insert b.1 b.2).insert a.1 a.2 := by
    intro a ha b hb e
    by_cases hkey : a.1 = b.1
    · -- a key is listed once
      have hlookup := (lookup_eq_some_iff d.ascending).mpr (hperm.mem_iff.mp ha)
      rw [hkey, (lookup_eq_some_iff d.ascending).mpr (hperm.mem_iff.mp hb)] at hlookup
      rw [Prod.ext hkey (Option.some.inj hlookup).symm]
    · exact insert_comm e hkey a.2 b.2
  calc ofList listed = ofList d.entries := hperm.foldl_eq' hcomm empty
    _ = d := ofList_entries d

end TieredQuery.Dictionary
