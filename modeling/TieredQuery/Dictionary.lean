/-!
# Dictionaries in key order

A dictionary is a list of entries with strictly ascending keys, so two dictionaries with the same
entries are equal and their order of listing is fixed. Keys are ordered by code point, which is
also the order of their UTF-8 bytes.

The view is `get?`: `get?_insert` says what an insertion does to it, and `ofList_entries` that a
dictionary is rebuilt from its own entries.
-/

namespace TieredQuery

/-- Entries whose keys ascend. -/
def Ascending {β : Type} (entries : List (String × β)) : Prop :=
  entries.Pairwise fun a b => a.1 < b.1

/-- A finite map from texts. -/
structure Dictionary (β : Type) where
  entries : List (String × β)
  ascending : Ascending entries

namespace Dictionary

variable {β : Type}

/-- Dictionaries with the same entries are equal: that the keys ascend is no data. -/
theorem ext_entries {d e : Dictionary β} (h : d.entries = e.entries) : d = e := by
  cases d; cases e; cases h; rfl

/-- The dictionary without entries. -/
def empty : Dictionary β := ⟨[], List.Pairwise.nil⟩

instance : EmptyCollection (Dictionary β) := ⟨empty⟩
instance : Inhabited (Dictionary β) := ⟨empty⟩

/-! ## Insertion -/

/-- Places an entry before the first greater key and replaces an equal one. -/
def insertEntry (key : String) (value : β) : List (String × β) → List (String × β)
  | [] => [(key, value)]
  | (k, v) :: rest =>
    if key < k then (key, value) :: (k, v) :: rest
    else if key = k then (key, value) :: rest
    else (k, v) :: insertEntry key value rest

/-- An insertion brings in nothing but its own entry. -/
theorem mem_insertEntry {key : String} {value : β} {entries : List (String × β)} {e : String × β}
    (h : e ∈ insertEntry key value entries) : e = (key, value) ∨ e ∈ entries := by
  induction entries with
  | nil => simpa [insertEntry] using h
  | cons head rest ih =>
    obtain ⟨k, v⟩ := head
    simp only [insertEntry] at h
    split at h
    · simpa using h
    · split at h
      · rcases List.mem_cons.1 h with h | h
        · exact .inl h
        · -- the entry that was there is dropped, those behind it stay
          exact .inr (List.mem_cons_of_mem _ h)
      · rcases List.mem_cons.1 h with h | h
        · exact .inr (by simp [h])
        · exact (ih h).imp_right (List.mem_cons_of_mem _)

/-- Of two keys that differ and are not in order, the second is the lesser. -/
theorem lt_of_not_lt_of_ne {a b : String} (h : ¬ a < b) (ne : a ≠ b) : b < a := by
  rcases Decidable.em (b < a) with lt | nlt
  · exact lt
  · exact absurd (String.le_antisymm (String.not_lt.1 nlt) (String.not_lt.1 h)) ne

/-- Keys still ascend after an insertion. -/
theorem ascending_insertEntry (key : String) (value : β) {entries : List (String × β)}
    (h : Ascending entries) : Ascending (insertEntry key value entries) := by
  induction entries with
  | nil => simp [insertEntry, Ascending]
  | cons head rest ih =>
    obtain ⟨k, v⟩ := head
    obtain ⟨above, tail⟩ := List.pairwise_cons.1 h
    simp only [insertEntry]
    split
    next lt =>
      -- the new key is below the head, and so below all others
      refine List.pairwise_cons.2 ⟨fun e he => ?_, h⟩
      rcases List.mem_cons.1 he with rfl | he
      · exact lt
      · exact String.lt_trans lt (above e he)
    next nlt =>
      split
      next eq => subst eq; exact List.pairwise_cons.2 ⟨above, tail⟩
      next ne =>
        refine List.pairwise_cons.2 ⟨fun e he => ?_, ih tail⟩
        -- what comes after the head was there before or is the new entry, which is above it
        rcases mem_insertEntry he with rfl | he
        · exact lt_of_not_lt_of_ne nlt ne
        · exact above e he

/-- Sets the value of a key; the value it had is replaced. -/
def insert (d : Dictionary β) (key : String) (value : β) : Dictionary β :=
  ⟨insertEntry key value d.entries, ascending_insertEntry key value d.ascending⟩

/-- The dictionary of a list; of entries with one key the last counts. -/
def ofList (entries : List (String × β)) : Dictionary β :=
  entries.foldl (fun d e => d.insert e.1 e.2) empty

/-- The entries of both, where those of the second count. -/
def merge (d e : Dictionary β) : Dictionary β :=
  e.entries.foldl (fun d entry => d.insert entry.1 entry.2) d

/-! ## Looking up -/

/-- The value of a key. -/
def get? (d : Dictionary β) (key : String) : Option β := d.entries.lookup key

/-- Whether a key has a value. -/
def contains (d : Dictionary β) (key : String) : Bool := (d.get? key).isSome

/-- An empty dictionary has no values. -/
@[simp] theorem get?_empty (key : String) : (empty : Dictionary β).get? key = none := rfl

/-- Looking up a key asks the first entry and then the others. -/
theorem lookup_cons_eq (other key : String) (value : β) (entries : List (String × β)) :
    ((key, value) :: entries).lookup other =
      if other = key then some value else entries.lookup other := by
  by_cases h : other = key
  · simp [h]
  · simp [List.lookup_cons, beq_eq_false_iff_ne.2 h, h]

/-- An insertion into a list of entries sets its own key and leaves the others. -/
theorem lookup_insertEntry (key other : String) (value : β) (entries : List (String × β)) :
    (insertEntry key value entries).lookup other =
      if other = key then some value else entries.lookup other := by
  induction entries with
  | nil => simp [insertEntry, lookup_cons_eq]
  | cons head rest ih =>
    obtain ⟨k, v⟩ := head
    simp only [insertEntry]
    split
    · rw [lookup_cons_eq]
    · split
      -- the head has the key that is set, and its value is replaced
      next eq => subst eq; simp only [lookup_cons_eq]; split <;> rfl
      next ne => simp only [lookup_cons_eq, ih]; grind

/-- An insertion sets its own key and leaves the others. -/
theorem get?_insert (d : Dictionary β) (key other : String) (value : β) :
    (d.insert key value).get? other = if other = key then some value else d.get? other :=
  lookup_insertEntry key other value d.entries

/-! ## Entries rebuild their dictionary -/

/-- An entry above all others goes to the end. -/
theorem insertEntry_of_above {key : String} {value : β} {entries : List (String × β)}
    (h : ∀ e ∈ entries, e.1 < key) : insertEntry key value entries = entries ++ [(key, value)] := by
  induction entries with
  | nil => rfl
  | cons head rest ih =>
    obtain ⟨k, v⟩ := head
    have lt : k < key := h (k, v) (by simp)
    have ne : key ≠ k := fun eq => String.lt_irrefl k (by rw [eq] at lt; exact lt)
    simp only [insertEntry, if_neg (String.lt_asymm lt), if_neg ne, List.cons_append,
      ih fun e he => h e (List.mem_cons_of_mem _ he)]

/-- Entries that go on where those of a dictionary end are appended one by one. -/
theorem foldl_insert_entries {d : Dictionary β} {entries : List (String × β)}
    (h : Ascending (d.entries ++ entries)) :
    (entries.foldl (fun d e => d.insert e.1 e.2) d).entries = d.entries ++ entries := by
  induction entries generalizing d with
  | nil => simp
  | cons e rest ih =>
    have above : ∀ x ∈ d.entries, x.1 < e.1 := fun x hx =>
      (List.pairwise_append.1 h).2.2 x hx e (by simp)
    have step : (d.insert e.1 e.2).entries = d.entries ++ [e] := insertEntry_of_above above
    rw [List.foldl_cons, ih (by rw [step]; simpa using h), step]
    simp

/-- A dictionary is rebuilt from its own entries. -/
theorem ofList_entries (d : Dictionary β) : ofList d.entries = d :=
  ext_entries (by
    have h : Ascending ((empty : Dictionary β).entries ++ d.entries) := d.ascending
    simpa [ofList, empty] using foldl_insert_entries h)

end Dictionary
end TieredQuery
