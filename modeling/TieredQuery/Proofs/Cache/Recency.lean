import Mathlib.Data.Finset.Card
import Mathlib.Data.List.Nodup
import TieredQuery.RecencyMap

/-!
# What reading and storing do to the slots of a map

For the key that is read or stored the new slot is known exactly; the slot of any other key stays
as it is or, if a value is stored, may be dropped. Which keys are dropped is said by
`Within`: the slot of a key stays as long as fewer keys than the capacity have come before it.

## Key results

- `slot?_touch_self`, `slot?_insert_self`: the key that is read or stored
- `slot?_touch_of_ne`, `slot?_insert_of_ne`: the other keys
- `erase_touchSlots`, `erase_insert`: the slots of all other keys, in their order
- `within_touch_of_ne`, `within_insert_of_ne`: a key stays while few others are used
-/

namespace TieredQuery.RecencyMap

variable {κ β : Type} [DecidableEq κ]

/-! ## Slots of a list -/

/-- A key that was erased has no slot. -/
theorem lookup_erase_self (key : κ) (slots : List (κ × Slot β)) :
    (erase key slots).lookup key = none := by
  rw [List.lookup_eq_none_iff]
  intro p hp
  have hne : p.1 ≠ key := by simpa [erase] using (List.mem_filter.mp hp).2
  exact bne_iff_ne.mpr (Ne.symm hne)

/-- Erasing a key leaves the slots of the others. -/
theorem lookup_erase_of_ne {key other : κ} (h : other ≠ key) (slots : List (κ × Slot β)) :
    (erase key slots).lookup other = slots.lookup other := by
  induction slots with
  | nil => rfl
  | cons head rest ih =>
    obtain ⟨k, s⟩ := head
    -- the head is erased, or it is looked at first in both lists
    by_cases hk : k = key
    · subst hk
      simpa [erase, List.lookup_cons, beq_eq_false_iff_ne.mpr h] using ih
    · simp only [erase, List.filter_cons, ne_eq, hk, not_false_eq_true, decide_true, if_true,
        List.lookup_cons] at ih ⊢
      rw [ih]

/-- A slot found in the first part of a list is the one found in the whole list. -/
theorem lookup_of_lookup_take {key : κ} {slot : Slot β} {slots : List (κ × Slot β)} (n : Nat)
    (h : (slots.take n).lookup key = some slot) : slots.lookup key = some slot := by
  rw [← List.take_append_drop n slots, List.lookup_append, h]
  rfl

/-- A slot that is found is among the slots. -/
theorem mem_of_lookup {key : κ} {slot : Slot β} {slots : List (κ × Slot β)}
    (h : slots.lookup key = some slot) : (key, slot) ∈ slots := by
  obtain ⟨before, after, hsplit, -⟩ := List.lookup_eq_some_iff.mp h
  rw [hsplit]
  exact List.mem_append_right _ List.mem_cons_self

/-- Keys are distinct, so a slot of a map is the one found for its key. -/
theorem slot?_of_mem {m : RecencyMap κ β} {key : κ} {slot : Slot β} (h : (key, slot) ∈ m.slots) :
    m.slot? key = some slot := by
  obtain ⟨before, after, hslots⟩ := List.append_of_mem h
  refine List.lookup_eq_some_iff.mpr ⟨before, after, hslots, fun p hp => ?_⟩
  -- a slot of the same key before it would make the keys repeat
  have hnodup := m.distinct
  rw [hslots, keysOf, List.map_append, List.map_cons, List.nodup_append] at hnodup
  have hne := hnodup.2.2 p.1 (List.mem_map_of_mem hp) key List.mem_cons_self
  exact bne_iff_ne.mpr (Ne.symm hne)

/-- A key without a slot has none to erase. -/
theorem erase_of_slot?_eq_none {m : RecencyMap κ β} {key : κ} (h : m.slot? key = none) :
    erase key m.slots = m.slots := by
  -- every slot passes the filter, for none is of the key
  refine List.filter_eq_self.mpr fun p hp => ?_
  rw [decide_eq_true_eq]
  rintro rfl
  rw [slot?_of_mem hp] at h
  cases h

/-- A map with some of the slots of another finds the same slots or none. -/
theorem slot?_of_sublist {m m' : RecencyMap κ β} (h : m'.slots.Sublist m.slots) (key : κ) :
    m'.slot? key = m.slot? key ∨ m'.slot? key = none := by
  cases hslot : m'.slot? key with
  | none => exact Or.inr rfl
  | some slot => exact Or.inl (slot?_of_mem (h.subset (mem_of_lookup hslot))).symm

/-! ## Reading -/

/-- A live value is that of a slot that has not expired. -/
theorem live?_eq_some_iff {m : RecencyMap κ β} {now : Nat} {key : κ} {value : β} :
    m.live? now key = some value ↔
      ∃ slot, m.slot? key = some slot ∧ m.isExpired now slot = false ∧ slot.value = value := by
  unfold live?
  cases m.slot? key with
  | none => simp
  | some slot => cases hx : m.isExpired now slot <;> simp [hx]

/-- The slot of a key, unless it has expired. -/
def liveSlot? (m : RecencyMap κ β) (now : Nat) (key : κ) : Option (Slot β) :=
  (m.slot? key).filter fun slot => !m.isExpired now slot

/-- A live slot is one that was found and has not expired. -/
theorem liveSlot?_eq_some_iff {m : RecencyMap κ β} {now : Nat} {key : κ} {slot : Slot β} :
    m.liveSlot? now key = some slot ↔ m.slot? key = some slot ∧ m.isExpired now slot = false := by
  simp [liveSlot?, Option.filter_eq_some_iff]

/-- The live value is that of the live slot. -/
theorem live?_eq_map_liveSlot? (m : RecencyMap κ β) (now : Nat) (key : κ) :
    m.live? now key = (m.liveSlot? now key).map (·.value) := by
  unfold live? liveSlot?
  cases m.slot? key with
  | none => rfl
  | some slot => cases hx : m.isExpired now slot <;> simp [Option.filter, hx]

/-- A key is held if it has a live slot. -/
theorem contains_eq_isSome_liveSlot? (m : RecencyMap κ β) (now : Nat) (key : κ) :
    m.contains now key = (m.liveSlot? now key).isSome := by
  unfold contains liveSlot?
  cases m.slot? key with
  | none => rfl
  | some slot => cases hx : m.isExpired now slot <;> simp [Option.filter, hx]

omit [DecidableEq κ] in
/-- A slot has not expired as long as no lifetime is over. -/
theorem isExpired_eq_false_iff {m : RecencyMap κ β} {now : Nat} {slot : Slot β} :
    m.isExpired now slot = false ↔
      ∀ lifetime, m.lifetime = some lifetime → now ≤ slot.storedAt + lifetime := by
  unfold isExpired
  cases m.lifetime with
  | none => simp
  | some lifetime => simp

omit [DecidableEq κ] in
/-- What has not expired had not expired before. -/
theorem isExpired_of_le {m m' : RecencyMap κ β} (hlifetime : m'.lifetime = m.lifetime)
    {now now' : Nat} (hnow : now ≤ now') {slot : Slot β} (h : m'.isExpired now' slot = false) :
    m.isExpired now slot = false := by
  rw [isExpired_eq_false_iff] at h ⊢
  intro lifetime hsome
  exact Nat.le_trans hnow (h lifetime (hlifetime.trans hsome))

/-- Reading a key leaves its slot unless that has expired. -/
theorem slot?_touch_self (m : RecencyMap κ β) (now : Nat) (key : κ) :
    (m.touch now key).slot? key = (m.slot? key).filter fun slot => !m.isExpired now slot := by
  -- the slot that is found comes to the front or is erased
  rw [slot?, slots_touch, touchSlots]
  cases hslot : m.slot? key with
  | none => simpa [slot?] using hslot
  | some slot =>
    cases hx : m.isExpired now slot
    · simp [Option.filter, hx]
    · simp [Option.filter, hx, lookup_erase_self]

/-- Reading a key leaves the slots of the others. -/
theorem slot?_touch_of_ne {key other : κ} (h : other ≠ key) (m : RecencyMap κ β) (now : Nat) :
    (m.touch now key).slot? other = m.slot? other := by
  rw [slot?, slots_touch, touchSlots]
  split
  next => rfl
  next slot _ =>
    split
    · exact lookup_erase_of_ne h _
    · rw [List.lookup_cons, beq_eq_false_iff_ne.mpr h]
      exact lookup_erase_of_ne h _

/-- Reading brings no new slots. -/
theorem mem_slots_touch {m : RecencyMap κ β} {now : Nat} {key : κ} {p : κ × Slot β}
    (h : p ∈ (m.touch now key).slots) : p ∈ m.slots := by
  rw [slots_touch, touchSlots] at h
  split at h
  next => exact h
  next slot hslot =>
    split at h
    · exact List.mem_of_mem_filter h
    · rcases List.mem_cons.mp h with rfl | hrest
      · exact mem_of_lookup hslot
      · exact List.mem_of_mem_filter hrest

/-- Reading a key leaves the slots of all others in their order. -/
theorem erase_touchSlots (m : RecencyMap κ β) (now : Nat) (key : κ) :
    erase key (m.touchSlots now key) = erase key m.slots := by
  -- the slot that moves or goes is the one that is erased
  unfold touchSlots
  split
  · rfl
  · split <;> simp [erase, List.filter_filter]

omit [DecidableEq κ] in
/-- Two maps are equal if their data are. -/
theorem ext_slots {m m' : RecencyMap κ β} (hcapacity : m.capacity = m'.capacity)
    (hlifetime : m.lifetime = m'.lifetime) (hslots : m.slots = m'.slots) : m = m' := by
  cases m
  cases m'
  cases hcapacity
  cases hlifetime
  cases hslots
  rfl

/-- Reading a key that has no slot does nothing. -/
theorem touch_of_slot?_eq_none {m : RecencyMap κ β} {key : κ} (h : m.slot? key = none)
    (now : Nat) : m.touch now key = m := by
  refine ext_slots rfl rfl ?_
  rw [slots_touch, touchSlots, h]

/-- Reading the key that was used last does nothing, unless its slot has expired. -/
theorem touch_of_front {m : RecencyMap κ β} {now : Nat} {key : κ} {slot : Slot β}
    {rest : List (κ × Slot β)} (hslots : m.slots = (key, slot) :: rest)
    (hfresh : m.isExpired now slot = false) : m.touch now key = m := by
  have hslot : m.slot? key = some slot := by rw [slot?, hslots, List.lookup_cons_self]
  -- keys are distinct, so the rest has no other slot of this one
  have hrest : erase key rest = rest := by
    have hnodup := m.distinct
    rw [hslots, keysOf_cons, List.nodup_cons] at hnodup
    refine List.filter_eq_self.mpr fun p hp => ?_
    rw [decide_eq_true_eq]
    rintro rfl
    exact hnodup.1 (List.mem_map_of_mem hp)
  refine ext_slots rfl rfl ?_
  rw [slots_touch, touchSlots, hslot]
  simp only [hfresh, Bool.false_eq_true, if_false]
  rw [hslots]
  simpa [erase] using hrest

/-- Reading a key twice at a time is reading it once. -/
theorem touch_touch (m : RecencyMap κ β) (now : Nat) (key : κ) :
    (m.touch now key).touch now key = m.touch now key := by
  -- a second reading finds the live slot at the front, or no slot
  cases hslot : m.liveSlot? now key with
  | none => exact touch_of_slot?_eq_none ((slot?_touch_self m now key).trans hslot) now
  | some slot =>
    obtain ⟨hfound, hfresh⟩ := liveSlot?_eq_some_iff.mp hslot
    have hslots : (m.touch now key).slots = (key, slot) :: erase key m.slots := by
      rw [slots_touch, touchSlots, hfound]
      simp [hfresh]
    exact touch_of_front hslots hfresh

/-- Reading changes no time of storing. -/
theorem isExpired_touch (m : RecencyMap κ β) (now now' : Nat) (key : κ) (slot : Slot β) :
    (m.touch now key).isExpired now' slot = m.isExpired now' slot := rfl

/-- What is read is still there to be read. -/
theorem live?_touch_self (m : RecencyMap κ β) (now : Nat) (key : κ) :
    (m.touch now key).live? now key = m.live? now key := by
  unfold live?
  rw [slot?_touch_self]
  cases m.slot? key with
  | none => rfl
  | some slot => cases hx : m.isExpired now slot <;> simp [Option.filter, hx, isExpired_touch]

/-! ## Storing -/

/-- A value that was stored has its slot, with the time of storing. -/
theorem slot?_insert_self (m : RecencyMap κ β) (now : Nat) (key : κ) (value : β) :
    (m.insert now key value).slot? key = some ⟨value, now⟩ := by
  rw [slot?, slots_insert, List.lookup_cons_self]

/-- Storing a key leaves the slot of another one, or drops it. -/
theorem slot?_insert_of_ne {key other : κ} (h : other ≠ key) (m : RecencyMap κ β) (now : Nat)
    (value : β) : (m.insert now key value).slot? other = m.slot? other ∨
      (m.insert now key value).slot? other = none := by
  rw [slot?, slots_insert, List.lookup_cons, beq_eq_false_iff_ne.mpr h]
  cases hslot : ((erase key m.slots).take (m.capacity - 1)).lookup other with
  | none => exact Or.inr rfl
  | some slot =>
    -- what is found among the slots that are kept is what was there before
    have hfound := lookup_of_lookup_take _ hslot
    rw [lookup_erase_of_ne h] at hfound
    exact Or.inl hfound.symm

/-- Storing a value does not depend on whether its key was read before. -/
theorem insert_touch (m : RecencyMap κ β) (now now' : Nat) (key : κ) (value : β) :
    (m.touch now key).insert now' key value = m.insert now' key value := by
  simp [insert, erase_touchSlots]

/-- Reading a key that has just been stored does nothing. -/
theorem touch_insert (m : RecencyMap κ β) (now : Nat) (key : κ) (value : β) :
    (m.insert now key value).touch now key = m.insert now key value :=
  touch_of_front (slots_insert ..)
    (isExpired_eq_false_iff.mpr fun lifetime _ => Nat.le_add_right now lifetime)

/-- What storing a key does to the slots of the others: they stay in their order, but for the last
    one where the map is full and the key is new. -/
theorem erase_insert (m : RecencyMap κ β) (now : Nat) (key : κ) (value : β) :
    erase key (m.insert now key value).slots = erase key m.slots ∨
      m.slot? key = none ∧ m.size = m.capacity ∧
        erase key (m.insert now key value).slots = m.slots.dropLast := by
  -- behind the new slot come those of the others, as many as fit
  have hkept : erase key (m.insert now key value).slots =
      (erase key m.slots).take (m.capacity - 1) := by
    rw [slots_insert, erase, List.filter_cons_of_neg (by simp)]
    refine List.filter_eq_self.mpr fun p hp => ?_
    exact (List.mem_filter.mp (List.mem_of_mem_take hp)).2
  rw [hkept]
  have hbounded := m.bounded
  have hshorter : (erase key m.slots).length ≤ m.slots.length := List.length_filter_le _ _
  by_cases hroom : (erase key m.slots).length ≤ m.capacity - 1
  · exact Or.inl (List.take_of_length_le hroom)
  · -- more slots of others than fit beside the key: the map is full of them
    have hnone : m.slot? key = none := by
      cases hslot : m.slot? key with
      | none => rfl
      | some slot =>
        have hless := length_erase_lt hslot
        omega
    have hfull : m.slots.length = m.capacity := by omega
    refine Or.inr ⟨hnone, hfull, ?_⟩
    rw [erase_of_slot?_eq_none hnone, List.dropLast_eq_take, hfull]

/-- Storing brings no new slot but its own. -/
theorem mem_slots_insert {m : RecencyMap κ β} {now : Nat} {key : κ} {value : β}
    {p : κ × Slot β} (h : p ∈ (m.insert now key value).slots) :
    p = (key, ⟨value, now⟩) ∨ p ∈ m.slots := by
  rw [slots_insert] at h
  rcases List.mem_cons.mp h with rfl | hrest
  · exact Or.inl rfl
  · exact Or.inr (List.mem_of_mem_filter (List.mem_of_mem_take hrest))

/-! ## How long a slot stays -/

/-- A key has a slot, and only keys of the given set have been used since it was. -/
def Within (m : RecencyMap κ β) (key : κ) (slot : Slot β) (recent : Finset κ) : Prop :=
  ∃ before after, m.slots = before ++ (key, slot) :: after ∧ ∀ k ∈ keysOf before, k ∈ recent

omit [DecidableEq κ] in
/-- The keys of two lists of slots are the keys of both. -/
theorem keysOf_append (slots slots' : List (κ × Slot β)) :
    keysOf (slots ++ slots') = keysOf slots ++ keysOf slots' := List.map_append

/-- The slot found for a key, when its place is known. -/
theorem slot?_of_within {m : RecencyMap κ β} {key : κ} {slot : Slot β} {recent : Finset κ}
    (h : m.Within key slot recent) : m.slot? key = some slot := by
  obtain ⟨before, after, hslots, -⟩ := h
  refine List.lookup_eq_some_iff.mpr ⟨before, after, hslots, fun p hp => ?_⟩
  -- keys are distinct, so the key is not among those before its slot
  have hnodup := m.distinct
  rw [hslots, keysOf_append, keysOf_cons, List.nodup_append] at hnodup
  have hne := hnodup.2.2 p.1 (List.mem_map_of_mem hp) key List.mem_cons_self
  exact bne_iff_ne.mpr (Ne.symm hne)

omit [DecidableEq κ] in
/-- More keys may have been used. -/
theorem within_mono {m : RecencyMap κ β} {key : κ} {slot : Slot β} {recent recent' : Finset κ}
    (hsub : recent ⊆ recent') (h : m.Within key slot recent) : m.Within key slot recent' := by
  obtain ⟨before, after, hslots, hrecent⟩ := h
  exact ⟨before, after, hslots, fun k hk => hsub (hrecent k hk)⟩

omit [DecidableEq κ] in
/-- Dropping other slots leaves a slot in its place. -/
theorem within_of_filter {m m' : RecencyMap κ β} {kept : κ × Slot β → Bool}
    (hslots : m'.slots = m.slots.filter kept) {key : κ} {slot : Slot β} {recent : Finset κ}
    (hkept : kept (key, slot) = true) (h : m.Within key slot recent) :
    m'.Within key slot recent := by
  obtain ⟨before, after, hsplit, hrecent⟩ := h
  refine ⟨before.filter kept, after.filter kept, ?_, fun k hk => ?_⟩
  · rw [hslots, hsplit, List.filter_append, List.filter_cons_of_pos hkept]
  · exact hrecent k ((List.filter_sublist.map _).subset hk)

/-- A key that is read comes to the front. -/
theorem within_touch_self {m : RecencyMap κ β} {now : Nat} {key : κ} {slot : Slot β}
    (hslot : m.slot? key = some slot) (hlive : m.isExpired now slot = false) :
    (m.touch now key).Within key slot ∅ := by
  refine ⟨[], erase key m.slots, ?_, by simp [keysOf]⟩
  simp [touchSlots, hslot, hlive]

/-- A key that is stored comes to the front. -/
theorem within_insert_self (m : RecencyMap κ β) (now : Nat) (key : κ) (value : β) :
    (m.insert now key value).Within key ⟨value, now⟩ ∅ :=
  ⟨[], (erase key m.slots).take (m.capacity - 1), by simp, by simp [keysOf]⟩

/-- Erasing a key from two lists erases it from both. -/
theorem erase_append (key : κ) (slots slots' : List (κ × Slot β)) :
    erase key (slots ++ slots') = erase key slots ++ erase key slots' := List.filter_append ..

/-- Erasing another key leaves a slot in its place. -/
theorem erase_split {key other : κ} (h : key ≠ other) (before after : List (κ × Slot β))
    (slot : Slot β) : erase other (before ++ (key, slot) :: after) =
      erase other before ++ (key, slot) :: erase other after := by
  rw [erase_append]
  simp [erase, h]

/-- The keys that are left are others, and were there before. -/
theorem mem_keysOf_erase {key other : κ} {slots : List (κ × Slot β)}
    (h : other ∈ keysOf (erase key slots)) : other ∈ keysOf slots ∧ other ≠ key := by
  obtain ⟨p, hp, rfl⟩ := List.mem_map.mp h
  have hfilter := List.mem_filter.mp hp
  exact ⟨List.mem_map_of_mem hfilter.1, by simpa using hfilter.2⟩

/-- Reading another key lets at most that key pass. -/
theorem within_touch_of_ne {m : RecencyMap κ β} {key other : κ} (hne : key ≠ other) (now : Nat)
    {slot : Slot β} {recent : Finset κ} (h : m.Within key slot recent) :
    (m.touch now other).Within key slot (recent ∪ {other}) := by
  obtain ⟨before, after, hslots, hrecent⟩ := h
  -- the keys before the slot stay, and the other key may join them
  have herased : ∀ k ∈ keysOf (erase other before), k ∈ recent ∪ {other} := fun k hk =>
    Finset.mem_union_left _ (hrecent k (mem_keysOf_erase hk).1)
  -- the other key has no slot, or its slot goes or moves to the front
  rw [Within, slots_touch, touchSlots]
  split
  next => exact ⟨before, after, hslots, fun k hk => Finset.mem_union_left _ (hrecent k hk)⟩
  next slot' _ =>
    rw [hslots, erase_split hne]
    split
    · exact ⟨erase other before, erase other after, rfl, herased⟩
    · refine ⟨(other, slot') :: erase other before, erase other after, rfl, fun k hk => ?_⟩
      rw [keysOf_cons] at hk
      rcases List.mem_cons.mp hk with rfl | hk
      · exact Finset.mem_union_right _ (Finset.mem_singleton_self _)
      · exact herased k hk

/-- Storing another key lets at most that key pass, and does not drop the slot while the keys
    that have passed it do not fill the map. -/
theorem within_insert_of_ne {m : RecencyMap κ β} {key other : κ} (hne : key ≠ other) (now : Nat)
    (value : β) {slot : Slot β} {recent : Finset κ} (h : m.Within key slot recent)
    (hroom : (recent ∪ {other}).card < m.capacity) :
    (m.insert now other value).Within key slot (recent ∪ {other}) := by
  obtain ⟨before, after, hslots, hrecent⟩ := h
  -- the distinct keys before the slot are among the recent ones, so they fit before it
  have hnodup : (keysOf (erase other before)).Nodup := by
    have hall := m.distinct
    rw [hslots, keysOf_append] at hall
    exact nodup_of_sublist List.filter_sublist hall.of_append_left
  -- the other key is one of the recent ones, and does not count among those before the slot
  have hsub : (keysOf (erase other before)).toFinset ⊆ (recent ∪ {other}).erase other :=
    fun k hk => by
      have hmem := mem_keysOf_erase (List.mem_toFinset.mp hk)
      exact Finset.mem_erase.mpr ⟨hmem.2, Finset.mem_union_left _ (hrecent k hmem.1)⟩
  have hother : other ∈ recent ∪ {other} :=
    Finset.mem_union_right _ (Finset.mem_singleton_self _)
  have hlength : (erase other before).length < m.capacity - 1 := by
    have hle := Finset.card_le_card hsub
    rw [List.toFinset_card_of_nodup hnodup, keysOf, List.length_map,
      Finset.card_erase_of_mem hother] at hle
    have hpos := Finset.card_pos.mpr ⟨other, hother⟩
    omega
  -- some of the slots that are kept come after the slot
  obtain ⟨spare, hspare⟩ := Nat.exists_eq_add_of_lt hlength
  refine ⟨(other, ⟨value, now⟩) :: erase other before, (erase other after).take spare, ?_, ?_⟩
  · rw [slots_insert, hslots, erase_split hne, hspare, Nat.add_assoc, List.take_length_add_append,
      List.take_succ_cons, List.cons_append]
  · intro k hk
    rw [keysOf_cons] at hk
    rcases List.mem_cons.mp hk with rfl | hk
    · exact Finset.mem_union_right _ (Finset.mem_singleton_self _)
    · exact Finset.mem_union_left _ (hrecent k (mem_keysOf_erase hk).1)

end TieredQuery.RecencyMap
