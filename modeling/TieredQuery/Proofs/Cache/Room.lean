import TieredQuery.Proofs.Cache.Revision

/-!
# Caches with room for everything

As long as no more keys are used than the capacity, nothing is ever evicted: `Fits` says that the
keys with slots are among some that fit. Expired slots take up room as others do, but they are of
such keys too. So whatever is done about one key leaves the slots of the others as they are.

## Key results

- `slot?_insert_of_fits`, `slot?_revise_of_fits`: the slots of other keys stay
- `fits_revise`, `fits_of_sublist`: what keeps room
-/

namespace TieredQuery

namespace RecencyMap

variable {κ β : Type} [DecidableEq κ] {m m' : RecencyMap κ β} {keys : Finset κ} {key other : κ}

/-- The slots of a map are of keys that fit into it. -/
structure Fits (keys : Finset κ) (m : RecencyMap κ β) : Prop where
  used : ∀ k ∈ keysOf m.slots, k ∈ keys
  room : keys.card ≤ m.capacity

omit [DecidableEq κ] in
/-- Dropping slots leaves room. -/
theorem fits_of_sublist (hslots : m'.slots.Sublist m.slots) (hcapacity : m'.capacity = m.capacity)
    (h : m.Fits keys) : m'.Fits keys :=
  ⟨fun k hk => h.used k ((hslots.map _).subset hk), hcapacity ▸ h.room⟩

/-- Reading a key leaves room. -/
theorem fits_touch (h : m.Fits keys) (now : Nat) (key : κ) : (m.touch now key).Fits keys := by
  refine ⟨fun k hk => ?_, h.room⟩
  obtain ⟨p, hp, rfl⟩ := List.mem_map.mp hk
  exact h.used p.1 (List.mem_map_of_mem (mem_slots_touch hp))

/-- Storing one of the keys leaves room. -/
theorem fits_insert (h : m.Fits keys) (now : Nat) (hkey : key ∈ keys) (value : β) :
    (m.insert now key value).Fits keys := by
  refine ⟨fun k hk => ?_, h.room⟩
  obtain ⟨p, hp, rfl⟩ := List.mem_map.mp hk
  rcases mem_slots_insert hp with rfl | hp
  · exact hkey
  · exact h.used p.1 (List.mem_map_of_mem hp)

/-- Without one of the keys there is room for it. -/
theorem length_erase_le_of_fits (h : m.Fits keys) (hkey : key ∈ keys) :
    (erase key m.slots).length ≤ m.capacity - 1 := by
  -- the other keys with slots are distinct and among those that fit, so there is one less of them
  have hnodup : (keysOf (erase key m.slots)).Nodup :=
    nodup_of_sublist List.filter_sublist m.distinct
  have hsub : (keysOf (erase key m.slots)).toFinset ⊆ keys.erase key := fun k hk => by
    have hmem := mem_keysOf_erase (List.mem_toFinset.mp hk)
    exact Finset.mem_erase.mpr ⟨hmem.2, h.used k hmem.1⟩
  calc (erase key m.slots).length
      = (keysOf (erase key m.slots)).toFinset.card := by
        rw [List.toFinset_card_of_nodup hnodup, keysOf, List.length_map]
    _ ≤ (keys.erase key).card := Finset.card_le_card hsub
    _ = keys.card - 1 := Finset.card_erase_of_mem hkey
    _ ≤ m.capacity - 1 := Nat.sub_le_sub_right h.room 1

/-- Storing a value evicts nothing. -/
theorem slot?_insert_of_fits (h : m.Fits keys) (hkey : key ∈ keys) (hne : other ≠ key) (now : Nat)
    (value : β) : (m.insert now key value).slot? other = m.slot? other := by
  rw [slot?, slots_insert, List.take_of_length_le (length_erase_le_of_fits h hkey),
    List.lookup_cons, beq_eq_false_iff_ne.mpr hne]
  exact lookup_erase_of_ne hne m.slots

/-- Purging leaves the slots that have not expired. -/
theorem slot?_purge (m : RecencyMap κ β) (now : Nat) (key : κ) :
    (m.purge now).slot? key = m.liveSlot? now key := by
  -- the slots that are left are those that have not expired
  have hmem : ∀ slot, (key, slot) ∈ (m.purge now).slots ↔
      (key, slot) ∈ m.slots ∧ m.isExpired now slot = false := by simp
  cases hlive : m.liveSlot? now key with
  | some slot =>
    obtain ⟨hslot, hexpired⟩ := liveSlot?_eq_some_iff.mp hlive
    exact slot?_of_mem ((hmem slot).mpr ⟨mem_of_lookup hslot, hexpired⟩)
  | none =>
    by_contra hsome
    obtain ⟨slot, hslot⟩ := Option.ne_none_iff_exists'.mp hsome
    obtain ⟨hkept, hexpired⟩ := (hmem slot).mp (mem_of_lookup hslot)
    rw [liveSlot?_eq_some_iff.mpr ⟨slot?_of_mem hkept, hexpired⟩] at hlive
    cases hlive

end RecencyMap

namespace QueryCache

variable {A : Type} {cache : QueryCache A} {keys : Finset Fingerprint} {text : String}

/-- Revising one of the queries leaves room. -/
theorem fits_revise (h : cache.Fits keys) (htext : .ofText text ∈ keys) (now : Nat)
    (rule : Entry A → Option (Entry A)) : (revise cache now text rule).Fits keys := by
  cases hrule : rule (entry cache now text) with
  | none => exact revise_of_none hrule ▸ RecencyMap.fits_touch h now _
  | some replacement => exact revise_of_some hrule ▸ RecencyMap.fits_insert h now htext replacement

/-- Revising a query leaves the slots of all others. -/
theorem slot?_revise_of_fits (h : cache.Fits keys) (htext : .ofText text ∈ keys)
    {key : Fingerprint} (hne : key ≠ .ofText text) (now : Nat)
    (rule : Entry A → Option (Entry A)) :
    (revise cache now text rule).slot? key = cache.slot? key := by
  cases hrule : rule (entry cache now text) with
  | none => rw [revise_of_none hrule, RecencyMap.slot?_touch_of_ne hne]
  | some replacement =>
    rw [revise_of_some hrule, RecencyMap.slot?_insert_of_fits h htext hne]

end QueryCache
end TieredQuery
