import Mathlib.Data.Set.List
import TieredQuery.Proofs.Cache.ReadLaw
import TieredQuery.Proofs.Cache.Room

/-!
# What statistics count and cleaning up removes

Whether a slot has expired is judged in four places: where its key is read, where it is looked for,
where slots are counted and where expired ones are removed. The statistics of a cache count its
slots, but what they say is about reading: the valid slots are those of the keys that a cache
holds, and the compiled ones those of the keys whose entry is read with an artifact. Slots that
are removed were not read any more, so cleaning up does not show in what is read.

Every slot that a cache comes to hold is that of a text it was used with, so the keys that are
counted are keys of texts (`exists_texts_of_run`).

## Key results

- `countP_slots`: counting slots by what is found for their keys
- `slots_purge_eq_foldl_erase`: purging a map is erasing its expired keys one after another
- `liveSlot?_purge`, `purge_purge`: what purging leaves
- `statistics_agree_with_reads`
-/

namespace TieredQuery

variable {L : Language} {σ A κ β : Type}

namespace RecencyMap

variable {m : RecencyMap κ β} {now : Nat}

/-! ## Counting slots -/

/-- Slots are counted by what holds of them or by what is found for their keys. -/
theorem countP_slots [DecidableEq κ] {p : κ × Slot β → Bool} {q : κ → Bool}
    (h : ∀ key slot, m.slot? key = some slot → p (key, slot) = q key) :
    m.slots.countP p = (keysOf m.slots).countP q := by
  rw [keysOf, List.countP_map]
  refine List.countP_congr ?_
  rintro ⟨key, slot⟩ hmem
  -- the slot that is listed with a key is the one found for it
  have hslot : m.slot? key = some slot := slot?_of_mem hmem
  simp [h key slot hslot]

/-- A slot has expired or not. -/
theorem countP_fresh_add_countP_expired (m : RecencyMap κ β) (now : Nat) :
    (m.slots.countP fun p => !m.isExpired now p.2) + (m.slots.countP fun p => m.isExpired now p.2) =
      m.size := by
  have hsplit : m.slots.length = (m.slots.countP fun p => m.isExpired now p.2) +
      m.slots.countP fun p => !m.isExpired now p.2 := by
    simpa using List.length_eq_countP_add_countP (fun p => m.isExpired now p.2) (l := m.slots)
  rw [size]
  omega

/-! ## Purging -/

/-- Purging leaves the slots that have not expired. -/
theorem size_purge (m : RecencyMap κ β) (now : Nat) :
    (m.purge now).size = m.slots.countP fun p => !m.isExpired now p.2 := by
  rw [size, slots_purge, List.countP_eq_length_filter]

/-- Purging does not change the lifetime, by which slots expire. -/
theorem isExpired_purge (m : RecencyMap κ β) (now now' : Nat) (slot : Slot β) :
    (m.purge now).isExpired now' slot = m.isExpired now' slot := rfl

/-- What is left was there and has not expired. -/
theorem mem_slots_purge {p : κ × Slot β} :
    p ∈ (m.purge now).slots ↔ p ∈ m.slots ∧ m.isExpired now p.2 = false := by
  simp

/-- What is left by purging a map has not expired, so purging it again removes nothing. -/
theorem purge_purge (m : RecencyMap κ β) (now : Nat) : (m.purge now).purge now = m.purge now := by
  refine ext_slots rfl rfl ?_
  rw [slots_purge]
  refine List.filter_eq_self.mpr fun p hp => ?_
  -- what is left has not expired, so all of it passes the filter again
  show (!(m.purge now).isExpired now p.2) = true
  rw [isExpired_purge, (mem_slots_purge.mp hp).2]
  rfl

/-- Nothing that has expired is left. -/
theorem countP_expired_purge (m : RecencyMap κ β) (now : Nat) :
    ((m.purge now).slots.countP fun p => (m.purge now).isExpired now p.2) = 0 := by
  rw [List.countP_eq_zero]
  intro p hp
  rw [isExpired_purge, (mem_slots_purge.mp hp).2]
  exact Bool.false_ne_true

section Keys

variable [DecidableEq κ]

/-- Purging removes no slot that would be read. -/
theorem liveSlot?_purge (m : RecencyMap κ β) (now : Nat) (key : κ) :
    (m.purge now).liveSlot? now key = m.liveSlot? now key := by
  cases hlive : m.liveSlot? now key with
  | none => rw [liveSlot?, slot?_purge, hlive, Option.filter_none]
  | some slot =>
    have hfresh := (liveSlot?_eq_some_iff.mp hlive).2
    exact liveSlot?_eq_some_iff.mpr ⟨(slot?_purge m now key).trans hlive, hfresh⟩

/-- The keys whose slots have expired, in their order of use. -/
def expiredKeys (m : RecencyMap κ β) (now : Nat) : List κ :=
  keysOf (m.slots.filter fun p => m.isExpired now p.2)

/-- Erasing keys one after another leaves the slots of all others. -/
theorem foldl_erase (keys : List κ) (slots : List (κ × Slot β)) :
    keys.foldl (fun slots key => erase key slots) slots = slots.filter (·.1 ∉ keys) := by
  induction keys generalizing slots with
  | nil => simp
  | cons key keys ih =>
    rw [List.foldl_cons, ih, erase, List.filter_filter]
    refine List.filter_congr fun p _ => ?_
    simp [Bool.and_comm]

/-- Purging a map is the same as finding the keys that have expired and erasing one after another:
    keys are distinct, so no slot goes with that of another key. -/
theorem slots_purge_eq_foldl_erase (m : RecencyMap κ β) (now : Nat) :
    (m.purge now).slots =
      (m.expiredKeys now).foldl (fun slots key => erase key slots) m.slots := by
  rw [foldl_erase, slots_purge]
  refine List.filter_congr ?_
  rintro ⟨key, slot⟩ hmem
  have hlisted : key ∈ m.expiredKeys now ↔ m.isExpired now slot = true := by
    constructor
    · intro hkey
      obtain ⟨⟨_, other⟩, hother, rfl⟩ := List.mem_map.mp hkey
      obtain ⟨hslots, hexpired⟩ := List.mem_filter.mp hother
      -- both are the one slot of the key
      have hsame := (slot?_of_mem hslots).symm.trans (slot?_of_mem hmem)
      cases hsame
      exact hexpired
    · intro hexpired
      exact List.mem_map.mpr ⟨(key, slot), List.mem_filter.mpr ⟨hmem, hexpired⟩, rfl⟩
  simp only [hlisted]
  cases m.isExpired now slot <;> rfl

end Keys

end RecencyMap

/-! ## Statistics -/

open RecencyMap

namespace QueryCache

variable {cache : QueryCache A}

/-- The valid slots are those that have not expired. -/
theorem valid_stats (cache : QueryCache A) (now : Nat) :
    (stats cache now).valid = cache.slots.countP fun p => !cache.isExpired now p.2 := by
  -- they are counted as the rest of all slots
  have hsplit := countP_fresh_add_countP_expired cache now
  show cache.size - (cache.slots.countP fun p => cache.isExpired now p.2) = _
  omega

/-- No slot is counted twice, so the difference that gives the valid ones is never cut off. -/
theorem total_stats (cache : QueryCache A) (now : Nat) :
    (stats cache now).expired ≤ (stats cache now).total ∧
      (stats cache now).total = (stats cache now).valid + (stats cache now).expired := by
  have hsplit := countP_fresh_add_countP_expired cache now
  have hvalid := valid_stats cache now
  have htotal : (stats cache now).total = cache.size := rfl
  have hexpired : (stats cache now).expired =
      cache.slots.countP fun p => cache.isExpired now p.2 := rfl
  omega

/-- Compiled slots are counted among the valid ones. -/
theorem compiled_le_valid_stats (cache : QueryCache A) (now : Nat) :
    (stats cache now).compiled ≤ (stats cache now).valid := by
  rw [valid_stats]
  refine List.countP_mono_left fun p _ hcompiled => ?_
  exact (Bool.and_eq_true_iff.mp hcompiled).1

/-- The valid slots are those of the keys that are found. -/
theorem valid_stats_eq_countP_keys (cache : QueryCache A) (now : Nat) :
    (stats cache now).valid = (keysOf cache.slots).countP (cache.contains now) := by
  rw [valid_stats]
  refine countP_slots fun key slot hslot => ?_
  rw [contains, hslot, Option.any_some]

/-- The compiled slots are those of the keys whose entries are read with an artifact. -/
theorem compiled_stats_eq_countP_keys (cache : QueryCache A) (now : Nat) :
    (stats cache now).compiled =
      (keysOf cache.slots).countP fun key => ((cache.live? now key).getD .unseen).isCompiled := by
  refine countP_slots fun key slot hslot => ?_
  rw [live?, hslot]
  show (!cache.isExpired now slot && slot.value.isCompiled) =
    ((if cache.isExpired now slot then none else some slot.value).getD .unseen).isCompiled
  -- nothing is known of a query whose slot has expired, and so no artifact
  cases cache.isExpired now slot <;> rfl

/-- Cleaning up does not change the entry that is read. -/
theorem entry_purge (cache : QueryCache A) (now : Nat) (text : String) :
    entry (cache.purge now) now text = entry cache now text := by
  rw [entry_eq_of_liveSlot?, entry_eq_of_liveSlot?, liveSlot?_purge]

/-- Cleaning up does not change which texts the cache holds. -/
theorem holds_purge (cache : QueryCache A) (now : Nat) (text : String) :
    holds (cache.purge now) now text = holds cache now text := by
  rw [holds, holds, contains_eq_isSome_liveSlot?, contains_eq_isSome_liveSlot?, liveSlot?_purge]

end QueryCache

/-! ## Runs -/

/-- A slot that was stored last for a key is told by a mark of a text with that key. -/
theorem exists_text_of_lastStored? {marks : List (Mark String A)} {key : Fingerprint}
    {slot : Slot (Entry A)}
    (h : Mark.lastStored? key (marks.map (Mark.map .ofText)) = some slot) :
    ∃ text, Fingerprint.ofText text = key := by
  -- the store is told by a mark of a text, whose key is the one in question
  obtain ⟨mark, hmark, hslot⟩ := List.exists_of_findSome?_eq_some h
  obtain ⟨told, -, rfl⟩ := List.mem_map.mp hmark
  cases told with
  | stored text stored =>
    by_cases hkey : Fingerprint.ofText text = key
    · exact ⟨text, hkey⟩
    · cases (Mark.slot?_stored_of_ne hkey stored).symm.trans hslot
  | found text => cases hslot
  | cleared => cases hslot

/-- The keys with slots, in their order of use, are those of texts. -/
theorem exists_texts_of_run {w : World L σ} (hempty : w.cache.slots = [])
    (uses : List (Use L.Artifact)) :
    ∃ texts : List String, texts.map .ofText = keysOf (w.run uses).cache.slots := by
  -- each key has a slot, which was stored for it last
  have hrange : keysOf (w.run uses).cache.slots ∈ Set.range (List.map Fingerprint.ofText) := by
    rw [Set.range_list_map]
    intro key hkey
    obtain ⟨⟨_, slot⟩, hmem, rfl⟩ := List.mem_map.mp hkey
    have hlast := ((tracks_run hempty _ uses).sound slot (slot?_of_mem hmem)).1
    exact exists_text_of_lastStored? hlast
  exact hrange

/-- What the statistics of a cache say after any run, and what cleaning up does to it then. The
    slots are counted by texts: as valid those of the texts that the cache holds, as compiled those
    of the texts that are read with an artifact. Cleaning up removes the slots that have expired and
    no others, and leaves these as they are and in their order; whatever is read, it does not
    show. -/
theorem statistics_agree_with_reads {w : World L σ} (hempty : w.cache.slots = [])
    (uses : List (Use L.Artifact)) :
    let served := w.run uses
    let cleaned := served.after .cleanUp
    let stats := QueryCache.stats served.cache served.now
    -- what is counted
    (∃ texts : List String, texts.map .ofText = keysOf served.cache.slots ∧
      stats.valid = texts.countP (fun text => (World.holds text served).1) ∧
      stats.compiled = texts.countP fun text => (World.lookUp text served).1.isCompiled) ∧
    stats.total = served.cache.size ∧ stats.total ≤ w.cache.capacity ∧
    stats.expired ≤ stats.total ∧ stats.total = stats.valid + stats.expired ∧
    stats.compiled ≤ stats.valid ∧
    -- what is read after cleaning up
    (∀ text, (World.lookUp text cleaned).1 = (World.lookUp text served).1 ∧
      (World.holds text cleaned).1 = (World.holds text served).1) ∧
    -- what is left by it
    cleaned.cache.slots.Sublist served.cache.slots ∧
    (∀ p ∈ served.cache.slots, p ∈ cleaned.cache.slots ↔
      ∀ lifetime, w.cache.lifetime = some lifetime → served.now ≤ p.2.storedAt + lifetime) ∧
    cleaned.cache.size = stats.valid ∧
    (QueryCache.stats cleaned.cache cleaned.now).expired = 0 ∧
    cleaned.after .cleanUp = cleaned := by
  intro served cleaned stats
  have hcleaned : cleaned.cache = served.cache.purge served.now := rfl
  obtain ⟨hexpired, htotal⟩ := QueryCache.total_stats served.cache served.now
  have hcapacity : served.cache.capacity = w.cache.capacity := w.capacity_run uses
  have hbounded : stats.total ≤ w.cache.capacity := hcapacity ▸ served.cache.bounded
  refine ⟨?_, rfl, hbounded, hexpired, htotal, QueryCache.compiled_le_valid_stats _ _, ?_, ?_, ?_,
    ?_, ?_, ?_⟩
  · -- the keys that are counted are those of texts
    obtain ⟨texts, htexts⟩ := exists_texts_of_run hempty uses
    refine ⟨texts, htexts, ?_, ?_⟩
    · have hvalid := QueryCache.valid_stats_eq_countP_keys served.cache served.now
      rw [← htexts, List.countP_map] at hvalid
      exact hvalid
    · have hcompiled := QueryCache.compiled_stats_eq_countP_keys served.cache served.now
      rw [← htexts, List.countP_map] at hcompiled
      exact hcompiled
  · intro text
    exact ⟨QueryCache.entry_purge served.cache served.now text,
      QueryCache.holds_purge served.cache served.now text⟩
  · rw [hcleaned, slots_purge]
    exact List.filter_sublist
  · intro p hp
    rw [← w.lifetime_run uses, ← isExpired_eq_false_iff, hcleaned, mem_slots_purge]
    exact and_iff_right hp
  · rw [hcleaned, size_purge]
    exact (QueryCache.valid_stats served.cache served.now).symm
  · exact countP_expired_purge served.cache served.now
  · -- cleaning up once more finds nothing to remove
    show { cleaned with cache := cleaned.cache.purge cleaned.now } = cleaned
    have htwice : cleaned.cache.purge cleaned.now = cleaned.cache :=
      purge_purge served.cache served.now
    rw [htwice]

/-- One of two compiled entries has outlived its time when the other has not. -/
def echoAges : List (Use String) :=
  [.set "a" (.compiled 1 "a"), .advance 3, .set "b" (.compiled 2 "b"), .advance 3]

/-- The entry that has outlived its time is counted as expired, and goes when it is cleaned up. -/
theorem statistics_agree_with_reads_echoAges :
    let served := briefWorld.run echoAges
    let stats := QueryCache.stats served.cache served.now
    stats = ⟨2, 1, 1, 1⟩ ∧
    (∃ texts : List String, texts.map .ofText = keysOf served.cache.slots ∧
      stats.valid = texts.countP fun text => (World.holds text served).1) ∧
    (World.holds "b" (served.after .cleanUp)).1 = (World.holds "b" served).1 ∧
    (served.after .cleanUp).cache.size = 1 := by
  intro served stats
  have hstats : stats = ⟨2, 1, 1, 1⟩ := by decide +kernel
  obtain ⟨⟨texts, htexts, hvalid, -⟩, -, -, -, -, -, hreads, -, -, hsize, -⟩ :=
    statistics_agree_with_reads (w := briefWorld) rfl echoAges
  -- what cleaning up leaves is what the statistics count as valid
  refine ⟨hstats, ⟨texts, htexts, hvalid⟩, (hreads "b").2, ?_⟩
  rw [hsize]
  exact congrArg CacheStats.valid hstats

end TieredQuery
