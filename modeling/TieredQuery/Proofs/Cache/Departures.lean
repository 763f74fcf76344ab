import TieredQuery.Proofs.Cache.RecencyOrder

/-!
# No slot leaves a cache silently

A slot comes into a cache when an entry is stored for a key that has none. It leaves when it is
found to have expired, when it is the least recently used one and room is needed, or when slots are
removed on request. The first two are departures, of which notice is given. A balance is therefore
kept by everything that happens to a cache (`balance_after`): what has come in is still there, or
has departed, or was removed on request.

A store is judged at its own moment (`World.storing?`), which for an update is after its text was
read. Overwriting a slot is not a departure, though the slot of the key is another one then. Which
key was used longest ago is told by the history of the run, not only by the order of the slots: the
two agree, whatever has expired or was cleared meanwhile (`keysOf_sublist_recency`).

## Key results

- `size_touch`, `size_insert`: the balance of reading and of storing
- `eviction?_of_present`, `eviction?_of_absent`: which slot is evicted, and when
- `keysOf_sublist_recency`: the slots are in the order of the latest promotions of their keys
- `balance_after`, `balance_run`: the balance of a use, and of a run
- `causes_of_mem_departures`, `departed_of_lost`: each departure has its cause, and each loss is
  told
- `no_slot_leaves_silently`
-/

namespace TieredQuery

variable {L : Language} {σ α κ β : Type}

/-! ## Counting -/

/-- The elements that are left and those that are not make up all. -/
theorem countP_not_mem_add_length [DecidableEq α] {part whole : List α} (h : part.Sublist whole)
    (hnodup : whole.Nodup) : whole.countP (· ∉ part) + part.length = whole.length := by
  have hkept : (whole.filter (· ∈ part)).Perm part := by
    rw [List.perm_ext_iff_of_nodup (hnodup.filter _) (h.nodup hnodup)]
    intro a
    simp only [List.mem_filter, decide_eq_true_eq, and_iff_right_iff_imp]
    exact fun ha => h.subset ha
  have hsplit : whole.length = whole.countP (· ∈ part) + whole.countP (· ∉ part) := by
    simpa using List.length_eq_countP_add_countP (fun a => decide (a ∈ part)) (l := whole)
  have hlength := hkept.length_eq
  rw [← List.countP_eq_length_filter] at hlength
  omega

/-! ## Departures from a map -/

namespace Departure

/-- Whether a slot was evicted. -/
def isEviction : Departure κ → Bool
  | evicted _ => true
  | expired _ => false

/-- Whether a slot had expired. -/
def isExpiry : Departure κ → Bool
  | evicted _ => false
  | expired _ => true

/-- Every departure is of one of the two kinds. -/
theorem length_eq_countP_add_countP (events : List (Departure κ)) :
    events.length = events.countP isEviction + events.countP isExpiry := by
  induction events with
  | nil => rfl
  | cons event events ih =>
    simp only [List.length_cons, List.countP_cons]
    cases event <;> simp [isEviction, isExpiry] <;> omega

end Departure

namespace RecencyMap

/-- The key that was used longest ago. -/
def oldest? (m : RecencyMap κ β) : Option κ := (keysOf m.slots).getLast?

variable [DecidableEq κ] {m : RecencyMap κ β} {now : Nat} {key other : κ} {slot : Slot β}

/-- The keys of a map are those that have a slot. -/
theorem mem_keysOf_iff : key ∈ keysOf m.slots ↔ ∃ slot, m.slot? key = some slot := by
  constructor
  · intro hkey
    obtain ⟨⟨_, slot⟩, hmem, rfl⟩ := List.mem_map.mp hkey
    exact ⟨slot, slot?_of_mem hmem⟩
  · rintro ⟨slot, hslot⟩
    exact List.mem_map.mpr ⟨(key, slot), mem_of_lookup hslot, rfl⟩

/-- A key has one slot, so erasing it leaves one slot less. -/
theorem length_erase_of_slot? (h : m.slot? key = some slot) :
    (erase key m.slots).length + 1 = m.size := by
  have hone : (m.slots.countP fun p => decide (p.1 = key)) = 1 := by
    have hcount : (keysOf m.slots).count key = 1 :=
      List.count_eq_one_of_mem m.distinct (mem_keysOf_iff.mpr ⟨slot, h⟩)
    rw [List.count, keysOf, List.countP_map] at hcount
    exact hcount
  -- every slot is that of the key or of another one
  have hsplit : m.slots.length =
      m.slots.countP (fun p => decide (p.1 = key)) + m.slots.countP (fun p => p.1 ≠ key) := by
    simpa using List.length_eq_countP_add_countP (fun p => decide (p.1 = key)) (l := m.slots)
  have herase : (erase key m.slots).length = m.slots.countP (fun p => p.1 ≠ key) :=
    List.countP_eq_length_filter.symm
  rw [size]
  omega

/-! ### Reading -/

/-- Reading a key loses a slot if it gives notice of one. -/
theorem size_touch (m : RecencyMap κ β) (now : Nat) (key : κ) :
    (m.touch now key).size + (m.lapse? now key).toList.length = m.size := by
  rw [size, slots_touch, touchSlots, lapse?]
  -- a slot that is found goes or comes to the front; either way it is taken out once
  cases hslot : m.slot? key with
  | none => rfl
  | some slot =>
    have hone := length_erase_of_slot? hslot
    by_cases hexpired : m.isExpired now slot = true
    · simp only [Option.any_some, if_pos hexpired]
      simpa using hone
    · simp only [Option.any_some, if_neg hexpired]
      simpa using hone

/-- Only an expired slot lapses, and it is that of the key that is read. -/
theorem lapse?_eq_some_iff {event : Departure κ} : m.lapse? now key = some event ↔
    event = .expired key ∧ ∃ slot, m.slot? key = some slot ∧ m.isExpired now slot = true := by
  unfold lapse?
  -- without a slot nothing lapses, and a slot does if and only if it has expired
  cases m.slot? key with
  | none => simp
  | some slot =>
    rw [Option.any_some]
    by_cases hexpired : m.isExpired now slot = true
    · rw [if_pos hexpired]
      constructor
      · rintro ⟨⟩
        exact ⟨rfl, slot, rfl, hexpired⟩
      · rintro ⟨rfl, -⟩
        rfl
    · simp [hexpired]

/-- A slot that is there after its key was read has not lapsed. -/
theorem lapse?_of_slot?_touch (h : ((m.touch now key).slot? key).isSome) :
    m.lapse? now key = none := by
  -- the slot that is there afterwards was there before and had not expired
  rw [slot?_touch_self] at h
  unfold lapse?
  cases hslot : m.slot? key with
  | none => rfl
  | some slot =>
    rw [hslot] at h
    cases hexpired : m.isExpired now slot
    · simp [hexpired]
    · simp [Option.filter, hexpired] at h

/-- Reading a key that has no slot afterwards only drops slots. -/
theorem slots_touch_sublist (h : (m.touch now key).slot? key = none) :
    (m.touch now key).slots.Sublist m.slots := by
  rw [slots_touch, touchSlots]
  cases hslot : m.slot? key with
  | none => exact List.Sublist.refl _
  | some slot =>
    by_cases hexpired : m.isExpired now slot = true
    · simp only [if_pos hexpired]
      exact List.filter_sublist
    · -- a slot that has not expired stays
      rw [slot?_touch_self, hslot] at h
      simp [Option.filter, hexpired] at h

/-- A key that loses its slot when one is read is that one, and its slot has lapsed. -/
theorem lapse?_of_lost (hkey : key ∈ keysOf m.slots)
    (hlost : key ∉ keysOf (m.touch now other).slots) :
    m.lapse? now other = some (.expired key) := by
  obtain ⟨slot, hslot⟩ := mem_keysOf_iff.mp hkey
  by_cases hother : key = other
  · subst hother
    -- had it not expired, it would have come to the front
    refine lapse?_eq_some_iff.mpr ⟨rfl, slot, hslot, ?_⟩
    by_contra hfresh
    rw [Bool.not_eq_true] at hfresh
    have hkept : (m.touch now key).slot? key = some slot := by
      rw [slot?_touch_self, hslot]
      simp [Option.filter, hfresh]
    exact hlost (mem_keysOf_iff.mpr ⟨slot, hkept⟩)
  · have hkept := (slot?_touch_of_ne hother m now).trans hslot
    exact absurd (mem_keysOf_iff.mpr ⟨slot, hkept⟩) hlost

/-! ### Storing -/

/-- Overwriting a slot evicts none: without the slot of its own key, a map has room. -/
theorem eviction?_of_present (h : m.slot? key = some slot) : m.eviction? key = none := by
  -- taking out the slot of the key leaves fewer than the capacity
  have hone := length_erase_of_slot? h
  have hbounded : m.size ≤ m.capacity := m.bounded
  rw [eviction?, List.getElem?_eq_none (by omega), Option.map_none]

/-- Storing a new key into a full map evicts the key that was used longest ago. -/
theorem eviction?_of_absent (h : m.slot? key = none) :
    m.eviction? key = if m.size = m.capacity then m.oldest?.map .evicted else none := by
  have hbounded : m.size ≤ m.capacity := m.bounded
  have hpos := m.capacity_pos
  rw [eviction?, erase_of_slot?_eq_none h]
  split
  next hfull =>
    -- the slot behind those that fit is the last one
    have hlast : m.slots[m.capacity - 1]? = m.slots.getLast? := by
      rw [List.getLast?_eq_getElem?, ← hfull]
      rfl
    rw [hlast, oldest?, keysOf, List.getLast?_map, Option.map_map]
    rfl
  next hroom =>
    -- a map with room has no slot there
    have hshort : m.slots.length ≤ m.capacity - 1 := by
      rw [size] at hbounded hroom
      omega
    rw [List.getElem?_eq_none hshort, Option.map_none]

omit [DecidableEq κ] in
/-- A map with slots has one that was used longest ago. -/
theorem exists_oldest (h : 0 < m.size) : ∃ key, m.oldest? = some key := by
  have hne : keysOf m.slots ≠ [] := by
    intro hnil
    rw [keysOf, List.map_eq_nil_iff] at hnil
    rw [size, hnil] at h
    exact Nat.lt_irrefl 0 h
  exact ⟨_, List.getLast?_eq_some_getLast hne⟩

/-- An eviction is of the key that was used longest ago, by a store of another one that finds the
    map full. -/
theorem eviction?_eq_some_iff {event : Departure κ} : m.eviction? key = some event ↔
    m.slot? key = none ∧ m.size = m.capacity ∧
      ∃ oldest, m.oldest? = some oldest ∧ event = .evicted oldest := by
  cases hslot : m.slot? key with
  | none =>
    rw [eviction?_of_absent hslot]
    by_cases hfull : m.size = m.capacity
    · simp [hfull, eq_comm]
    · simp [hfull]
  | some slot => simp [eviction?_of_present hslot]

/-- Storing a key adds a slot if it had none, and loses one if it gives notice of it. -/
theorem size_insert (m : RecencyMap κ β) (now : Nat) (key : κ) (value : β) :
    (m.insert now key value).size + (m.eviction? key).toList.length =
      m.size + if (m.slot? key).isNone then 1 else 0 := by
  have hbounded : m.size ≤ m.capacity := m.bounded
  have hpos := m.capacity_pos
  -- the new slot, and of the others as many as fit besides it
  have hsize : (m.insert now key value).size =
      min (m.capacity - 1) (erase key m.slots).length + 1 := by
    rw [size, slots_insert, List.length_cons, List.length_take]
  rw [hsize]
  cases hslot : m.slot? key with
  | none =>
    have hlength : m.slots.length = m.size := rfl
    rw [eviction?_of_absent hslot, erase_of_slot?_eq_none hslot, Option.isNone_none, if_pos rfl]
    by_cases hfull : m.size = m.capacity
    · obtain ⟨oldest, holdest⟩ := exists_oldest (m := m) (by omega)
      -- the map is full, so the last slot is lost for the new one
      rw [if_pos hfull, holdest, Option.map_some, Option.toList_some, List.length_singleton]
      omega
    · rw [if_neg hfull, Option.toList_none, List.length_nil]
      omega
  | some slot =>
    have hone := length_erase_of_slot? hslot
    rw [eviction?_of_present hslot, Option.toList_none, List.length_nil, Option.isNone_some,
      if_neg Bool.false_ne_true]
    omega

/-- A key that loses its slot when one is stored is the one used longest ago, which is evicted. -/
theorem eviction?_of_lost {value : β} (hkey : key ∈ keysOf m.slots)
    (hlost : key ∉ keysOf (m.insert now other value).slots) :
    m.eviction? other = some (.evicted key) := by
  -- the key that is stored has a slot afterwards
  have hne : key ≠ other := by
    rintro rfl
    exact hlost (mem_keysOf_iff.mpr ⟨_, slot?_insert_self m now key value⟩)
  have hgone : key ∉ keysOf (erase other (m.insert now other value).slots) := fun hmem =>
    hlost (mem_keysOf_erase hmem).1
  rcases erase_insert m now other value with hkept | ⟨habsent, hfull, hkept⟩
  · -- all other slots are kept, this one among them
    rw [hkept] at hgone
    obtain ⟨p, hp, rfl⟩ := List.mem_map.mp hkey
    exact absurd (List.mem_map.mpr ⟨p, List.mem_filter.mpr ⟨hp, by simpa using hne⟩, rfl⟩) hgone
  · -- all but the last one are kept
    rw [hkept] at hgone
    -- the slot that is not among those kept is the last one
    have hnonempty : m.slots ≠ [] := by
      rintro hnil
      rw [hnil] at hkey
      cases hkey
    have hlast : key = (m.slots.getLast hnonempty).1 := by
      rw [← List.dropLast_append_getLast hnonempty, keysOf_append] at hkey
      rcases List.mem_append.mp hkey with hbefore | hlast
      · exact absurd hbefore hgone
      · exact List.mem_singleton.mp hlast
    refine eviction?_eq_some_iff.mpr ⟨habsent, hfull, key, ?_, rfl⟩
    rw [oldest?, keysOf, List.getLast?_map, List.getLast?_eq_some_getLast hnonempty, hlast]
    rfl

end RecencyMap

/-! ## The order of use -/

open RecencyMap

/-- Of some keys, the one whose latest promotion is the earliest. The promotions are listed with the
    latest first. -/
structure IsLeastRecent [DecidableEq κ] (promotions keys : List κ) (key : κ) : Prop where
  mem : key ∈ keys
  promoted : key ∈ promotions
  oldest : ∀ other ∈ keys, other ≠ key → promotions.idxOf other < promotions.idxOf key

/-- A promotion brings its key to the front, before the others that stay. -/
theorem sublist_recency_cons [DecidableEq κ] {mark : Mark κ α} {key : κ}
    (hkey : mark.key? = some key) {marks : List (Mark κ α)} {slots : List (κ × Slot β)}
    (h : (keysOf slots).Sublist (Mark.recency marks)) (slot : Slot β) (n : Nat) :
    (keysOf ((key, slot) :: (erase key slots).take n)).Sublist (Mark.recency (mark :: marks)) := by
  have hcons : Mark.promotions (mark :: marks) = key :: Mark.promotions marks :=
    List.filterMap_cons_some hkey
  rw [keysOf_cons, keysOf_take, keysOf_erase, Mark.recency, hcons, eraseDups_cons_eq]
  exact ((List.take_sublist _ _).trans (h.filter _)).cons_cons key

/-- The slots of a cache are in the order of the latest promotions of their keys. -/
theorem keysOf_sublist_recency {w : World L σ} (hempty : w.cache.slots = [])
    (uses : List (Use L.Artifact)) :
    (keysOf (w.run uses).cache.slots).Sublist (Mark.recency (w.keyMarks uses)) := by
  refine World.run_induction
    (P := fun marks w' => (keysOf w'.cache.slots).Sublist (Mark.recency marks)) ?_ ?_ uses
  · rw [hempty]
    exact List.nil_sublist _
  · intro marks w₁ w₂ mark hordered hchange
    -- case split on what the use did to the cache
    cases hchange with
    | stored key entry hcache _ =>
      rw [hcache, slots_insert]
      exact sublist_recency_cons rfl hordered _ _
    | found key slot hlive hcache _ =>
      rw [hcache, slots_touch_of_live hlive]
      exact sublist_recency_cons rfl hordered _ _
    | cleared hcache _ =>
      rw [hcache]
      exact List.nil_sublist _
    | lapsed kept hslots _ _ _ _ =>
      rw [hslots]
      exact (List.filter_sublist.map Prod.fst).trans hordered

/-- The last slot is that of the key promoted longest ago. -/
theorem isLeastRecent_of_oldest? [DecidableEq κ] {marks : List (Mark κ α)} {m : RecencyMap κ β}
    {key : κ} (hordered : (keysOf m.slots).Sublist (Mark.recency marks))
    (h : m.oldest? = some key) :
    IsLeastRecent (Mark.promotions marks) (keysOf m.slots) key := by
  have hmem : key ∈ keysOf m.slots := List.mem_of_getLast? h
  -- keys that come earlier in the order were promoted later
  have hpairwise := (pairwise_idxOf_eraseDups (Mark.promotions marks)).sublist hordered
  refine ⟨hmem, List.mem_eraseDups.mp (hordered.subset hmem), ?_⟩
  intro other hother hne
  obtain ⟨before, hsplit⟩ := List.getLast?_eq_some_iff.mp h
  rw [hsplit] at hother hpairwise
  -- any other key stands before the last one
  have hbefore : other ∈ before := by simpa [hne] using hother
  exact (List.pairwise_append.mp hpairwise).2.2 other hbefore key List.mem_cons_self

/-! ## Departures by a use -/

/-- The text that a use reads, if any. -/
def Use.reads? {A : Type} : Use A → Option String
  | get text | update text _ => some text
  | _ => none

/-- Whether a use removes slots on request. -/
def Use.removes {A : Type} : Use A → Bool
  | clear | cleanUp => true
  | _ => false

namespace World

/-- The cache at the moment at which a use stores an entry, if it does, and the text that the entry
    is stored for. An update has read the text before. -/
def storing? (w : World L σ) : Use L.Artifact → Option (QueryCache L.Artifact × String)
  | .set text _ => some (w.cache, text)
  | .update text rule =>
    (rule (w.cache.entry w.now text)).map fun _ => (w.cache.touch w.now (.ofText text), text)
  | _ => none

/-- The number of stores by a use to keys that have no slot at that moment. -/
def fresh (w : World L σ) (use : Use L.Artifact) : Nat :=
  if (w.storing? use).any fun (cache, text) => (cache.slot? (.ofText text)).isNone then 1 else 0

/-- The number of keys that lose their slots because a use removes slots on request. -/
def removed (w : World L σ) (use : Use L.Artifact) : Nat :=
  if use.removes then (keysOf w.cache.slots).countP (· ∉ keysOf (w.after use).cache.slots) else 0

/-- The departures by a use: first of the slot that was read, then of one that made room. -/
def departures (w : World L σ) (use : Use L.Artifact) : List (Departure Fingerprint) :=
  (use.reads?.bind fun text => w.cache.lapse? w.now (.ofText text)).toList ++
    ((w.storing? use).bind fun (cache, text) => cache.eviction? (.ofText text)).toList

/-- Of every departure notice is given, and of nothing else. -/
theorem notices_after (w : World L σ) (use : Use L.Artifact) :
    (w.after use).notices = w.notices ++ (w.departures use).map .departed := by
  -- each use gives notice of what it finds expired and of what it evicts
  cases use with
  | get text =>
    show w.notices ++ (w.cache.lapse? w.now (.ofText text)).toList.map _ = _
    simp [departures, Use.reads?, storing?]
  | set text entry =>
    show w.notices ++ (w.cache.eviction? (.ofText text)).toList.map _ = _
    simp [departures, Use.reads?, storing?]
  | update text rule =>
    show w.notices ++ (w.cache.update w.now text fun entry => (rule entry, ())).2.departures.map _ =
      _
    cases hrule : rule (w.cache.entry w.now text) with
    | none => simp [QueryCache.update, QueryCache.visit, departures, Use.reads?, storing?, hrule]
    | some entry =>
      simp [QueryCache.update, QueryCache.visit, QueryCache.set, departures, Use.reads?, storing?,
        hrule]
  | contains _ | stats | clear | cleanUp | advance _ =>
    exact (List.append_nil w.notices).symm

/-- The cache after an update: what was read is stored, or only read. -/
theorem cache_after_update (w : World L σ) (text : String)
    (rule : Entry L.Artifact → Option (Entry L.Artifact)) :
    (w.after (.update text rule)).cache = (rule (w.cache.entry w.now text)).elim
      (w.cache.touch w.now (.ofText text))
      ((w.cache.touch w.now (.ofText text)).insert w.now (.ofText text)) := by
  show (w.cache.update w.now text fun entry => (rule entry, ())).2.cache = _
  cases hrule : rule (w.cache.entry w.now text) with
  | none => simp [QueryCache.update, QueryCache.visit, hrule]
  | some entry => simp [QueryCache.update, QueryCache.visit, QueryCache.set, hrule]

/-! ### The balance -/

/-- What is removed on request is what is there no longer. -/
theorem size_add_removed {w : World L σ} {use : Use L.Artifact} (hremoves : use.removes = true)
    (hslots : (w.after use).cache.slots.Sublist w.cache.slots) :
    w.cache.size = (w.after use).cache.size + w.removed use := by
  have hkeys : (keysOf w.cache.slots).countP (· ∉ keysOf (w.after use).cache.slots) +
      (keysOf (w.after use).cache.slots).length = (keysOf w.cache.slots).length :=
    countP_not_mem_add_length (hslots.map Prod.fst) w.cache.distinct
  have hbefore : (keysOf w.cache.slots).length = w.cache.size := List.length_map _
  have hafter : (keysOf (w.after use).cache.slots).length = (w.after use).cache.size :=
    List.length_map _
  rw [removed, if_pos hremoves]
  omega

/-- What was there or is stored anew is there after a use, has departed, or was removed on
    request. -/
theorem balance_after (w : World L σ) (use : Use L.Artifact) :
    w.cache.size + w.fresh use =
      (w.after use).cache.size + (w.departures use).length + w.removed use := by
  cases use with
  | get text =>
    have hread := size_touch w.cache w.now (.ofText text)
    have hdepartures : w.departures (.get text) = (w.cache.lapse? w.now (.ofText text)).toList :=
      List.append_nil _
    show w.cache.size + 0 = (w.cache.touch w.now (.ofText text)).size + _ + 0
    rw [hdepartures]
    omega
  | set text entry => exact (size_insert w.cache w.now (.ofText text) entry).symm
  | update text rule =>
    have hread := size_touch w.cache w.now (.ofText text)
    rw [cache_after_update, fresh, departures]
    -- the text is read first, which may lose its slot
    show _ = _ + 0
    cases hrule : rule (w.cache.entry w.now text) with
    | none =>
      have hstoring : w.storing? (.update text rule) = none := by rw [storing?, hrule]; rfl
      rw [hstoring, Option.elim_none, List.length_append]
      show w.cache.size + 0 = _ + (_ + 0) + 0
      exact hread.symm
    | some entry =>
      -- the text is stored into the cache in which it has been read
      have hstored := size_insert (w.cache.touch w.now (.ofText text)) w.now (.ofText text) entry
      have hstoring : w.storing? (.update text rule) =
          some (w.cache.touch w.now (.ofText text), text) := by rw [storing?, hrule]; rfl
      rw [hstoring, Option.elim_some, List.length_append]
      simp only [Option.any_some, Option.bind_some, Use.reads?]
      omega
  | clear => exact size_add_removed rfl (List.nil_sublist _)
  | cleanUp => exact size_add_removed rfl List.filter_sublist
  | contains _ | stats | advance _ => rfl

/-! ### Causes -/

/-- How a use comes to cause a departure, after the given promotions. -/
inductive Causes (promotions : List Fingerprint) (w : World L σ) (use : Use L.Artifact) :
    Departure Fingerprint → Prop where
  /-- An entry is stored for another key, which has no slot, while the cache is full. The key that
      was promoted longest ago goes. -/
  | evicted {cache : QueryCache L.Artifact} {text : String} {key : Fingerprint}
      (hstores : w.storing? use = some (cache, text)) (habsent : cache.slot? (.ofText text) = none)
      (hfull : cache.size = cache.capacity) (hother : key ≠ .ofText text)
      (holdest : IsLeastRecent promotions (keysOf cache.slots) key) :
      Causes promotions w use (.evicted key)
  /-- The text is read when its slot is older than the lifetime. -/
  | expired {text : String} {slot : Slot (Entry L.Artifact)} {lifetime : Nat}
      (hreads : use.reads? = some text) (hslot : w.cache.slot? (.ofText text) = some slot)
      (hlifetime : w.cache.lifetime = some lifetime) (hold : slot.storedAt + lifetime < w.now) :
      Causes promotions w use (.expired (.ofText text))

/-- A store to an absent key finds the slots in their order: a text that was read before it, and is
    absent still, was not promoted. -/
theorem sublist_of_storing? {w : World L σ} {use : Use L.Artifact} {cache : QueryCache L.Artifact}
    {text : String} (hstores : w.storing? use = some (cache, text))
    (habsent : cache.slot? (.ofText text) = none) : cache.slots.Sublist w.cache.slots := by
  cases use with
  | set _ _ =>
    cases hstores
    exact List.Sublist.refl _
  | update _ _ =>
    obtain ⟨entry, -, hmoment⟩ := Option.map_eq_some_iff.mp hstores
    cases hmoment
    exact slots_touch_sublist habsent
  | get _ | contains _ | stats | clear | cleanUp | advance _ => cases hstores

/-- Each departure by a use has its cause. -/
theorem causes_of_mem_departures {marks : List (Mark Fingerprint L.Artifact)} {w : World L σ}
    {use : Use L.Artifact} {event : Departure Fingerprint}
    (hordered : (keysOf w.cache.slots).Sublist (Mark.recency marks))
    (h : event ∈ w.departures use) : Causes (Mark.promotions marks) w use event := by
  -- a departure comes from the reading or from the storing of a use
  rcases List.mem_append.mp h with hread | hstore
  · obtain ⟨text, hreads, hlapse⟩ := Option.bind_eq_some_iff.mp (Option.mem_toList.mp hread)
    obtain ⟨rfl, slot, hslot, hexpired⟩ := lapse?_eq_some_iff.mp hlapse
    cases hlifetime : w.cache.lifetime with
    | none =>
      rw [isExpired, hlifetime] at hexpired
      cases hexpired
    | some lifetime =>
      rw [isExpired, hlifetime] at hexpired
      exact .expired hreads hslot hlifetime (of_decide_eq_true hexpired)
  · obtain ⟨⟨cache, text⟩, hstores, heviction⟩ :=
      Option.bind_eq_some_iff.mp (Option.mem_toList.mp hstore)
    obtain ⟨habsent, hfull, oldest, holdest, rfl⟩ := eviction?_eq_some_iff.mp heviction
    -- the order in which the store finds the slots is that of the promotions before it
    have hsublist := ((sublist_of_storing? hstores habsent).map Prod.fst).trans hordered
    have hleast := isLeastRecent_of_oldest? hsublist holdest
    refine .evicted hstores habsent hfull ?_ hleast
    -- the key that goes has a slot, and the one that comes has none
    rintro rfl
    obtain ⟨slot, hslot⟩ := mem_keysOf_iff.mp hleast.mem
    cases habsent.symm.trans hslot

/-- A key that has lost its slot by a use is told to have departed, unless slots were removed on
    request. -/
theorem departed_of_lost {w : World L σ} {use : Use L.Artifact} (hremoves : use.removes = false)
    {key : Fingerprint} (hkey : key ∈ keysOf w.cache.slots)
    (hlost : key ∉ keysOf (w.after use).cache.slots) :
    .expired key ∈ w.departures use ∨ .evicted key ∈ w.departures use := by
  -- reading loses a slot only if it has expired, storing only if it is evicted
  cases use with
  | get text =>
    have hlapse := lapse?_of_lost hkey hlost
    exact Or.inl (by simp [departures, Use.reads?, hlapse])
  | set text entry =>
    have heviction := eviction?_of_lost hkey hlost
    exact Or.inr (by simp [departures, storing?, heviction])
  | update text rule =>
    by_cases hread : key ∈ keysOf (w.cache.touch w.now (.ofText text)).slots
    · -- it was lost by the store
      rw [cache_after_update] at hlost
      cases hrule : rule (w.cache.entry w.now text) with
      | none =>
        rw [hrule] at hlost
        exact absurd hread hlost
      | some entry =>
        rw [hrule] at hlost
        have heviction := eviction?_of_lost hread hlost
        exact Or.inr (by simp [departures, storing?, hrule, heviction])
    · have hlapse := lapse?_of_lost hkey hread
      exact Or.inl (by simp [departures, Use.reads?, hlapse])
  | clear | cleanUp => cases hremoves
  | contains _ | stats | advance _ => exact absurd hkey hlost

/-- A store to a key that has a slot at that moment causes no departure, of the slot that was read
    before neither. -/
theorem departures_of_present {w : World L σ} {use : Use L.Artifact}
    {cache : QueryCache L.Artifact} {text : String} (hstores : w.storing? use = some (cache, text))
    (hpresent : (cache.slot? (.ofText text)).isSome) : w.departures use = [] := by
  obtain ⟨slot, hslot⟩ := Option.isSome_iff_exists.mp hpresent
  have heviction := eviction?_of_present hslot
  cases use with
  | set text' entry =>
    cases hstores
    simp [departures, Use.reads?, storing?, heviction]
  | update text' rule =>
    obtain ⟨entry, hrule, hmoment⟩ := Option.map_eq_some_iff.mp hstores
    cases hmoment
    have hlapse := lapse?_of_slot?_touch hpresent
    simp [departures, Use.reads?, storing?, hrule, heviction, hlapse]
  | get _ | contains _ | stats | clear | cleanUp | advance _ => cases hstores

/-- Overwriting a slot does not change how many there are. -/
theorem size_after_of_present {w : World L σ} {use : Use L.Artifact}
    {cache : QueryCache L.Artifact} {text : String} (hstores : w.storing? use = some (cache, text))
    (hpresent : (cache.slot? (.ofText text)).isSome) :
    (w.after use).cache.size = w.cache.size := by
  -- all that the balance of the use counts is zero, but for the slots before and after
  have hbalance := balance_after w use
  have hnone := departures_of_present hstores hpresent
  have hremoved : w.removed use = 0 := by
    cases use with
    | clear | cleanUp => cases hstores
    | _ => rfl
  have hfresh : w.fresh use = 0 := by
    obtain ⟨slot, hslot⟩ := Option.isSome_iff_exists.mp hpresent
    simp [fresh, hstores, hslot]
  rw [hnone, hremoved, hfresh] at hbalance
  simpa using hbalance.symm

/-! ## Runs -/

/-- The sum over a run of what is counted at each use. -/
def tally (count : World L σ → Use L.Artifact → Nat) (w : World L σ) : List (Use L.Artifact) → Nat
  | [] => 0
  | use :: uses => count w use + tally count (w.after use) uses

/-- What was there or has been stored anew is there after a run, has departed with notice, or was
    removed on request. -/
theorem balance_run (w : World L σ) (uses : List (Use L.Artifact)) :
    ∃ events : List (Departure Fingerprint),
      (w.run uses).notices = w.notices ++ events.map .departed ∧
      w.cache.size + w.tally fresh uses =
        (w.run uses).cache.size + events.length + w.tally removed uses := by
  induction uses generalizing w with
  | nil => exact ⟨[], (List.append_nil _).symm, rfl⟩
  | cons use uses ih =>
    have hbalance := balance_after w use
    obtain ⟨events, hnotices, hrest⟩ := ih (w.after use)
    refine ⟨w.departures use ++ events, ?_, ?_⟩
    · show ((w.after use).run uses).notices = _
      rw [hnotices, notices_after, List.map_append, List.append_assoc]
    · show _ + (w.fresh use + tally fresh (w.after use) uses) =
        ((w.after use).run uses).cache.size + _ + (w.removed use + tally removed (w.after use) uses)
      rw [List.length_append]
      omega

end World

/-- Of the slots that have come into an initially empty cache in a run, each is still there, or
    notice was given that it was evicted or had expired, or it was removed on request. At each use
    in the run, each notice has its cause: an evicted key is the one promoted longest ago when an
    entry is stored for another key, which is absent, while the cache is full, and an expired key is
    the one that is read, when its slot has outlived the lifetime. No key loses its slot otherwise,
    and overwriting a slot neither gives notice nor changes their number. -/
theorem no_slot_leaves_silently {w : World L σ} (hempty : w.cache.slots = [])
    (uses : List (Use L.Artifact)) :
    (∃ events : List (Departure Fingerprint),
      (w.run uses).notices = w.notices ++ events.map .departed ∧
      w.tally World.fresh uses = (w.run uses).cache.size + events.countP Departure.isEviction +
        events.countP Departure.isExpiry + w.tally World.removed uses) ∧
    ∀ earlier use later, uses = earlier ++ use :: later →
      let before := w.run earlier
      let after := before.after use
      ∃ events : List (Departure Fingerprint),
        after.notices = before.notices ++ events.map .departed ∧
        (∀ event ∈ events,
          World.Causes (Mark.promotions (w.keyMarks earlier)) before use event) ∧
        (∀ key ∈ keysOf before.cache.slots, key ∉ keysOf after.cache.slots →
          .expired key ∈ events ∨ .evicted key ∈ events ∨ use.removes = true) ∧
        ∀ cache text, before.storing? use = some (cache, text) →
          (cache.slot? (.ofText text)).isSome →
          events = [] ∧ after.cache.size = before.cache.size := by
  constructor
  · obtain ⟨events, hnotices, hbalance⟩ := w.balance_run uses
    -- nothing was there at the start
    have hzero : w.cache.size = 0 := by rw [size, hempty]; rfl
    have hkinds := Departure.length_eq_countP_add_countP events
    exact ⟨events, hnotices, by omega⟩
  · -- one use after some others: what it tells, and what leaves by it
    intro earlier use later _ before after
    refine ⟨before.departures use, before.notices_after use, ?_, ?_, ?_⟩
    · intro event hevent
      exact World.causes_of_mem_departures (keysOf_sublist_recency hempty earlier) hevent
    · intro key hkey hlost
      cases hremoves : use.removes with
      | true => exact Or.inr (Or.inr rfl)
      | false => exact (World.departed_of_lost hremoves hkey hlost).imp_right Or.inl
    · intro cache text hstores hpresent
      exact ⟨World.departures_of_present hstores hpresent,
        World.size_after_of_present hstores hpresent⟩

/-- A third text takes the room of the one that was not read again. Later the others are found to
    have expired, one when it is read and one when it is updated, and the latter is cleared away in
    the end. -/
def echoTurnover : List (Use String) :=
  [.set "a" (.seen 1), .set "b" (.seen 2), .get "a", .set "c" (.seen 3), .advance 6, .get "a",
    .update "c" fun _ => some (.seen 4), .set "c" (.seen 5), .clear]

/-- Each of the three slots that leave during the run leaves with notice of the right kind. -/
theorem no_slot_leaves_silently_echoTurnover :
    let before := briefWorld.run (echoTurnover.take 3)
    (briefWorld.run echoTurnover).notices =
      [.departed (.evicted (.ofText "b")), .departed (.expired (.ofText "a")),
        .departed (.expired (.ofText "c"))] ∧
    briefWorld.tally World.fresh echoTurnover =
      0 + 1 + 2 + briefWorld.tally World.removed echoTurnover ∧
    World.Causes (Mark.promotions (briefWorld.keyMarks (echoTurnover.take 3))) before
      (.set "c" (.seen 3)) (.evicted (.ofText "b")) := by
  intro before
  let departures : List (Departure Fingerprint) :=
    [.evicted (.ofText "b"), .expired (.ofText "a"), .expired (.ofText "c")]
  have hrun : before.notices = [] ∧
      (before.after (.set "c" (.seen 3))).notices = (departures.take 1).map .departed ∧
      (briefWorld.run echoTurnover).notices = departures.map .departed ∧
      (briefWorld.run echoTurnover).cache.size = 0 := by decide +kernel
  obtain ⟨hbefore, hafter, hnotices, hsize⟩ := hrun
  -- notices tell which departures they are of
  have hinjective : Function.Injective
      (List.map (Notice.departed : Departure Fingerprint → Notice)) :=
    List.map_injective_iff.mpr fun _ _ h => Notice.departed.inj h
  obtain ⟨⟨events, htold, hbalance⟩, hcauses⟩ :=
    no_slot_leaves_silently (w := briefWorld) rfl echoTurnover
  refine ⟨hnotices, ?_, ?_⟩
  · obtain rfl := hinjective (htold.symm.trans hnotices)
    -- one eviction and two expiries were counted
    have hevictions : departures.countP Departure.isEviction = 1 := rfl
    have hexpiries : departures.countP Departure.isExpiry = 2 := rfl
    omega
  · obtain ⟨events', htold', hevents, -⟩ :=
      hcauses (echoTurnover.take 3) (.set "c" (.seen 3)) (echoTurnover.drop 4) rfl
    have htold'' : (before.after (.set "c" (.seen 3))).notices = before.notices ++ _ := htold'
    rw [hbefore, List.nil_append] at htold''
    obtain rfl := hinjective (htold''.symm.trans hafter)
    exact hevents _ List.mem_cons_self

end TieredQuery
