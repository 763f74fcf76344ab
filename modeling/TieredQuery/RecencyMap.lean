/-!
# Bounded maps in order of use

A map that holds at most `capacity` keys. Its slots are listed from the most to the least recently
used key, and each knows when its value was stored. Reading and storing move a key to the front;
storing a new key into a full map drops the last one. With a lifetime, a slot that has been stored
longer ago than that counts as absent, and goes when it is next read.

The view is `slots`: `slots_touch`, `slots_insert`, `slots_clear` and `slots_purge` say what each
operation does to the list. That keys are distinct and fit the capacity is part of the type.
-/

namespace TieredQuery

/-- A stored value and the time at which it was stored, in nanoseconds. -/
structure Slot (β : Type) where
  value : β
  storedAt : Nat
deriving DecidableEq

namespace RecencyMap

variable {κ β : Type}

/-- The keys of a list of slots. -/
def keysOf (slots : List (κ × Slot β)) : List κ := slots.map (·.1)

end RecencyMap

/-- A bounded map in order of use. -/
structure RecencyMap (κ β : Type) where
  capacity : Nat
  /-- How long a value lives, in nanoseconds; without it values do not expire. -/
  lifetime : Option Nat
  /-- The keys and their slots, the most recently used first. -/
  slots : List (κ × Slot β)
  capacity_pos : 0 < capacity
  distinct : (RecencyMap.keysOf slots).Nodup
  bounded : slots.length ≤ capacity

/-- A slot that leaves a map other than by being removed on request. -/
inductive Departure (κ : Type) where
  /-- The slot had expired when it was read. -/
  | expired (key : κ)
  /-- The slot was the least recently used one of a full map. -/
  | evicted (key : κ)
deriving DecidableEq

namespace RecencyMap

variable {κ β : Type} [DecidableEq κ]

/-- The map without slots. -/
def empty (capacity : Nat) (lifetime : Option Nat) (h : 0 < capacity) : RecencyMap κ β :=
  ⟨capacity, lifetime, [], h, List.nodup_nil, Nat.zero_le _⟩

/-- The number of slots, expired ones included. -/
def size (m : RecencyMap κ β) : Nat := m.slots.length

/-! ## Lists of slots -/

/-- The slots of all other keys. -/
def erase (key : κ) (slots : List (κ × Slot β)) : List (κ × Slot β) :=
  slots.filter (·.1 ≠ key)

omit [DecidableEq κ] in
theorem keysOf_cons (key : κ) (slot : Slot β) (slots : List (κ × Slot β)) :
    keysOf ((key, slot) :: slots) = key :: keysOf slots := rfl

omit [DecidableEq κ] in
/-- Of slots with distinct keys any selection has distinct keys. -/
theorem nodup_of_sublist {slots slots' : List (κ × Slot β)} (h : slots'.Sublist slots)
    (nodup : (keysOf slots).Nodup) : (keysOf slots').Nodup :=
  List.Nodup.sublist (h.map _) nodup

/-- A key that was erased is gone. -/
theorem not_mem_keysOf_erase (key : κ) (slots : List (κ × Slot β)) :
    key ∉ keysOf (erase key slots) := by
  simp [keysOf, erase]

/-- Slots of distinct keys stay so when one is put in front of the others. -/
theorem nodup_cons_erase (key : κ) (slot : Slot β) {slots kept : List (κ × Slot β)}
    (h : kept.Sublist (erase key slots)) (nodup : (keysOf slots).Nodup) :
    (keysOf ((key, slot) :: kept)).Nodup := by
  rw [keysOf_cons, List.nodup_cons]
  exact ⟨fun mem => not_mem_keysOf_erase key slots ((h.map _).subset mem),
    nodup_of_sublist (h.trans List.filter_sublist) nodup⟩

/-- Erasing a key that is there makes room for one. -/
theorem length_erase_lt {key : κ} {slots : List (κ × Slot β)} {slot : Slot β}
    (h : slots.lookup key = some slot) : (erase key slots).length < slots.length := by
  induction slots with
  | nil => simp at h
  | cons head rest ih =>
    obtain ⟨k, s⟩ := head
    by_cases eq : key = k
    · -- the slot of the key is the first one, and goes with all others of its key
      have short : (erase key rest).length ≤ rest.length := List.length_filter_le _ _
      subst eq
      simp only [erase, List.filter_cons, ne_eq, not_true_eq_false, decide_false,
        Bool.false_eq_true, if_false, List.length_cons] at *
      omega
    · -- the first slot stays, and the key is found behind it
      have tail : rest.lookup key = some slot := by
        simpa [List.lookup_cons, beq_eq_false_iff_ne.2 eq] using h
      have := ih tail
      simp only [erase, List.filter_cons, ne_eq, Ne.symm eq, not_false_eq_true, decide_true,
        if_true, List.length_cons] at *
      omega

/-! ## Reading -/

/-- The slot of a key, expired or not. -/
def slot? (m : RecencyMap κ β) (key : κ) : Option (Slot β) := m.slots.lookup key

/-- Whether a slot has been stored for longer than values live. -/
def isExpired (m : RecencyMap κ β) (now : Nat) (slot : Slot β) : Bool :=
  match m.lifetime with
  | none => false
  | some lifetime => slot.storedAt + lifetime < now

/-- The value of a key, unless it has expired. -/
def live? (m : RecencyMap κ β) (now : Nat) (key : κ) : Option β :=
  match m.slot? key with
  | none => none
  | some slot => if m.isExpired now slot then none else some slot.value

/-- Whether a key has a value that has not expired. -/
def contains (m : RecencyMap κ β) (now : Nat) (key : κ) : Bool :=
  (m.slot? key).any fun slot => !m.isExpired now slot

/-- The slots after a key was read: its slot moves to the front, or goes if it has expired. -/
def touchSlots (m : RecencyMap κ β) (now : Nat) (key : κ) : List (κ × Slot β) :=
  match m.slot? key with
  | none => m.slots
  | some slot =>
    if m.isExpired now slot then erase key m.slots else (key, slot) :: erase key m.slots

/-- Reading leaves the keys distinct. -/
theorem nodup_touchSlots (m : RecencyMap κ β) (now : Nat) (key : κ) :
    (keysOf (m.touchSlots now key)).Nodup := by
  unfold touchSlots
  split
  next => exact m.distinct
  next slot _ =>
    split
    next => exact nodup_of_sublist List.filter_sublist m.distinct
    next => exact nodup_cons_erase key slot (List.Sublist.refl _) m.distinct

/-- Reading leaves no more slots than fit. -/
theorem length_touchSlots_le (m : RecencyMap κ β) (now : Nat) (key : κ) :
    (m.touchSlots now key).length ≤ m.capacity := by
  unfold touchSlots
  split
  next => exact m.bounded
  next slot found =>
    split
    next => exact Nat.le_trans (List.length_filter_le _ _) m.bounded
    -- the slot that comes to the front was taken out before
    next => exact Nat.le_trans (length_erase_lt found) m.bounded

/-- Reads a key. -/
def touch (m : RecencyMap κ β) (now : Nat) (key : κ) : RecencyMap κ β :=
  { m with
    slots := m.touchSlots now key
    distinct := m.nodup_touchSlots now key
    bounded := m.length_touchSlots_le now key }

/-- The departure caused by reading a key. -/
def lapse? (m : RecencyMap κ β) (now : Nat) (key : κ) : Option (Departure κ) :=
  if (m.slot? key).any (m.isExpired now) then some (.expired key) else none

@[simp] theorem slots_touch (m : RecencyMap κ β) (now : Nat) (key : κ) :
    (m.touch now key).slots = m.touchSlots now key := rfl

/-! ## Storing -/

/-- Stores a value: its slot comes to the front, and of the others no more than fit are kept. -/
def insert (m : RecencyMap κ β) (now : Nat) (key : κ) (value : β) : RecencyMap κ β :=
  { m with
    -- of the capacity, one slot is taken by the key itself
    slots := (key, ⟨value, now⟩) :: (erase key m.slots).take (m.capacity - 1)
    distinct := nodup_cons_erase key _ (List.take_sublist _ _) m.distinct
    bounded := by
      have := m.capacity_pos
      simp only [List.length_cons, List.length_take]
      omega }

/-- The departure caused by storing a key. -/
def eviction? (m : RecencyMap κ β) (key : κ) : Option (Departure κ) :=
  -- of all other slots, the first that does not fit behind the new one
  (erase key m.slots)[m.capacity - 1]?.map fun (key, _) => .evicted key

@[simp] theorem slots_insert (m : RecencyMap κ β) (now : Nat) (key : κ) (value : β) :
    (m.insert now key value).slots =
      (key, ⟨value, now⟩) :: (erase key m.slots).take (m.capacity - 1) := rfl

/-! ## Removing -/

/-- Removes all slots. -/
def clear (m : RecencyMap κ β) : RecencyMap κ β :=
  { m with slots := [], distinct := List.nodup_nil, bounded := Nat.zero_le _ }

omit [DecidableEq κ] in
@[simp] theorem slots_clear (m : RecencyMap κ β) : m.clear.slots = [] := rfl

/-- Removes the slots that have expired. -/
def purge (m : RecencyMap κ β) (now : Nat) : RecencyMap κ β :=
  { m with
    slots := m.slots.filter fun (_, slot) => !m.isExpired now slot
    distinct := nodup_of_sublist List.filter_sublist m.distinct
    bounded := Nat.le_trans (List.length_filter_le _ _) m.bounded }

omit [DecidableEq κ] in
@[simp] theorem slots_purge (m : RecencyMap κ β) (now : Nat) :
    (m.purge now).slots = m.slots.filter fun (_, slot) => !m.isExpired now slot := rfl

/-! ## What no operation changes -/

@[simp] theorem capacity_touch (m : RecencyMap κ β) (now : Nat) (key : κ) :
    (m.touch now key).capacity = m.capacity := rfl

@[simp] theorem lifetime_touch (m : RecencyMap κ β) (now : Nat) (key : κ) :
    (m.touch now key).lifetime = m.lifetime := rfl

@[simp] theorem capacity_insert (m : RecencyMap κ β) (now : Nat) (key : κ) (value : β) :
    (m.insert now key value).capacity = m.capacity := rfl

@[simp] theorem lifetime_insert (m : RecencyMap κ β) (now : Nat) (key : κ) (value : β) :
    (m.insert now key value).lifetime = m.lifetime := rfl

end RecencyMap
end TieredQuery
