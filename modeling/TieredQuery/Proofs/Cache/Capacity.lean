import TieredQuery.Proofs.Cache.History
import TieredQuery.Proofs.Dispatch.PureEngine

/-!
# What a larger cache holds

Two caches that differ in their capacity only are used in the same way. Reading a key may find it
in the larger one alone and bring it to the front there, so the two orders of use do not stay the
same, and a slot that has expired may leave the larger one alone. Yet the slots of the smaller cache
are always among those of the larger one, in the same order.

That is not an invariant by itself: when the larger cache is full and drops its last slot, the
smaller one must be full too. So `Covers` also bounds the surplus, the number of slots that only the
larger cache has, by the difference of the capacities. The surplus grows only when the smaller cache
drops a slot, and then it is full.

## Key results

- `sublist_take_take`, `length_filter_add_le`: the surplus of a list over a part of it
- `covers_touch`, `covers_insert`, `covers_purge`: what keeps the relation
- `larger_cache_keeps_no_less`
-/

namespace TieredQuery

variable {L : Language} {σ α κ β : Type}

/-! ## The surplus of a list over a part of it -/

/-- What is cut off behind the first `m` of a part is among the first `n` of the whole list, if
    the list has no more other elements than `n - m`. -/
theorem sublist_take_take {part whole : List α} (h : part.Sublist whole) {m n : Nat}
    (hsurplus : whole.length + m ≤ part.length + n) : (part.take m).Sublist (whole.take n) := by
  induction h generalizing m n with
  | slnil => rw [List.take_nil]; exact List.nil_sublist _
  | @cons part whole a h ih =>
    rw [List.length_cons] at hsurplus
    have hle := h.length_le
    -- the first element is another one, so `n` is greater than `m`
    obtain ⟨k, rfl⟩ : ∃ k, n = k + 1 := ⟨n - 1, by omega⟩
    rw [List.take_succ_cons]
    exact (ih (by omega)).cons a
  | @cons_cons part whole a h ih =>
    rw [List.length_cons, List.length_cons] at hsurplus
    have hle := h.length_le
    cases m with
    | zero => exact List.nil_sublist _
    | succ m =>
      -- both lists keep their first element, and so does what is cut off
      obtain ⟨k, rfl⟩ : ∃ k, n = k + 1 := ⟨n - 1, by omega⟩
      rw [List.take_succ_cons, List.take_succ_cons]
      exact (ih (by omega)).cons_cons a

/-- Filtering does not add to the surplus. -/
theorem length_filter_add_le {part whole : List α} (h : part.Sublist whole) (p : α → Bool) :
    (whole.filter p).length + part.length ≤ (part.filter p).length + whole.length := by
  -- the elements that are dropped from the part are dropped from the whole list as well
  have hpart := List.length_eq_countP_add_countP p (l := part)
  have hwhole := List.length_eq_countP_add_countP p (l := whole)
  have hdropped := h.countP_le (p := fun a => decide ¬p a = true)
  rw [← List.countP_eq_length_filter, ← List.countP_eq_length_filter]
  omega

/-! ## Maps of which one is larger -/

namespace RecencyMap

variable [DecidableEq κ] {small large : RecencyMap κ β} {key : κ} {slot : Slot β}

omit [DecidableEq κ] in
/-- The slots of a map are slots of a larger one, in the same order, and the larger one has no more
    others than it has room for. -/
structure Covers (small large : RecencyMap κ β) : Prop where
  capacity : small.capacity ≤ large.capacity
  lifetime : small.lifetime = large.lifetime
  slots : small.slots.Sublist large.slots
  surplus : large.slots.length + small.capacity ≤ small.slots.length + large.capacity

/-- A slot of the smaller map is the slot of its key in the larger one. -/
theorem Covers.slot?_eq (h : Covers small large) (hslot : small.slot? key = some slot) :
    large.slot? key = some slot :=
  slot?_of_mem (h.slots.subset (mem_of_lookup hslot))

omit [DecidableEq κ] in
/-- A slot expires in both maps at the same time. -/
theorem Covers.isExpired_eq (h : Covers small large) (now : Nat) (slot : Slot β) :
    small.isExpired now slot = large.isExpired now slot := by
  rw [isExpired, isExpired, h.lifetime]

/-- What the smaller map answers the larger one answers too. -/
theorem Covers.liveSlot?_eq (h : Covers small large) {now : Nat}
    (hlive : small.liveSlot? now key = some slot) : large.liveSlot? now key = some slot := by
  obtain ⟨hslot, hfresh⟩ := liveSlot?_eq_some_iff.mp hlive
  exact liveSlot?_eq_some_iff.mpr ⟨h.slot?_eq hslot, h.isExpired_eq now slot ▸ hfresh⟩

/-- Reading a key in both maps keeps the relation. -/
theorem covers_touch (h : Covers small large) (now : Nat) (key : κ) :
    Covers (small.touch now key) (large.touch now key) := by
  have hslots : (erase key small.slots).Sublist (erase key large.slots) := h.slots.filter _
  have herased : (erase key large.slots).length + small.slots.length ≤
      (erase key small.slots).length + large.slots.length := length_filter_add_le h.slots _
  have hsurplus := h.surplus
  suffices hsuff : (small.touchSlots now key).Sublist (large.touchSlots now key) ∧
      (large.touchSlots now key).length + small.capacity ≤
        (small.touchSlots now key).length + large.capacity from
    ⟨h.capacity, h.lifetime, hsuff.1, hsuff.2⟩
  unfold touchSlots
  cases hlarge : large.slot? key with
  | none =>
    -- a key that the larger map does not have the smaller one does not have either
    have hsmall : small.slot? key = none := by
      cases hsmall : small.slot? key with
      | none => rfl
      | some slot => cases (h.slot?_eq hsmall).symm.trans hlarge
    rw [hsmall]
    exact ⟨h.slots, hsurplus⟩
  | some slot =>
    have hroom := length_erase_lt hlarge
    cases hsmall : small.slot? key with
    | none =>
      -- only the larger map has the slot, which may move and may go
      rw [erase_of_slot?_eq_none hsmall] at hslots herased
      dsimp only
      split
      · exact ⟨hslots, by omega⟩
      · exact ⟨hslots.cons _, by rw [List.length_cons]; omega⟩
    | some slot' =>
      -- both maps have the slot, and do the same with it
      cases hlarge.symm.trans (h.slot?_eq hsmall)
      dsimp only
      rw [h.isExpired_eq]
      split
      · exact ⟨hslots, by omega⟩
      · exact ⟨hslots.cons_cons _, by rw [List.length_cons, List.length_cons]; omega⟩

/-- Storing a value in both maps keeps the relation: without the key's own slot, each map keeps as
    many others as its capacity leaves room for. -/
theorem covers_insert (h : Covers small large) (now : Nat) (key : κ) (value : β) :
    Covers (small.insert now key value) (large.insert now key value) := by
  have hslots : (erase key small.slots).Sublist (erase key large.slots) := h.slots.filter _
  have herased : (erase key large.slots).length + small.slots.length ≤
      (erase key small.slots).length + large.slots.length := length_filter_add_le h.slots _
  have hsurplus := h.surplus
  -- room for one slot is kept free in both, so the capacities differ by as much as before
  have hpos := small.capacity_pos
  have hcapacity := h.capacity
  refine ⟨h.capacity, h.lifetime, ?_, ?_⟩
  · exact (sublist_take_take hslots (by omega)).cons_cons _
  · simp only [slots_insert, List.length_cons, List.length_take, capacity_insert]
    omega

omit [DecidableEq κ] in
/-- Purging both maps keeps the relation. -/
theorem covers_purge (h : Covers small large) (now : Nat) :
    Covers (small.purge now) (large.purge now) := by
  -- the lifetimes agree, so both maps drop the same slots
  have hkept : (small.purge now).slots =
      small.slots.filter fun p => !large.isExpired now p.2 :=
    List.filter_congr fun p _ => congrArg (!·) (h.isExpired_eq now p.2)
  refine ⟨h.capacity, h.lifetime, ?_, ?_⟩
  · rw [hkept]
    exact h.slots.filter _
  · have hfiltered := length_filter_add_le h.slots fun p => !large.isExpired now p.2
    have hsurplus := h.surplus
    rw [hkept]
    simp only [slots_purge]
    show _ + small.capacity ≤ _ + large.capacity
    omega

omit [DecidableEq κ] in
/-- Two maps that have been cleared are covered by the capacities. -/
theorem covers_clear (h : Covers small large) : Covers small.clear large.clear :=
  ⟨h.capacity, h.lifetime, List.Sublist.refl _, Nat.add_le_add_left h.capacity _⟩

omit [DecidableEq κ] in
/-- Empty maps are covered if the capacities are in order. -/
theorem covers_of_empty (hcapacity : small.capacity ≤ large.capacity)
    (hlifetime : small.lifetime = large.lifetime) (hsmall : small.slots = [])
    (hlarge : large.slots = []) : Covers small large := by
  refine ⟨hcapacity, hlifetime, ?_, ?_⟩
  · rw [hsmall]
    exact List.nil_sublist _
  · rw [hsmall, hlarge]
    exact Nat.add_le_add_left hcapacity _

end RecencyMap

/-! ## Runs of both caches -/

open RecencyMap

/-- Whether what a use stores, if anything, does not depend on what it reads. -/
def Use.Blind {A : Type} : Use A → Prop
  | update _ _ => False
  | _ => True

/-- A world with a larger cache covers another at the same time. -/
structure World.Covers (small large : World L σ) : Prop where
  now : small.now = large.now
  cache : RecencyMap.Covers small.cache large.cache

/-- A use of both caches that is blind to what it reads keeps the relation. -/
theorem World.covers_after {small large : World L σ} (h : World.Covers small large)
    {use : Use L.Artifact} (hblind : use.Blind) :
    World.Covers (small.after use) (large.after use) := by
  have hnow := h.now
  -- Case split on the use: both caches do the same at the same time, and a rule is excluded.
  cases use with
  | get text =>
    refine ⟨hnow, ?_⟩
    show RecencyMap.Covers (small.cache.touch small.now _) (large.cache.touch large.now _)
    rw [hnow]
    exact covers_touch h.cache _ _
  | set text entry =>
    refine ⟨hnow, ?_⟩
    show RecencyMap.Covers (small.cache.insert small.now _ _) (large.cache.insert large.now _ _)
    rw [hnow]
    exact covers_insert h.cache _ _ _
  | update text rule => exact hblind.elim
  | contains text => exact h
  | stats => exact h
  | clear => exact ⟨hnow, covers_clear h.cache⟩
  | cleanUp =>
    refine ⟨hnow, ?_⟩
    show RecencyMap.Covers (small.cache.purge small.now) (large.cache.purge large.now)
    rw [hnow]
    exact covers_purge h.cache _
  | advance nanoseconds => exact ⟨congrArg (· + nanoseconds) hnow, h.cache⟩

/-- So does a run of such uses. -/
theorem World.covers_run {small large : World L σ} (h : World.Covers small large)
    {uses : List (Use L.Artifact)} (hblind : ∀ use ∈ uses, use.Blind) :
    World.Covers (small.run uses) (large.run uses) := by
  induction uses generalizing small large with
  | nil => exact h
  | cons use uses ih =>
    obtain ⟨huse, huses⟩ := List.forall_mem_cons.mp hblind
    exact ih (World.covers_after h huse) huses

/-- Two empty caches with the same lifetime are used in the same way. At every point the slots of
    the one with less capacity are slots of the other, with the same entries and times and in the
    same order of use, and whatever it answers when it is read the other one answers too. -/
theorem larger_cache_keeps_no_less {small large : World L σ} (hnow : small.now = large.now)
    (hcapacity : small.cache.capacity ≤ large.cache.capacity)
    (hlifetime : small.cache.lifetime = large.cache.lifetime)
    (hsmall : small.cache.slots = []) (hlarge : large.cache.slots = [])
    {uses : List (Use L.Artifact)} (hblind : ∀ use ∈ uses, use.Blind) :
    let less := small.run uses
    let more := large.run uses
    less.cache.slots.Sublist more.cache.slots ∧
    (∀ key slot, less.cache.slot? key = some slot → more.cache.slot? key = some slot) ∧
    ∀ text, (World.holds text less).1 = true →
      (World.holds text more).1 = true ∧
      (World.lookUp text more).1 = (World.lookUp text less).1 := by
  intro less more
  -- the larger cache covers the smaller one at the start, where both are empty
  have hcovers : World.Covers less more :=
    World.covers_run ⟨hnow, covers_of_empty hcapacity hlifetime hsmall hlarge⟩ hblind
  refine ⟨hcovers.cache.slots, fun key slot => hcovers.cache.slot?_eq, fun text hholds => ?_⟩
  -- what the smaller cache answers is the live slot, which the larger one has too
  have hlive : (less.cache.liveSlot? less.now (.ofText text)).isSome :=
    (contains_eq_isSome_liveSlot? ..).symm.trans hholds
  obtain ⟨slot, hless⟩ := Option.isSome_iff_exists.mp hlive
  have hmore : more.cache.liveSlot? more.now (.ofText text) = some slot :=
    hcovers.now ▸ hcovers.cache.liveSlot?_eq hless
  constructor
  · show more.cache.contains more.now _ = true
    rw [contains_eq_isSome_liveSlot?, hmore]
    rfl
  · show more.cache.entry more.now text = less.cache.entry less.now text
    rw [QueryCache.entry_eq_of_liveSlot?, QueryCache.entry_eq_of_liveSlot?, hmore, hless]

/-- The first of two texts is read after the second was stored, which a cache for one entry no
    longer answers. -/
def echoCapacity : List (Use String) :=
  [.set "a" (.seen 1), .advance 2, .set "b" (.seen 2), .get "a", .advance 4]

/-- The cache for one entry holds the second text, which the other one answers too. -/
theorem larger_cache_keeps_no_less_echoCapacity :
    let small : World echoLanguage Unit :=
      { cache := QueryCache.withCapacity 1 (some 5), engine := () }
    (small.run echoCapacity).cache.slots.Sublist (briefWorld.run echoCapacity).cache.slots ∧
    (World.holds "b" (small.run echoCapacity)).1 = true ∧
    (World.holds "b" (briefWorld.run echoCapacity)).1 = true ∧
    (World.lookUp "b" (briefWorld.run echoCapacity)).1 = .seen 2 := by
  intro small
  have hblind : ∀ use ∈ echoCapacity, use.Blind := by simp [echoCapacity, Use.Blind]
  have hnow : small.now = briefWorld.now := rfl
  have hcapacity : small.cache.capacity ≤ briefWorld.cache.capacity := by decide
  have hlifetime : small.cache.lifetime = briefWorld.cache.lifetime := rfl
  obtain ⟨hslots, -, hreads⟩ :=
    larger_cache_keeps_no_less hnow hcapacity hlifetime rfl rfl hblind
  obtain ⟨hholds, hentry⟩ : (World.holds "b" (small.run echoCapacity)).1 = true ∧
      (World.lookUp "b" (small.run echoCapacity)).1 = .seen 2 := by decide +kernel
  exact ⟨hslots, hholds, (hreads "b" hholds).1, (hreads "b" hholds).2.trans hentry⟩

end TieredQuery
