import TieredQuery.Proofs.Cache.Revision

/-!
# Histories of a cache

Clients use the cache and time passes, in any order: a `Use` is the next thing that happens, and a
run is a list of them. What matters of a run for the contents of the cache is told by its marks:
which entry was stored for which text and when, which texts were found, and when the cache was
cleared. Marks are listed with the latest first, as slots are.

Marks speak of texts, slots of keys; `Mark.map` takes a history from the one to the other.
`change_after` says all that a use does to the cache, in terms of the mark that it leaves. Uses
that leave no mark only drop slots that have expired.

## Key results

- `change_after`: the cache after a use
- `run_induction`: what a change keeps is kept by a run
-/

namespace TieredQuery

variable {L : Language} {σ A κ κ' : Type}

/-! ## Uses of the cache -/

/-- What happens next to a cache. -/
inductive Use (A : Type) where
  | get (text : String)
  | set (text : String) (entry : Entry A)
  /-- The entry of a text is read and replaced by a rule. -/
  | update (text : String) (rule : Entry A → Option (Entry A))
  | contains (text : String)
  | stats
  | clear
  /-- The expired entries are removed. -/
  | cleanUp
  | advance (nanoseconds : Nat)

/-- The query text that a use is about, if any. -/
def Use.text? : Use A → Option String
  | get text | set text _ | update text _ | contains text => some text
  | stats | clear | cleanUp | advance _ => none

/-! ## Marks -/

/-- What a use leaves behind in the history of a cache. -/
inductive Mark (κ A : Type) where
  | stored (key : κ) (slot : Slot (Entry A))
  /-- A live entry was read, and nothing stored. -/
  | found (key : κ)
  | cleared
deriving DecidableEq

namespace Mark

/-- What a mark says of one key, said of another. -/
def map (f : κ → κ') : Mark κ A → Mark κ' A
  | stored key slot => .stored (f key) slot
  | found key => .found (f key)
  | cleared => .cleared

/-- The key that was stored or found. -/
def key? : Mark κ A → Option κ
  | stored key _ | found key => some key
  | cleared => none

/-- The slot that was stored, with its key. -/
def store? : Mark κ A → Option (κ × Slot (Entry A))
  | stored key slot => some (key, slot)
  | found _ | cleared => none

/-- The key of a mark goes where the mark goes. -/
@[simp] theorem key?_map (f : κ → κ') (mark : Mark κ A) : (mark.map f).key? = mark.key?.map f := by
  cases mark <;> rfl

/-- That the cache was cleared is said of no key, and stays what it is. -/
theorem cleared_mem_map {f : κ → κ'} {marks : List (Mark κ A)} :
    .cleared ∈ marks.map (map f) ↔ .cleared ∈ marks := by
  constructor
  · intro h
    obtain ⟨mark, hmark, himage⟩ := List.mem_map.mp h
    cases mark with
    | cleared => exact hmark
    | _ => cases himage
  · exact fun h => List.mem_map.mpr ⟨.cleared, h, rfl⟩

end Mark

namespace World

/-- The mark left by reading the entry of a text and replacing it by a rule. -/
def accessMark? (w : World L σ) (text : String)
    (rule : Entry L.Artifact → Option (Entry L.Artifact)) : Option (Mark String L.Artifact) :=
  match rule (w.cache.entry w.now text) with
  | some entry => some (.stored text ⟨entry, w.now⟩)
  | none => if (w.cache.live? w.now (.ofText text)).isSome then some (.found text) else none

/-- The mark left by a use. -/
def mark? (w : World L σ) : Use L.Artifact → Option (Mark String L.Artifact)
  | .get text => w.accessMark? text fun _ => none
  | .set text entry => some (.stored text ⟨entry, w.now⟩)
  | .update text rule => w.accessMark? text rule
  | .clear => some .cleared
  | .contains _ | .stats | .cleanUp | .advance _ => none

/-- The world after a use of its cache. -/
def after (w : World L σ) : Use L.Artifact → World L σ
  | .get text => (lookUp text w).2
  | .set text entry => (store text entry w).2
  | .update text rule => (update text (fun entry => (rule entry, ())) w).2
  | .contains text => (holds text w).2
  | .stats => w
  | .clear => (clear w).2
  | .cleanUp => (purge w).2
  | .advance nanoseconds => (advance nanoseconds w).2

/-- The world after some uses of its cache. -/
def run (w : World L σ) (uses : List (Use L.Artifact)) : World L σ := uses.foldl after w

/-- The marks left by some uses, the latest first. -/
def marks (w : World L σ) : List (Use L.Artifact) → List (Mark String L.Artifact)
  | [] => []
  | use :: uses => marks (w.after use) uses ++ (w.mark? use).toList

/-- A run with one more use goes on from the run without it. -/
theorem run_concat (w : World L σ) (uses : List (Use L.Artifact)) (use : Use L.Artifact) :
    w.run (uses ++ [use]) = (w.run uses).after use := List.foldl_concat ..

theorem run_append (w : World L σ) (uses uses' : List (Use L.Artifact)) :
    w.run (uses ++ uses') = (w.run uses).run uses' := List.foldl_append ..

/-- The marks of the second of two runs come first, for they are later. -/
theorem marks_append (w : World L σ) (uses uses' : List (Use L.Artifact)) :
    w.marks (uses ++ uses') = (w.run uses).marks uses' ++ w.marks uses := by
  induction uses generalizing w with
  | nil => exact (List.append_nil _).symm
  | cons use uses ih => rw [List.cons_append, marks, ih, marks, List.append_assoc]; rfl

/-- The mark of the last use comes first. -/
theorem marks_concat (w : World L σ) (uses : List (Use L.Artifact)) (use : Use L.Artifact) :
    w.marks (uses ++ [use]) = ((w.run uses).mark? use).toList ++ w.marks uses :=
  marks_append w uses [use]

/-- The mark left by a use speaks of the text of that use. -/
theorem text?_of_mark? {w : World L σ} {use : Use L.Artifact} {mark : Mark String L.Artifact}
    (hmark : w.mark? use = some mark) {text : String} (hkey : mark.key? = some text) :
    use.text? = some text := by
  -- an access leaves no mark but that of the text that it accesses
  have haccess : ∀ text' rule, w.accessMark? text' rule = some mark → some text' = some text := by
    intro text' rule h
    unfold accessMark? at h
    split at h
    next => cases h; exact hkey
    next =>
      split at h
      next => cases h; exact hkey
      next => cases h
  cases use with
  | get text' => exact haccess text' (fun _ => none) hmark
  | update text' rule => exact haccess text' rule hmark
  | set text' entry => cases hmark; exact hkey
  | clear => cases hmark; cases hkey
  | _ => cases hmark

/-- The marks of a run speak of texts of the run. -/
theorem mem_texts_of_mem_marks (w : World L σ) (uses : List (Use L.Artifact)) :
    ∀ mark ∈ w.marks uses, ∀ text, mark.key? = some text → text ∈ uses.filterMap Use.text? := by
  induction uses generalizing w with
  | nil => nofun
  | cons use uses ih =>
    intro mark hmark text hkey
    rw [List.mem_filterMap]
    rcases List.mem_append.mp hmark with hlater | hfirst
    · obtain ⟨other, hother, htext⟩ := List.mem_filterMap.mp (ih _ mark hlater text hkey)
      exact ⟨other, List.mem_cons_of_mem _ hother, htext⟩
    · exact ⟨use, List.mem_cons_self, text?_of_mark? (Option.mem_toList.mp hfirst) hkey⟩

/-- Only clearing leaves the mark that the cache was cleared. -/
theorem clear_mem_of_cleared_mem_marks {w : World L σ} {uses : List (Use L.Artifact)}
    (h : .cleared ∈ w.marks uses) : .clear ∈ uses := by
  -- an access stores or finds, but never clears
  have haccess : ∀ (w : World L σ) text rule, w.accessMark? text rule ≠ some .cleared := by
    intro w text rule hmark
    unfold accessMark? at hmark
    split at hmark
    next => cases hmark
    next => split at hmark <;> cases hmark
  induction uses generalizing w with
  | nil => cases h
  | cons use uses ih =>
    rcases List.mem_append.mp h with hlater | hfirst
    · exact List.mem_cons_of_mem _ (ih hlater)
    · have hmark := Option.mem_toList.mp hfirst
      cases use with
      | clear => exact List.mem_cons_self
      | get text => exact absurd hmark (haccess w text fun _ => none)
      | update text rule => exact absurd hmark (haccess w text rule)
      | _ => cases hmark

/-! ## What a use does to the cache -/

/-- What happens to the cache of a world when it leaves a mark, or none. -/
inductive Change (w : World L σ) : World L σ → Option (Mark Fingerprint L.Artifact) → Prop where
  | stored {w' : World L σ} (key : Fingerprint) (entry : Entry L.Artifact)
      (hcache : w'.cache = w.cache.insert w.now key entry) (hnow : w'.now = w.now) :
      Change w w' (some (.stored key ⟨entry, w.now⟩))
  | found {w' : World L σ} (key : Fingerprint) (slot : Slot (Entry L.Artifact))
      (hlive : w.cache.liveSlot? w.now key = some slot)
      (hcache : w'.cache = w.cache.touch w.now key) (hnow : w'.now = w.now) :
      Change w w' (some (.found key))
  | cleared {w' : World L σ} (hcache : w'.cache = w.cache.clear) (hnow : w'.now = w.now) :
      Change w w' (some .cleared)
  /-- Some slots that have expired may have been dropped, and time may have passed. -/
  | lapsed {w' : World L σ} (kept : Fingerprint × Slot (Entry L.Artifact) → Bool)
      (hslots : w'.cache.slots = w.cache.slots.filter kept)
      (hkept : ∀ p ∈ w.cache.slots, w.cache.isExpired w.now p.2 = false → kept p = true)
      (hcapacity : w'.cache.capacity = w.cache.capacity)
      (hlifetime : w'.cache.lifetime = w.cache.lifetime) (hnow : w.now ≤ w'.now) :
      Change w w' none

/-- Nothing happens to the slots where none is dropped. -/
theorem change_of_cache_eq {w w' : World L σ} (hcache : w'.cache = w.cache)
    (hnow : w.now ≤ w'.now) : Change w w' none :=
  .lapsed (fun _ => true) (by rw [hcache, List.filter_eq_self.mpr fun _ _ => rfl])
    (fun _ _ _ => rfl) (by rw [hcache]) (by rw [hcache]) hnow

/-- Reading a key that has no live slot drops the slot that it has, if any. -/
theorem change_of_lapse {w w' : World L σ} {key : Fingerprint}
    (hlive : w.cache.liveSlot? w.now key = none) (hcache : w'.cache = w.cache.touch w.now key)
    (hnow : w'.now = w.now) : Change w w' none := by
  -- a slot that is there must have expired, for the key has no live one
  cases hslot : w.cache.slot? key with
  | none =>
    have hslots : w'.cache.slots = w.cache.slots := by
      rw [hcache, RecencyMap.slots_touch, RecencyMap.touchSlots, hslot]
    exact .lapsed (fun _ => true) (by rw [hslots, List.filter_eq_self.mpr fun _ _ => rfl])
      (fun _ _ _ => rfl) (by rw [hcache]; rfl) (by rw [hcache]; rfl) hnow.ge
  | some slot =>
    have hexpired : w.cache.isExpired w.now slot = true := by
      rw [RecencyMap.liveSlot?, hslot] at hlive
      simpa [Option.filter] using hlive
    have hslots : w'.cache.slots = RecencyMap.erase key w.cache.slots := by
      rw [hcache, RecencyMap.slots_touch, RecencyMap.touchSlots, hslot]
      dsimp only
      rw [if_pos hexpired]
    refine .lapsed (·.1 ≠ key) hslots ?_ (by rw [hcache]; rfl) (by rw [hcache]; rfl) hnow.ge
    rintro ⟨key', slot'⟩ hmem hfresh
    -- the one slot of the key is the one that has expired
    rw [decide_eq_true_eq]
    rintro rfl
    have hsame := RecencyMap.slot?_of_mem hmem
    rw [hslot] at hsame
    cases hsame
    rw [hexpired] at hfresh
    cases hfresh

/-- The change made by reading the entry of a text and replacing it by a rule. -/
theorem change_of_revise {w w' : World L σ} {text : String}
    {rule : Entry L.Artifact → Option (Entry L.Artifact)}
    (hcache : w'.cache = w.cache.revise w.now text rule) (hnow : w'.now = w.now) :
    Change w w' ((w.accessMark? text rule).map (Mark.map .ofText)) := by
  -- the rule stores an entry, or the entry is only read
  unfold accessMark?
  split
  next entry hstored =>
    rw [QueryCache.revise_of_some hstored] at hcache
    exact .stored (.ofText text) entry hcache hnow
  next hstored =>
    rw [QueryCache.revise_of_none hstored] at hcache
    rw [RecencyMap.live?_eq_map_liveSlot?]
    cases hlive : w.cache.liveSlot? w.now (.ofText text) with
    | some slot => exact .found (.ofText text) slot hlive hcache hnow
    | none => exact change_of_lapse hlive hcache hnow

/-- Every use changes the cache as its mark says. -/
theorem change_after (w : World L σ) (use : Use L.Artifact) :
    Change w (w.after use) ((w.mark? use).map (Mark.map .ofText)) := by
  cases use with
  | get text => exact change_of_revise (lookUp_cache text w) rfl
  | set text entry => exact .stored (.ofText text) entry rfl rfl
  | update text rule =>
    exact change_of_revise (update_cache text (fun entry => (rule entry, ())) w) rfl
  | clear => exact .cleared rfl rfl
  | cleanUp =>
    -- purging drops the expired slots and keeps all others
    refine .lapsed (fun p => !w.cache.isExpired w.now p.2) rfl ?_ rfl rfl (Nat.le_refl _)
    intro p _ hfresh
    rw [hfresh]
    rfl
  | contains text => exact change_of_cache_eq rfl (Nat.le_refl _)
  | stats => exact change_of_cache_eq rfl (Nat.le_refl _)
  | advance nanoseconds => exact change_of_cache_eq rfl (Nat.le_add_right _ _)

/-- No change alters the capacity. -/
theorem Change.capacity_eq {w w' : World L σ} {mark : Option (Mark Fingerprint L.Artifact)}
    (h : Change w w' mark) : w'.cache.capacity = w.cache.capacity := by
  cases h with
  | stored key entry hcache hnow => rw [hcache, RecencyMap.capacity_insert]
  | found key slot hlive hcache hnow => rw [hcache, RecencyMap.capacity_touch]
  | cleared hcache hnow => rw [hcache]; rfl
  | lapsed kept hslots hkept hcapacity hlifetime hnow => exact hcapacity

/-- No change alters the lifetime. -/
theorem Change.lifetime_eq {w w' : World L σ} {mark : Option (Mark Fingerprint L.Artifact)}
    (h : Change w w' mark) : w'.cache.lifetime = w.cache.lifetime := by
  cases h with
  | stored key entry hcache hnow => rw [hcache, RecencyMap.lifetime_insert]
  | found key slot hlive hcache hnow => rw [hcache, RecencyMap.lifetime_touch]
  | cleared hcache hnow => rw [hcache]; rfl
  | lapsed kept hslots hkept hcapacity hlifetime hnow => exact hlifetime

/-- Time does not go back. -/
theorem Change.now_le {w w' : World L σ} {mark : Option (Mark Fingerprint L.Artifact)}
    (h : Change w w' mark) : w.now ≤ w'.now := by
  cases h with
  | stored _ _ _ hnow | found _ _ _ _ hnow | cleared _ hnow => exact hnow.ge
  | lapsed _ _ _ _ _ hnow => exact hnow

/-- The marks of a run, by keys. -/
def keyMarks (w : World L σ) (uses : List (Use L.Artifact)) : List (Mark Fingerprint L.Artifact) :=
  (w.marks uses).map (Mark.map .ofText)

/-- What holds of a world without marks, and is kept by every change, holds after a run. -/
theorem run_induction {P : List (Mark Fingerprint L.Artifact) → World L σ → Prop} {w : World L σ}
    (hnil : P [] w)
    (hchange : ∀ marks w₁ w₂ mark, P marks w₁ → Change w₁ w₂ mark → P (mark.toList ++ marks) w₂)
    (uses : List (Use L.Artifact)) : P (w.keyMarks uses) (w.run uses) := by
  -- induction on the run, its last use first
  induction uses using List.reverseRecOn with
  | nil => exact hnil
  | append_singleton uses use ih =>
    have hmarks : w.keyMarks (uses ++ [use]) =
        (((w.run uses).mark? use).map (Mark.map .ofText)).toList ++ w.keyMarks uses := by
      rw [keyMarks, marks_concat, List.map_append, Option.toList_map]
      rfl
    rw [hmarks, run_concat]
    exact hchange _ _ _ _ ih (change_after _ use)

/-- The capacity stays what it is through a run. -/
theorem capacity_run (w : World L σ) (uses : List (Use L.Artifact)) :
    (w.run uses).cache.capacity = w.cache.capacity :=
  run_induction (P := fun _ w' => w'.cache.capacity = w.cache.capacity) rfl
    (fun _ _ _ _ h hch => hch.capacity_eq.trans h) uses

/-- So does the lifetime. -/
theorem lifetime_run (w : World L σ) (uses : List (Use L.Artifact)) :
    (w.run uses).cache.lifetime = w.cache.lifetime :=
  run_induction (P := fun _ w' => w'.cache.lifetime = w.cache.lifetime) rfl
    (fun _ _ _ _ h hch => hch.lifetime_eq.trans h) uses

end World
end TieredQuery
