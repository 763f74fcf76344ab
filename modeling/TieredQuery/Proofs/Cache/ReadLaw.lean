import TieredQuery.Proofs.Cache.History
import TieredQuery.Proofs.Dispatch.PureEngine

/-!
# What reading a cache answers

Whatever has happened to a cache, reading a text answers with the slot that was stored for it last
or with nothing. The slot is there only if the cache has not been cleared since and the slot has
not expired, and it must be there if, besides, fewer keys than the capacity have been used since
the text was stored or found. What is gone stays so until it is stored again.

`Tracks` is the invariant, for one key: it ties the slot of the key to the marks in both
directions. Slots may expire without being dropped, so its second half speaks of the slots that
have not expired by now only; as time passes that asks for less.

## Key results

- `slot?_of_change`: only storing a key gives it another slot
- `tracks_of_change`: the invariant is kept by every change of the cache
- `reads_follow_stores`
-/

namespace TieredQuery

variable {L : Language} {σ A κ κ' : Type}

/-! ## What marks say of one key -/

namespace Mark

section OneKey

variable [DecidableEq κ]

/-- The slot that was stored for a key. -/
def slot? (key : κ) : Mark κ A → Option (Slot (Entry A))
  | stored other slot => if other = key then some slot else none
  | found _ | cleared => none

/-- The slot that was stored last for a key. -/
def lastStored? (key : κ) (marks : List (Mark κ A)) : Option (Slot (Entry A)) :=
  marks.findSome? (slot? key)

/-- The marks left since a key was last stored. -/
def sinceStored (key : κ) (marks : List (Mark κ A)) : List (Mark κ A) :=
  marks.takeWhile fun mark => (mark.slot? key).isNone

/-- The keys that were stored or found since a key was last stored or found itself. -/
def usedSince (key : κ) (marks : List (Mark κ A)) : List κ :=
  (marks.takeWhile fun mark => mark.key? ≠ some key).filterMap key?

/-- A store of a key stores a slot for it. -/
theorem slot?_stored_self (key : κ) (slot : Slot (Entry A)) :
    (stored key slot).slot? key = some slot := if_pos rfl

/-- A store of another key stores none for it. -/
theorem slot?_stored_of_ne {key other : κ} (h : other ≠ key) (slot : Slot (Entry A)) :
    (stored other slot).slot? key = none := if_neg h

/-- The slot that has just been stored was stored last. -/
theorem lastStored?_stored_self (key : κ) (slot : Slot (Entry A)) (marks : List (Mark κ A)) :
    lastStored? key (stored key slot :: marks) = some slot := by
  rw [lastStored?, List.findSome?_cons, slot?_stored_self]

/-- Nothing has happened since the store that has just been made. -/
theorem sinceStored_stored_self (key : κ) (slot : Slot (Entry A)) (marks : List (Mark κ A)) :
    sinceStored key (stored key slot :: marks) = [] := by
  rw [sinceStored, List.takeWhile_cons_of_neg]
  rw [slot?_stored_self]
  exact Bool.false_ne_true

/-- Marks that do not store a key do not change which slot was stored last for it. -/
theorem lastStored?_cons {key : κ} {mark : Mark κ A} (h : mark.slot? key = none)
    (marks : List (Mark κ A)) : lastStored? key (mark :: marks) = lastStored? key marks := by
  rw [lastStored?, List.findSome?_cons, h]
  rfl

/-- A mark that does not store a key is one more mark since it was stored. -/
theorem sinceStored_cons {key : κ} {mark : Mark κ A} (h : mark.slot? key = none)
    (marks : List (Mark κ A)) :
    sinceStored key (mark :: marks) = mark :: sinceStored key marks := by
  rw [sinceStored, List.takeWhile_cons_of_pos (by rw [h]; rfl)]
  rfl

/-- When a key is used itself, no other has been used since. -/
theorem usedSince_cons_self {key : κ} {mark : Mark κ A} (h : mark.key? = some key)
    (marks : List (Mark κ A)) : usedSince key (mark :: marks) = [] := by
  rw [usedSince, List.takeWhile_cons_of_neg (by simp [h])]
  rfl

/-- When another key is used, it is one more key used since. -/
theorem usedSince_cons_of_ne {key : κ} {mark : Mark κ A} (h : mark.key? ≠ some key)
    (marks : List (Mark κ A)) :
    usedSince key (mark :: marks) = mark.key?.toList ++ usedSince key marks := by
  rw [usedSince, List.takeWhile_cons_of_pos (by simp [h]), List.filterMap_cons]
  cases mark.key? <;> rfl

end OneKey

section Renamed

variable [DecidableEq κ] [DecidableEq κ'] {f : κ → κ'} {key : κ}

/-- No other key of the marks has the same image as a key. -/
def Distinguished (f : κ → κ') (key : κ) (marks : List (Mark κ A)) : Prop :=
  ∀ mark ∈ marks, ∀ other, mark.key? = some other → f other = f key → other = key

/-- A mark says of the image of a key what it says of the key, if no other key has that image. -/
theorem slot?_map {mark : Mark κ A}
    (h : ∀ other, mark.key? = some other → f other = f key → other = key) :
    (mark.map f).slot? (f key) = mark.slot? key := by
  cases mark with
  | stored other slot =>
    -- the mark is of the key itself, or of one with another image
    by_cases hother : other = key
    · rw [hother]
      exact (slot?_stored_self (f key) slot).trans (slot?_stored_self key slot).symm
    · have hne : f other ≠ f key := fun heq => hother (h other rfl heq)
      exact (slot?_stored_of_ne hne slot).trans (slot?_stored_of_ne hother slot).symm
  | _ => rfl

/-- The slot stored last for the image of a key is the one stored last for the key. -/
theorem lastStored?_map {marks : List (Mark κ A)} (h : Distinguished f key marks) :
    lastStored? (f key) (marks.map (map f)) = lastStored? key marks := by
  induction marks with
  | nil => rfl
  | cons mark marks ih =>
    obtain ⟨hmark, hmarks⟩ := List.forall_mem_cons.mp h
    rw [lastStored?, lastStored?, List.map_cons, List.findSome?_cons, List.findSome?_cons,
      slot?_map hmark]
    -- the latest store of the key is this one, or an earlier one
    cases mark.slot? key with
    | some slot => rfl
    | none => exact ih hmarks

/-- The marks since the image of a key was stored are those since the key was. -/
theorem sinceStored_map {marks : List (Mark κ A)} (h : Distinguished f key marks) :
    sinceStored (f key) (marks.map (map f)) = (sinceStored key marks).map (map f) := by
  induction marks with
  | nil => rfl
  | cons mark marks ih =>
    obtain ⟨hmark, hmarks⟩ := List.forall_mem_cons.mp h
    rw [sinceStored, sinceStored, List.map_cons, List.takeWhile_cons, List.takeWhile_cons,
      slot?_map hmark]
    cases mark.slot? key with
    | some slot => rfl
    | none => exact congrArg (mark.map f :: ·) (ih hmarks)

/-- The keys used since the image of a key was are the images of those used since the key was. -/
theorem usedSince_map {marks : List (Mark κ A)} (h : Distinguished f key marks) :
    usedSince (f key) (marks.map (map f)) = (usedSince key marks).map f := by
  induction marks with
  | nil => rfl
  | cons mark marks ih =>
    obtain ⟨hmark, hmarks⟩ := List.forall_mem_cons.mp h
    rw [List.map_cons]
    by_cases hkey : mark.key? = some key
    · have himage : (mark.map f).key? = some (f key) := by rw [key?_map, hkey]; rfl
      rw [usedSince_cons_self himage, usedSince_cons_self hkey]
      rfl
    · have himage : (mark.map f).key? ≠ some (f key) := by
        -- only the key itself has its image
        intro himage
        rw [key?_map, Option.map_eq_some_iff] at himage
        obtain ⟨other, hother, heq⟩ := himage
        exact hkey (hmark other hother heq ▸ hother)
      rw [usedSince_cons_of_ne himage, usedSince_cons_of_ne hkey, ih hmarks, key?_map,
        Option.toList_map, List.map_append]

end Renamed

end Mark

/-! ## The slot of a key -/

open RecencyMap

variable {key : Fingerprint} {w w' : World L σ} {mark : Option (Mark Fingerprint L.Artifact)}
  {marks : List (Mark Fingerprint L.Artifact)}

/-- Only storing a key gives it another slot. -/
theorem slot?_of_change (hchange : World.Change w w' mark)
    (hstored : mark.bind (·.slot? key) = none) :
    w'.cache.slot? key = w.cache.slot? key ∨ w'.cache.slot? key = none := by
  -- case split on what the change did to the cache
  cases hchange with
  | stored other entry hcache hnow =>
    have hne : key ≠ other := by
      rintro rfl
      cases (Mark.slot?_stored_self key _).symm.trans hstored
    rw [hcache]
    exact slot?_insert_of_ne hne _ _ _
  | found other slot hlive hcache hnow =>
    left
    rw [hcache]
    by_cases hother : key = other
    · subst hother
      exact (slot?_touch_self _ _ _).trans (hlive.trans (liveSlot?_eq_some_iff.mp hlive).1.symm)
    · exact slot?_touch_of_ne hother _ _
  | cleared hcache hnow => exact Or.inr (by rw [hcache]; rfl)
  | lapsed kept hslots hkept hcapacity hlifetime hnow =>
    exact slot?_of_sublist (hslots ▸ List.filter_sublist) key

/-- What is gone comes back only when it is stored. -/
theorem liveSlot?_of_change (hchange : World.Change w w' mark)
    (hstored : mark.bind (·.slot? key) = none) (hgone : w.cache.liveSlot? w.now key = none) :
    w'.cache.liveSlot? w'.now key = none := by
  -- a slot that is live now would have been live before
  by_contra hlive
  obtain ⟨slot, hslot⟩ := Option.ne_none_iff_exists'.mp hlive
  obtain ⟨hslot, hfresh⟩ := liveSlot?_eq_some_iff.mp hslot
  have hbefore := isExpired_of_le hchange.lifetime_eq hchange.now_le hfresh
  rcases slot?_of_change hchange hstored with hsame | hnone
  · rw [liveSlot?_eq_some_iff.mpr ⟨hsame.symm.trans hslot, hbefore⟩] at hgone
    cases hgone
  · rw [hnone] at hslot
    cases hslot

/-- The slot of a key is the one stored last for it, and not cleared since. If that has not expired
    and few other keys have been used since the key was, it is there. -/
structure Tracks (key : Fingerprint) (marks : List (Mark Fingerprint L.Artifact))
    (w : World L σ) : Prop where
  sound : ∀ slot, w.cache.slot? key = some slot →
    Mark.lastStored? key marks = some slot ∧ .cleared ∉ Mark.sinceStored key marks
  complete : ∀ slot, Mark.lastStored? key marks = some slot →
    .cleared ∉ Mark.sinceStored key marks → w.cache.isExpired w.now slot = false →
    (Mark.usedSince key marks).toFinset.card < w.cache.capacity →
    w.cache.Within key slot (Mark.usedSince key marks).toFinset

/-- The mark of a change that stores no slot of a key leaves what was stored last for it, and
    brings no slot of it back. -/
theorem sound_of_change (htracks : Tracks key marks w) (hchange : World.Change w w' mark)
    (hstored : mark.bind (·.slot? key) = none) (slot : Slot (Entry L.Artifact))
    (hslot : w'.cache.slot? key = some slot) :
    Mark.lastStored? key (mark.toList ++ marks) = some slot ∧
      .cleared ∉ Mark.sinceStored key (mark.toList ++ marks) := by
  have hbefore : w.cache.slot? key = some slot := by
    rcases slot?_of_change hchange hstored with hsame | hnone
    · exact hsame.symm.trans hslot
    · cases hnone.symm.trans hslot
  obtain ⟨hlast, hclear⟩ := htracks.sound slot hbefore
  cases mark with
  | none => exact ⟨hlast, hclear⟩
  | some mark =>
    -- after clearing there would be no slot
    have hne : mark ≠ .cleared := by
      rintro rfl
      cases hchange with
      | cleared hcache hnow =>
        rw [hcache] at hslot
        cases hslot
    have hother : mark.slot? key = none := hstored
    rw [Option.toList_some, List.singleton_append, Mark.lastStored?_cons hother,
      Mark.sinceStored_cons hother, List.mem_cons, not_or]
    exact ⟨hlast, hne.symm, hclear⟩

/-- When another key is used, the keys used since a key was are that one and those before. -/
theorem usedSince_insert {other : Fingerprint} (hne : key ≠ other)
    {use : Mark Fingerprint L.Artifact} (huse : use.key? = some other) :
    (Mark.usedSince key (use :: marks)).toFinset =
      (Mark.usedSince key marks).toFinset ∪ {other} := by
  have hkey : use.key? ≠ some key := by
    rw [huse]
    exact fun heq => hne (Option.some.inj heq).symm
  rw [Mark.usedSince_cons_of_ne hkey, huse, Option.toList_some, List.singleton_append,
    List.toFinset_cons, Finset.union_comm, Finset.insert_eq]

/-- A slot that must be there after another key was used had to be there before, with room for
    one more key. -/
theorem within_of_use (htracks : Tracks key marks w) {use : Mark Fingerprint L.Artifact}
    (hchange : World.Change w w' (some use)) {other : Fingerprint} (hne : key ≠ other)
    (huse : use.key? = some other) (hstored : use.slot? key = none) {slot : Slot (Entry L.Artifact)}
    (hlast : Mark.lastStored? key (use :: marks) = some slot)
    (hclear : .cleared ∉ Mark.sinceStored key (use :: marks))
    (hfresh : w'.cache.isExpired w'.now slot = false)
    (hroom : (Mark.usedSince key (use :: marks)).toFinset.card < w'.cache.capacity) :
    w.cache.Within key slot (Mark.usedSince key marks).toFinset ∧
      ((Mark.usedSince key marks).toFinset ∪ {other}).card < w.cache.capacity := by
  -- the mark is of another key, so what was stored last and since when is as before
  rw [Mark.lastStored?_cons hstored] at hlast
  rw [Mark.sinceStored_cons hstored, List.mem_cons, not_or] at hclear
  rw [usedSince_insert hne huse, hchange.capacity_eq] at hroom
  have hbefore := isExpired_of_le hchange.lifetime_eq hchange.now_le hfresh
  -- one key less has been used by then, so there was room as well
  have hfewer := Nat.lt_of_le_of_lt (Finset.card_le_card Finset.subset_union_left) hroom
  exact ⟨htracks.complete slot hlast hclear.2 hbefore hfewer, hroom⟩

/-- Every change of the cache keeps the invariant. -/
theorem tracks_of_change (htracks : Tracks key marks w) (hchange : World.Change w w' mark) :
    Tracks key (mark.toList ++ marks) w' := by
  have hsound := sound_of_change htracks hchange
  cases hchange with
  | stored other entry hcache hnow =>
    by_cases hother : key = other
    · -- the slot that is stored now is the one stored last, and the first one
      subst hother
      constructor
      · intro slot hslot
        rw [hcache, slot?_insert_self] at hslot
        cases hslot
        exact ⟨Mark.lastStored?_stored_self _ _ _,
          (Mark.sinceStored_stored_self key _ marks).symm ▸ List.not_mem_nil⟩
      · intro slot hlast _ _ _
        cases (Mark.lastStored?_stored_self _ _ _).symm.trans hlast
        rw [hcache, Option.toList_some, List.singleton_append, Mark.usedSince_cons_self rfl]
        exact within_insert_self _ _ _ _
    · -- another key is stored: the slot stays in its place, for there is room for one more key
      have hstored := Mark.slot?_stored_of_ne (Ne.symm hother) ⟨entry, w.now⟩
      refine ⟨hsound hstored, fun slot hlast hclear hfresh hroom => ?_⟩
      obtain ⟨hplace, hspare⟩ := within_of_use htracks (.stored other entry hcache hnow) hother rfl
        hstored hlast hclear hfresh hroom
      rw [hcache, Option.toList_some, List.singleton_append, usedSince_insert hother rfl]
      exact within_insert_of_ne hother _ _ hplace hspare
  | found other found hlive hcache hnow =>
    -- a key was read: it comes to the front, or lets another one pass
    refine ⟨hsound rfl, fun slot hlast hclear hfresh hroom => ?_⟩
    rw [hcache, Option.toList_some, List.singleton_append]
    by_cases hother : key = other
    · -- the slot that was found is the one stored last, and comes to the front
      subst hother
      obtain ⟨hslot, hunexpired⟩ := liveSlot?_eq_some_iff.mp hlive
      have hfound := (htracks.sound found hslot).1
      cases hfound.symm.trans ((Mark.lastStored?_cons rfl marks).symm.trans hlast)
      rw [Mark.usedSince_cons_self rfl]
      exact within_touch_self hslot hunexpired
    · obtain ⟨hplace, -⟩ := within_of_use htracks (.found other found hlive hcache hnow) hother rfl
        rfl hlast hclear hfresh hroom
      rw [usedSince_insert hother rfl]
      exact within_touch_of_ne hother _ hplace
  | cleared hcache _ =>
    refine ⟨hsound rfl, fun slot _ hclear => ?_⟩
    rw [Option.toList_some, List.singleton_append, Mark.sinceStored_cons rfl] at hclear
    exact absurd List.mem_cons_self hclear
  | lapsed kept hslots hkept hcapacity hlifetime hnow =>
    refine ⟨hsound rfl, fun slot hlast hclear hfresh hroom => ?_⟩
    -- what has not expired by now was not dropped
    have hbefore := isExpired_of_le hlifetime hnow hfresh
    have hplace := htracks.complete slot hlast hclear hbefore (hcapacity ▸ hroom)
    have hmem := mem_of_lookup (slot?_of_within hplace)
    exact within_of_filter hslots (hkept _ hmem hbefore) hplace

/-! ## Runs -/

/-- The slot of a key is tied to the marks of any run that began with no slots. -/
theorem tracks_run {w : World L σ} (hempty : w.cache.slots = []) (key : Fingerprint)
    (uses : List (Use L.Artifact)) : Tracks key (w.keyMarks uses) (w.run uses) := by
  apply World.run_induction (P := Tracks key)
  · -- nothing was stored, and there is no slot
    constructor
    · intro slot hslot
      rw [slot?, hempty] at hslot
      cases hslot
    · intro slot hlast
      cases hlast
  · intro marks w₁ w₂ mark htracks hchange
    exact tracks_of_change htracks hchange

/-- What is gone comes back in a run only when it is stored. -/
theorem liveSlot?_run {w : World L σ} {key : Fingerprint}
    (hgone : w.cache.liveSlot? w.now key = none) {uses : List (Use L.Artifact)}
    (hstored : Mark.lastStored? key (w.keyMarks uses) = none) :
    (w.run uses).cache.liveSlot? (w.run uses).now key = none := by
  revert hstored
  apply World.run_induction (P := fun marks w' =>
    Mark.lastStored? key marks = none → w'.cache.liveSlot? w'.now key = none)
  · exact fun _ => hgone
  · intro marks w₁ w₂ mark ih hchange hnone
    rw [Mark.lastStored?, List.findSome?_append, Option.or_eq_none_iff] at hnone
    refine liveSlot?_of_change hchange ?_ (ih hnone.2)
    cases mark with
    | none => rfl
    | some mark => exact List.findSome?_eq_none_iff.mp hnone.1 mark List.mem_cons_self

/-- The keys of the texts that a run is about are different from that of a text, unless the text
    is the same. -/
theorem distinguished_marks {uses uses' : List (Use L.Artifact)} {text : String}
    (hcollisions : ∀ other ∈ uses.filterMap Use.text?,
      Fingerprint.ofText other = .ofText text → other = text)
    (hsub : uses' ⊆ uses) (w : World L σ) :
    Mark.Distinguished Fingerprint.ofText text (w.marks uses') := by
  intro mark hmark other hkey
  exact hcollisions other
    (List.filterMap_subset _ hsub (w.mem_texts_of_mem_marks uses' mark hmark other hkey))

/-- What reading a text answers after any run of an initially empty cache. There is an answer or
    not, and the entry that is read and whether the cache holds one for the text say the same of
    it. An answer is the slot that was stored last for the text, if the cache was not cleared since
    and no more than the lifetime has passed; and it must be there if fewer keys than the capacity
    have been stored or found since the text was stored or found. From when there is none on, there
    is none until the text is stored. -/
theorem reads_follow_stores {w : World L σ} (hempty : w.cache.slots = [])
    {uses : List (Use L.Artifact)} {text : String}
    (hcollisions : ∀ other ∈ uses.filterMap Use.text?,
      Fingerprint.ofText other = .ofText text → other = text) :
    let served := w.run uses
    let marks := w.marks uses
    ∃ answer : Option (Slot (Entry L.Artifact)),
      (World.lookUp text served).1 = (answer.map (·.value)).getD .unseen ∧
      (World.holds text served).1 = answer.isSome ∧
      (∀ slot, answer = some slot →
        Mark.lastStored? text marks = some slot ∧ .cleared ∉ Mark.sinceStored text marks ∧
        ∀ lifetime, w.cache.lifetime = some lifetime → served.now ≤ slot.storedAt + lifetime) ∧
      (∀ slot, Mark.lastStored? text marks = some slot → .cleared ∉ Mark.sinceStored text marks →
        (∀ lifetime, w.cache.lifetime = some lifetime → served.now ≤ slot.storedAt + lifetime) →
        ((Mark.usedSince text marks).map Fingerprint.ofText).toFinset.card < w.cache.capacity →
        answer = some slot) ∧
      ∀ earlier later, uses = earlier ++ later → (World.holds text (w.run earlier)).1 = false →
        Mark.lastStored? text ((w.run earlier).marks later) = none → answer = none := by
  intro served marks
  have htracks := tracks_run hempty (.ofText text) uses
  have hmarks := distinguished_marks hcollisions (List.Subset.refl _) w
  -- what the marks say of the key they say of the text
  have hlast := Mark.lastStored?_map hmarks
  have hsince : .cleared ∈ Mark.sinceStored (Fingerprint.ofText text) (w.keyMarks uses) ↔
      .cleared ∈ Mark.sinceStored text marks := by
    rw [World.keyMarks, Mark.sinceStored_map hmarks]
    exact Mark.cleared_mem_map
  have hused := Mark.usedSince_map hmarks
  have hfresh : ∀ slot, served.cache.isExpired served.now slot = false ↔
      ∀ lifetime, w.cache.lifetime = some lifetime → served.now ≤ slot.storedAt + lifetime := by
    intro slot
    rw [← w.lifetime_run uses]
    exact isExpired_eq_false_iff
  -- the answer is the slot that is live when the run is over
  refine ⟨served.cache.liveSlot? served.now (.ofText text), ?_, ?_, ?_, ?_, ?_⟩
  · exact QueryCache.entry_eq_of_liveSlot? ..
  · exact contains_eq_isSome_liveSlot? ..
  · intro slot hanswer
    obtain ⟨hslot, hlive⟩ := liveSlot?_eq_some_iff.mp hanswer
    obtain ⟨hstored, hclear⟩ := htracks.sound slot hslot
    exact ⟨hlast.symm.trans hstored, hsince.not.mp hclear, (hfresh slot).mp hlive⟩
  · intro slot hstored hclear hlive hroom
    rw [← hused, ← w.capacity_run uses] at hroom
    have hwithin := htracks.complete slot (hlast.trans hstored) (hsince.not.mpr hclear)
      ((hfresh slot).mpr hlive) hroom
    exact liveSlot?_eq_some_iff.mpr ⟨slot?_of_within hwithin, (hfresh slot).mpr hlive⟩
  · -- what was gone in the course of the run has not come back
    rintro earlier later rfl hgone hstored
    have hlater := distinguished_marks hcollisions (List.subset_append_right _ _) (w.run earlier)
    have hnone : (w.run earlier).cache.liveSlot? (w.run earlier).now (.ofText text) = none := by
      rw [← Option.not_isSome_iff_eq_none, ← contains_eq_isSome_liveSlot?]
      exact Bool.eq_false_iff.mp hgone
    rw [show served = (w.run earlier).run later from w.run_append earlier later]
    exact liveSlot?_run hnone ((Mark.lastStored?_map hlater).trans hstored)

/-- Of two texts the first is read again when it is about to expire. -/
def echoDeadline : List (Use String) := [.set "a" (.seen 1), .set "b" (.seen 2), .advance 5]

/-- It is still there, for at its deadline an entry has not yet expired. -/
theorem reads_follow_stores_echoDeadline :
    (World.lookUp "a" (briefWorld.run echoDeadline)).1 = .seen 1 ∧
    (World.holds "a" (briefWorld.run echoDeadline)).1 = true := by
  have hcollisions : ∀ other ∈ echoDeadline.filterMap Use.text?,
      Fingerprint.ofText other = .ofText "a" → other = "a" := by
    intro other hother heq
    simp only [echoDeadline, Use.text?, List.filterMap_cons, List.filterMap_nil, List.mem_cons,
      List.not_mem_nil, or_false] at hother
    rcases hother with rfl | rfl
    · rfl
    · exact absurd heq.symm ofText_a_ne_b
  obtain ⟨answer, hentry, hholds, -, hpresent, -⟩ :=
    reads_follow_stores (w := briefWorld) rfl hcollisions
  have hanswer : answer = some ⟨.seen 1, 0⟩ := by
    apply hpresent
    · rfl
    · decide
    · rintro lifetime ⟨⟩
      decide
    · -- only the second text has been used since
      exact Nat.lt_of_le_of_lt (List.toFinset_card_le _) Nat.one_lt_two
  rw [hentry, hholds, hanswer]
  exact ⟨rfl, rfl⟩

end TieredQuery
