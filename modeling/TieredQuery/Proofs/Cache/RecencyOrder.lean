import TieredQuery.Proofs.Cache.History
import TieredQuery.Proofs.Dispatch.PureEngine

/-!
# Which keys a cache holds

A key is promoted when an entry is stored for it, and when its live entry is read. In a cache
without a lifetime that is never cleared, the keys held are the ones promoted last, in the order of
their latest promotions, as many as fit; and each has the entry that was stored for it last.

Whether reading a key promotes it depends on whether it is still there, and so on all that has been
evicted before. The invariant `Contents` therefore ties the slots to the marks at every point.

## Key results

- `eraseDups_filter`, `pairwise_idxOf_eraseDups`: the latest of several occurrences in a list
- `take_recency_cons`: what one promotion does to the keys promoted last
- `contents_of_change`: the invariant is kept by every change of the cache
- `slots_eq_latest_promotions`
-/

namespace TieredQuery

variable {L : Language} {σ A κ : Type}

/-! ## Lists in which the first of equal elements counts -/

section Lists

variable {α : Type} [DecidableEq α]

/-- Whether elements are filtered out before or after their repetitions does not matter. -/
theorem eraseDups_filter (p : α → Bool) (l : List α) :
    (l.filter p).eraseDups = l.eraseDups.filter p := by
  -- induction on the length, for repetitions of the head are filtered out of the tail
  induction hlength : l.length using Nat.strong_induction_on generalizing l with
  | _ n ih =>
    cases l with
    | nil => rfl
    | cons a l =>
      have hle := List.length_filter_le (fun b => !b == a) l
      have hrest := ih (l.filter fun b => !b == a).length
        (by rw [← hlength, List.length_cons]; omega) (l.filter fun b => !b == a) rfl
      rw [List.eraseDups_cons]
      by_cases ha : p a = true
      · rw [List.filter_cons_of_pos ha, List.filter_cons_of_pos ha, List.eraseDups_cons, ← hrest,
          List.filter_comm]
      · rw [List.filter_cons_of_neg ha, List.filter_cons_of_neg ha, ← hrest, List.filter_filter]
        -- what passes the filter is different from the head, which does not
        congr 1
        refine List.filter_congr fun b _ => ?_
        by_cases hb : b = a
        · subst hb
          simp [ha]
        · simp [hb]

/-- Repetitions of the head may be filtered out last. -/
theorem eraseDups_cons_eq (a : α) (l : List α) :
    (a :: l).eraseDups = a :: l.eraseDups.filter (· ≠ a) := by
  rw [List.eraseDups_cons, eraseDups_filter]
  congr 1
  refine List.filter_congr fun b _ => ?_
  by_cases hb : b = a <;> simp [hb]

/-- No element is left twice. -/
theorem nodup_eraseDups (l : List α) : l.eraseDups.Nodup := by
  induction l with
  | nil => exact List.nodup_nil
  | cons a l ih =>
    rw [eraseDups_cons_eq, List.nodup_cons]
    exact ⟨by simp, ih.filter _⟩

/-- The elements that are kept are in the order of their first occurrences. -/
theorem pairwise_idxOf_eraseDups (l : List α) :
    l.eraseDups.Pairwise fun a b => l.idxOf a < l.idxOf b := by
  induction l with
  | nil => exact List.Pairwise.nil
  | cons a l ih =>
    rw [eraseDups_cons_eq, List.pairwise_cons]
    -- behind the head every other element has one more in front of it
    have hne : ∀ b ∈ l.eraseDups.filter (· ≠ a), (a :: l).idxOf b = l.idxOf b + 1 := by
      intro b hb
      have hab : b ≠ a := by simpa using (List.mem_filter.mp hb).2
      exact List.idxOf_cons_ne _ hab.symm
    constructor
    · -- the head comes first, and the others keep their order
      intro b hb
      rw [List.idxOf_cons_self, hne b hb]
      exact Nat.succ_pos _
    · refine (ih.filter _).imp_of_mem fun {b c} hb hc hlt => ?_
      rw [hne b hb, hne c hc]
      exact Nat.succ_lt_succ hlt

/-- Of distinct elements at most one is filtered out, so what is cut off behind `n + 1` of them
    does not come back among the first `n`. -/
theorem take_filter_ne_take {l : List α} (hnodup : l.Nodup) (a : α) (n : Nat) :
    ((l.take (n + 1)).filter (· ≠ a)).take n = (l.filter (· ≠ a)).take n := by
  induction l generalizing n with
  | nil => rw [List.take_nil]
  | cons b l ih =>
    obtain ⟨hb, hl⟩ := List.nodup_cons.mp hnodup
    rw [List.take_succ_cons]
    by_cases hab : b = a
    · -- the element itself is not among the others
      subst hab
      have hall : l.filter (· ≠ b) = l := List.filter_eq_self.mpr fun c hc => by
        rw [decide_eq_true_eq]
        rintro rfl
        exact hb hc
      have htake : (l.take n).filter (· ≠ b) = l.take n := List.filter_eq_self.mpr fun c hc => by
        rw [decide_eq_true_eq]
        rintro rfl
        exact hb (List.mem_of_mem_take hc)
      rw [List.filter_cons_of_neg (by simp), List.filter_cons_of_neg (by simp), hall, htake,
        List.take_take, Nat.min_self]
    · rw [List.filter_cons_of_pos (by simpa using hab),
        List.filter_cons_of_pos (by simpa using hab)]
      -- the head is another element, and is kept on both sides
      cases n with
      | zero => rfl
      | succ m => rw [List.take_succ_cons, List.take_succ_cons, ih hl]

end Lists

/-! ## Promotions -/

namespace Mark

/-- The keys that were promoted, the latest first. -/
def promotions (marks : List (Mark κ A)) : List κ := marks.filterMap key?

/-- The slots that were stored, the latest first. -/
def stores (marks : List (Mark κ A)) : List (κ × Slot (Entry A)) := marks.filterMap store?

/-- The keys that were promoted, each at its latest promotion. -/
def recency [DecidableEq κ] (marks : List (Mark κ A)) : List κ := (promotions marks).eraseDups

/-- Every key that was stored was promoted. -/
theorem mem_promotions_of_mem_stores {marks : List (Mark κ A)} {key : κ}
    (h : key ∈ RecencyMap.keysOf (stores marks)) : key ∈ promotions marks := by
  obtain ⟨p, hp, rfl⟩ := List.mem_map.mp h
  obtain ⟨mark, hmark, hstore⟩ := List.mem_filterMap.mp hp
  refine List.mem_filterMap.mpr ⟨mark, hmark, ?_⟩
  cases mark with
  | stored key slot =>
    cases hstore
    rfl
  | _ => cases hstore

/-- A promotion brings its key to the front, and of the others as many are kept as still fit. -/
theorem take_recency_cons [DecidableEq κ] {mark : Mark κ A} {key : κ} (hkey : mark.key? = some key)
    (marks : List (Mark κ A)) {capacity : Nat} (hpos : 0 < capacity) :
    (recency (mark :: marks)).take capacity =
      key :: (((recency marks).take capacity).filter (· ≠ key)).take (capacity - 1) := by
  obtain ⟨n, rfl⟩ := Nat.exists_eq_succ_of_ne_zero hpos.ne'
  -- the mark is that of a promotion, so its key is the first one promoted
  have hcons : promotions (mark :: marks) = key :: promotions marks :=
    List.filterMap_cons_some hkey
  rw [recency, hcons, eraseDups_cons_eq, List.take_succ_cons]
  congr 1
  exact (take_filter_ne_take (nodup_eraseDups _) key n).symm

end Mark

namespace RecencyMap

variable {β : Type} [DecidableEq κ]

/-- Erasing slots of a key erases the key. -/
theorem keysOf_erase (key : κ) (slots : List (κ × Slot β)) :
    keysOf (erase key slots) = (keysOf slots).filter (· ≠ key) := by
  rw [keysOf, keysOf, erase, List.filter_map]
  rfl

omit [DecidableEq κ] in
/-- The keys of the first slots are the first keys. -/
theorem keysOf_take (slots : List (κ × Slot β)) (n : Nat) :
    keysOf (slots.take n) = (keysOf slots).take n := List.map_take

/-- Reading a live slot brings it to the front; the others fit behind it. -/
theorem slots_touch_of_live {m : RecencyMap κ β} {now : Nat} {key : κ} {slot : Slot β}
    (hlive : m.liveSlot? now key = some slot) :
    (m.touch now key).slots = (key, slot) :: (erase key m.slots).take (m.capacity - 1) := by
  obtain ⟨hslot, hfresh⟩ := liveSlot?_eq_some_iff.mp hlive
  have hlt := length_erase_lt hslot
  -- one slot is taken out and put in front, so there is room for all
  have hbound := m.bounded
  have hall : (erase key m.slots).take (m.capacity - 1) = erase key m.slots :=
    List.take_of_length_le (by omega)
  rw [slots_touch, touchSlots, hslot, hall]
  simp [hfresh]

end RecencyMap

/-! ## The slots of a cache -/

open RecencyMap

/-- The keys held are the ones promoted last, each with the entry that was stored for it last. -/
structure Contents (marks : List (Mark Fingerprint A)) (cache : QueryCache A) : Prop where
  keys : keysOf cache.slots = (Mark.recency marks).take cache.capacity
  values : ∀ p ∈ cache.slots, (Mark.stores marks).lookup p.1 = some p.2
  stored : ∀ key ∈ Mark.promotions marks, key ∈ keysOf (Mark.stores marks)

/-- A key that is promoted comes to the front with its slot, whether that is stored or only read. -/
theorem contents_of_promotion {marks : List (Mark Fingerprint A)} {cache cache' : QueryCache A}
    (hcontents : Contents marks cache) {mark : Mark Fingerprint A} {key : Fingerprint}
    (slot : Slot (Entry A)) (hkey : mark.key? = some key)
    (hslots : cache'.slots = (key, slot) :: (erase key cache.slots).take (cache.capacity - 1))
    (hcapacity : cache'.capacity = cache.capacity)
    (hself : (Mark.stores (mark :: marks)).lookup key = some slot)
    (hothers : ∀ other ≠ key, (Mark.stores (mark :: marks)).lookup other =
      (Mark.stores marks).lookup other)
    (hstored : ∀ other ∈ keysOf (Mark.stores marks), other ∈ keysOf (Mark.stores (mark :: marks))) :
    Contents (mark :: marks) cache' := by
  constructor
  case keys =>
    -- the latest promotion comes first, and the others keep their order
    rw [hslots, hcapacity, Mark.take_recency_cons hkey marks cache.capacity_pos, keysOf_cons,
      keysOf_take, keysOf_erase, hcontents.keys]
  case values =>
    intro p hp
    rw [hslots] at hp
    rcases List.mem_cons.mp hp with rfl | hrest
    · exact hself
    · -- the slots behind the first one are of other keys, and were there before
      have herased := List.mem_of_mem_take hrest
      have hne : p.1 ≠ key := by simpa [erase] using (List.mem_filter.mp herased).2
      rw [hothers p.1 hne]
      exact hcontents.values p (List.mem_of_mem_filter herased)
  case stored =>
    intro other hother
    rw [Mark.promotions, List.filterMap_cons_some hkey] at hother
    rcases List.mem_cons.mp hother with rfl | hold
    · obtain ⟨before, after, hsplit, -⟩ := List.lookup_eq_some_iff.mp hself
      rw [hsplit, keysOf_append, keysOf_cons]
      exact List.mem_append_right _ List.mem_cons_self
    · exact hstored other (hcontents.stored other hold)

/-- Without a lifetime and without clearing, every change of the cache keeps the contents at what
    the marks say. -/
theorem contents_of_change {marks : List (Mark Fingerprint L.Artifact)} {w w' : World L σ}
    {mark : Option (Mark Fingerprint L.Artifact)} (hlifetime : w.cache.lifetime = none)
    (hcontents : Contents marks w.cache) (hchange : World.Change w w' mark)
    (hclear : .cleared ∉ mark.toList) : Contents (mark.toList ++ marks) w'.cache := by
  -- storing and finding promote a key; nothing else happens, for nothing is cleared or expires
  cases hchange with
  | stored key entry hcache hnow =>
    refine contents_of_promotion hcontents ⟨entry, w.now⟩ rfl ?_ ?_ ?_ ?_ ?_
    · rw [hcache, slots_insert]
    · rw [hcache, capacity_insert]
    · exact List.lookup_cons_self
    · intro other hne
      show List.lookup other ((key, _) :: Mark.stores marks) = _
      rw [List.lookup_cons, beq_eq_false_iff_ne.mpr hne]
    · intro other hother
      exact List.mem_cons_of_mem _ hother
  | found key slot hlive hcache hnow =>
    have hslot := (liveSlot?_eq_some_iff.mp hlive).1
    refine contents_of_promotion hcontents slot rfl ?_ ?_ ?_ ?_ ?_
    · rw [hcache, slots_touch_of_live hlive]
    · rw [hcache, capacity_touch]
    · -- reading stores nothing: the slot is the one stored last
      exact hcontents.values _ (mem_of_lookup hslot)
    · intro other _
      rfl
    · intro other hother
      exact hother
  | cleared hcache hnow => exact absurd (List.mem_singleton_self _) hclear
  | lapsed kept hslots hkept hcapacity hlifetime' hnow =>
    -- nothing expires, so nothing is dropped
    have hall : w'.cache.slots = w.cache.slots := by
      rw [hslots]
      refine List.filter_eq_self.mpr fun p hp => hkept p hp ?_
      rw [isExpired, hlifetime]
    exact ⟨by rw [hall, hcapacity]; exact hcontents.keys,
      by rw [hall]; exact hcontents.values, hcontents.stored⟩

/-- The contents at the end of a run are what its marks say. -/
theorem contents_of_run {w : World L σ} (hempty : w.cache.slots = [])
    (hlifetime : w.cache.lifetime = none) {uses : List (Use L.Artifact)}
    (hclear : .cleared ∉ w.keyMarks uses) : Contents (w.keyMarks uses) (w.run uses).cache := by
  -- that there is no lifetime is carried along, for changes are judged by it
  refine (World.run_induction (P := fun marks w' => w'.cache.lifetime = none ∧
    (.cleared ∉ marks → Contents marks w'.cache)) ⟨hlifetime, ?_⟩ ?_ uses).2 hclear
  · intro _
    exact ⟨by rw [hempty]; exact List.take_nil.symm, by rw [hempty]; nofun, nofun⟩
  · rintro marks w₁ w₂ mark ⟨hlifetime₁, hcontents⟩ hchange
    refine ⟨hchange.lifetime_eq.trans hlifetime₁, fun hclear' => ?_⟩
    rw [List.mem_append, not_or] at hclear'
    exact contents_of_change hlifetime₁ (hcontents hclear'.2) hchange hclear'.1

/-- The slots of a cache that is never cleared and in which nothing expires. Of the keys that have
    ever been stored, ranked by their latest promotions, it holds the first ones, as many as fit;
    each key has one slot, and its entry is the one stored for it last. -/
theorem slots_eq_latest_promotions {w : World L σ} (hempty : w.cache.slots = [])
    (hlifetime : w.cache.lifetime = none) {uses : List (Use L.Artifact)}
    (hclear : ∀ use ∈ uses, use ≠ .clear) :
    let slots := (w.run uses).cache.slots
    let promotions := Mark.promotions (w.keyMarks uses)
    let stores := Mark.stores (w.keyMarks uses)
    ∃ ranking : List Fingerprint,
      ranking.Nodup ∧ (∀ key, key ∈ ranking ↔ key ∈ keysOf stores) ∧
      ranking.Pairwise (fun key key' => promotions.idxOf key < promotions.idxOf key') ∧
      keysOf slots = ranking.take (min w.cache.capacity ranking.length) ∧
      (keysOf slots).Nodup ∧ ∀ p ∈ slots, stores.lookup p.1 = some p.2 := by
  intro slots promotions stores
  -- a run in which no use clears leaves no mark that does
  have hnever : .cleared ∉ w.keyMarks uses := by
    rw [World.keyMarks, Mark.cleared_mem_map]
    exact fun hmem => hclear _ (World.clear_mem_of_cleared_mem_marks hmem) rfl
  have hcontents := contents_of_run hempty hlifetime hnever
  refine ⟨Mark.recency (w.keyMarks uses), nodup_eraseDups _, ?_, pairwise_idxOf_eraseDups _, ?_,
    (w.run uses).cache.distinct, hcontents.values⟩
  · intro key
    rw [Mark.recency, List.mem_eraseDups]
    exact ⟨hcontents.stored key, Mark.mem_promotions_of_mem_stores⟩
  · rw [List.take_eq_take_min.symm, ← w.capacity_run uses]
    exact hcontents.keys

/-- The first of two texts is read again before a third is stored, so the second has to go. -/
def echoPromotion : List (Use String) :=
  [.set "a" (.seen 1), .set "b" (.seen 2), .get "a", .set "c" (.seen 3)]

/-- The text that was read again is kept, with the one stored last. -/
theorem slots_eq_latest_promotions_echoPromotion :
    ((echoWorld 2).run echoPromotion).cache.slots.map (·.2.value) = [.seen 3, .seen 1] ∧
    ∃ ranking : List Fingerprint,
      (∀ key, key ∈ ranking ↔ key ∈ keysOf (Mark.stores ((echoWorld 2).keyMarks echoPromotion))) ∧
      keysOf ((echoWorld 2).run echoPromotion).cache.slots =
        ranking.take (min 2 ranking.length) ∧
      ∀ p ∈ ((echoWorld 2).run echoPromotion).cache.slots,
        (Mark.stores ((echoWorld 2).keyMarks echoPromotion)).lookup p.1 = some p.2 := by
  have hempty : (echoWorld 2).cache.slots = [] := rfl
  have hlifetime : (echoWorld 2).cache.lifetime = none := rfl
  have hclear : ∀ use ∈ echoPromotion, use ≠ .clear := by simp [echoPromotion]
  obtain ⟨ranking, -, hmem, -, hkeys, -, hvalues⟩ :=
    slots_eq_latest_promotions hempty hlifetime hclear
  exact ⟨by decide +kernel, ranking, hmem, hkeys, hvalues⟩

end TieredQuery
