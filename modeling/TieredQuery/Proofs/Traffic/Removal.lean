import TieredQuery.Proofs.Cache.Retention
import TieredQuery.Proofs.Traffic.Basic

/-!
# Slots that stay

A slot leaves the cache when it is evicted, when the cache is cleared or cleaned up, and when its
key is accessed after it has expired. Until then nothing but the accesses of its key changes it: an
expired slot that nobody has accessed is still there.

`Removes` says that an event takes the slot of a key away, and `Stays` that no event of a run does.
A slot that has expired counts as taken away by the next access of its key even where that access
stores a new one.

## Key results

- `slot?_after_of_not_accessed`, `slot?_after_of_accessed`: the slot after an event that does not
  remove it
- `entry_of_not_removes`: the entry that is read at an access
- `slot?_after_eq_some`: where the slot after any event comes from
- `access?_of_not_writes`: who accesses entries where no client writes
-/

namespace TieredQuery.Traffic

variable {L : Language} {σ : Type}

/-- Whether an event takes the slot of a key away. -/
def Removes (key : Fingerprint) (t : Traffic L σ) (event : Event L σ) : Prop :=
  ∃ slot ∈ t.world.cache.slot? key,
    (t.after event).world.cache.slot? key = none ∨
      t.world.cache.isExpired t.world.now slot = true ∧
        ∃ access ∈ t.access? event, Fingerprint.ofText access.1 = key

instance (key : Fingerprint) (t : Traffic L σ) (event : Event L σ) :
    Decidable (t.Removes key event) :=
  inferInstanceAs (Decidable (∃ slot ∈ t.world.cache.slot? key, _ ∨ _))

/-- Through a run no event takes the slot of a key away. -/
def Stays (key : Fingerprint) (t : Traffic L σ) : List (Event L σ) → Prop
  | [] => True
  | event :: events => ¬t.Removes key event ∧ Stays key (t.after event) events

instance decidableStays (key : Fingerprint) :
    (t : Traffic L σ) → (events : List (Event L σ)) → Decidable (t.Stays key events)
  | _, [] => .isTrue trivial
  | t, event :: events =>
    have := decidableStays key (t.after event) events
    inferInstanceAs (Decidable (¬t.Removes key event ∧ (t.after event).Stays key events))

/-- A slot stays through a run if and only if it stays through its first part and then the rest. -/
theorem stays_append {key : Fingerprint} {t : Traffic L σ} {earlier later : List (Event L σ)} :
    t.Stays key (earlier ++ later) ↔ t.Stays key earlier ∧ (t.run earlier).Stays key later := by
  induction earlier generalizing t with
  | nil => simp [Stays]
  | cons event earlier ih => simp [Stays, ih, and_assoc]

/-! ## The slot after an event -/

variable {t : Traffic L σ} {event : Event L σ} {key : Fingerprint} {text : String}
  {rule : Entry L.Artifact → Option (Entry L.Artifact)}

/-- An event that accesses another key, or none, leaves the slot or takes it away. -/
theorem slot?_after_of_other
    (hother : ∀ text rule, t.access? event = some (text, rule) → Fingerprint.ofText text ≠ key) :
    (t.after event).world.cache.slot? key = t.world.cache.slot? key ∨
      (t.after event).world.cache.slot? key = none := by
  have hcache := t.cache_after event
  cases haccess : t.access? event with
  | none =>
    rw [haccess] at hcache
    exact RecencyMap.slot?_of_sublist hcache key
  | some access =>
    obtain ⟨text, rule⟩ := access
    rw [haccess] at hcache
    rw [hcache.1]
    exact QueryCache.slot?_revise_of_ne (hother text rule haccess).symm _ _ _

/-- A slot that stays is not changed by an event that does not access its key. -/
theorem slot?_after_of_not_accessed (hstays : ¬t.Removes key event)
    (hother : ∀ text rule, t.access? event = some (text, rule) → Fingerprint.ofText text ≠ key) :
    (t.after event).world.cache.slot? key = t.world.cache.slot? key := by
  rcases slot?_after_of_other hother with hkept | hgone
  · exact hkept
  · -- there is none after the event, so there was none: otherwise the event has taken it away
    cases hslot : t.world.cache.slot? key with
    | none => exact hgone
    | some slot => exact absurd ⟨slot, hslot, Or.inl hgone⟩ hstays

/-- Where nothing expires, an access does not take the slot of its own key away. -/
theorem not_removes_of_lifetime (hlifetime : t.world.cache.lifetime = none)
    (haccess : t.access? event = some (text, rule)) : ¬t.Removes (.ofText text) event := by
  rintro ⟨slot, hslot, hgone | ⟨hexpired, -⟩⟩
  · have hcache := t.cache_after event
    rw [haccess] at hcache
    have hlive : t.world.cache.liveSlot? t.world.now (.ofText text) = some slot :=
      RecencyMap.liveSlot?_eq_some_iff.mpr
        ⟨hslot, QueryCache.isExpired_of_lifetime hlifetime t.world.now slot⟩
    rw [hcache.1, QueryCache.slot?_revise_self, hlive, Option.or_some] at hgone
    cases hgone
  · rw [QueryCache.isExpired_of_lifetime hlifetime] at hexpired
    cases hexpired

/-- An access does not change the lifetime of entries. -/
theorem lifetime_after_of_accessed (haccess : t.access? event = some (text, rule)) :
    (t.after event).world.cache.lifetime = t.world.cache.lifetime := by
  have hcache := t.cache_after event
  rw [haccess] at hcache
  rw [hcache.1, QueryCache.lifetime_revise]

/-- A slot that an access does not take away has not expired. -/
theorem liveSlot?_of_not_removes (hstays : ¬t.Removes (.ofText text) event)
    (haccess : t.access? event = some (text, rule)) :
    t.world.cache.liveSlot? t.world.now (.ofText text) =
      t.world.cache.slot? (.ofText text) := by
  rw [RecencyMap.liveSlot?]
  cases hslot : t.world.cache.slot? (.ofText text) with
  | none => rfl
  | some slot =>
    have hlive : t.world.cache.isExpired t.world.now slot ≠ true := by
      intro hexpired
      exact hstays ⟨slot, hslot, Or.inr ⟨hexpired, _, haccess, rfl⟩⟩
    simp [hlive]

/-- An access reads the entry of the slot, or the one of a query of which nothing is known. -/
theorem entry_of_not_removes (hstays : ¬t.Removes (.ofText text) event)
    (haccess : t.access? event = some (text, rule)) :
    t.world.cache.entry t.world.now text =
      ((t.world.cache.slot? (.ofText text)).map (·.value)).getD .unseen := by
  rw [QueryCache.entry_eq_of_liveSlot?, liveSlot?_of_not_removes hstays haccess]

/-- An access replaces the slot by what its rule stores, if anything. -/
theorem slot?_after_of_accessed (hstays : ¬t.Removes (.ofText text) event)
    (haccess : t.access? event = some (text, rule)) :
    (t.after event).world.cache.slot? (.ofText text) =
      ((rule (t.world.cache.entry t.world.now text)).map (Slot.mk · t.world.now)).or
        (t.world.cache.slot? (.ofText text)) := by
  have hcache := t.cache_after event
  rw [haccess] at hcache
  rw [hcache.1, QueryCache.slot?_revise_self, liveSlot?_of_not_removes hstays haccess]

/-- A slot that is there after an event was there before and has stayed, or was stored by the
    access. -/
theorem slot?_after_eq_some {slot : Slot (Entry L.Artifact)}
    (hslot : (t.after event).world.cache.slot? key = some slot) :
    (t.world.cache.slot? key = some slot ∧ ¬t.Removes key event) ∨
      ∃ text rule, t.access? event = some (text, rule) ∧ Fingerprint.ofText text = key ∧
        rule (t.world.cache.entry t.world.now text) = some slot.value := by
  by_cases haccess : ∃ text rule, t.access? event = some (text, rule) ∧
      Fingerprint.ofText text = key
  · obtain ⟨text, rule, haccess, rfl⟩ := haccess
    have hcache := t.cache_after event
    rw [haccess] at hcache
    have hafter := hslot
    rw [hcache.1, QueryCache.slot?_revise_self] at hafter
    cases hstored : rule (t.world.cache.entry t.world.now text) with
    | some stored =>
      rw [hstored] at hafter
      cases hafter
      exact Or.inr ⟨text, rule, haccess, rfl, hstored⟩
    | none =>
      -- nothing was stored, so the slot is the one that was found alive
      rw [hstored, Option.map_none, Option.none_or] at hafter
      obtain ⟨hbefore, hlive⟩ := RecencyMap.liveSlot?_eq_some_iff.mp hafter
      left
      refine ⟨hbefore, ?_⟩
      rintro ⟨slot', hslot', hgone | ⟨hexpired, -⟩⟩
      · rw [hslot] at hgone
        cases hgone
      · rw [hbefore, Option.mem_some] at hslot'
        subst hslot'
        rw [hlive] at hexpired
        cases hexpired
  · -- no access of the key, so the slot was not stored by this event
    have hother : ∀ text rule, t.access? event = some (text, rule) →
        Fingerprint.ofText text ≠ key :=
      fun text rule h heq => haccess ⟨text, rule, h, heq⟩
    rcases slot?_after_of_other hother with hkept | hgone
    · left
      refine ⟨hkept ▸ hslot, ?_⟩
      rintro ⟨-, -, hgone | ⟨-, ⟨text, rule⟩, haccessed, hkey⟩⟩
      · rw [hslot] at hgone
        cases hgone
      · exact hother text rule haccessed hkey
    · rw [hslot] at hgone
      cases hgone

/-! ## Runs in which no client writes -/

/-- Where no client writes, an entry is accessed by a read, which stores nothing, or by the step of
    a request for its query. -/
theorem access?_of_not_writes (hclients : ∀ key, ¬event.Writes key)
    (haccess : t.access? event = some (text, rule)) :
    (∀ entry, rule entry = none) ∨
      ∃ i job, event = .step i ∧ t.jobs[i]? = some job ∧ job.request.query = text ∧
        job.rule? = some rule := by
  -- Case split on the event: only the steps of requests store anything.
  cases event with
  | read _ =>
    cases haccess
    exact Or.inl fun _ => rfl
  | step i =>
    cases hjob : t.jobs[i]? with
    | none => simp [access?, hjob] at haccess
    | some job =>
      rw [access?_step hjob, Option.map_eq_some_iff] at haccess
      obtain ⟨_, hrule, hpair⟩ := haccess
      cases hpair
      exact Or.inr ⟨i, job, rfl, hjob, rfl, hrule⟩
  | write _ _ | revise _ _ => exact absurd rfl (hclients _)
  | _ => cases haccess

end TieredQuery.Traffic
