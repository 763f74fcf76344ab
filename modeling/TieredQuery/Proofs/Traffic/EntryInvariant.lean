import TieredQuery.Proofs.Traffic.Occurrences

/-!
# What is known of every stored entry

Where no client writes, every entry in the cache has been stored by a request, and tells of the
settings of the executors. It has counted an occurrence; it is not both compiled and remembered as
a failure; a compiled one has reached the threshold of the executor that stored the artifact, a
failure that of an executor that remembers failures, and any other entry is below the threshold of
some executor. Each request stores by rules of its own and on an entry that others may have changed
since it has planned its query, so all of this is one invariant, `Justified`.

## Key results

- `justified_after`: the invariant is kept by one event
- `storedBy_run`: which request has stored an artifact
- `compiled_after_of_not_removes`, `compiled_of_stays`: an artifact stays with its slot, and the
  count only grows
- `entries_justified`
-/

namespace TieredQuery

variable {L : Language} {σ : Type}

/-! ## The rules of requests -/

/-- Only executors that remember failures have requests that are to store one. -/
def Phase.Heeds (tiering : Tiering) : Phase L → Prop
  | declining _ _ => tiering.remembers = true
  | _ => True

/-- A request is to store a failure only after its own executor was found to remember failures. -/
theorem Executor.heeds_step (executor : Executor L) (engine : Engine L σ) (request : Request L)
    (phase : Phase L) (w : World L σ) :
    (executor.step engine request phase w).1.Heeds executor.tiering := by
  have hleads := executor.leadsTo_step engine request phase w
  generalize (executor.step engine request phase w).1 = next at hleads ⊢
  -- only a compilation that was declined leads to a failure to store
  cases hleads with
  | declined _ hremembers => exact hremembers
  | _ => trivial

namespace Traffic

/-! ## The invariant -/

/-- What holds of a stored entry, given the requests that have arrived. -/
structure Justified (t : Traffic L σ) (entry : Entry L.Artifact) : Prop where
  counted : 1 ≤ entry.occurrences
  exclusive : ¬(entry.isCompiled = true ∧ entry.declined = true)
  /-- A failure was due to be compiled by an executor that remembers failures. -/
  declined : entry.declined = true → ∃ job ∈ t.jobs,
    job.server.executor.tiering.remembers = true ∧
      job.server.executor.tiering.due ≤ entry.occurrences
  /-- An entry that is only a count has not reached the threshold of some executor. -/
  plain : entry.isCompiled = false → entry.declined = false → ∃ job ∈ t.jobs,
    entry.occurrences < job.server.executor.tiering.threshold.toNat

/-- Requests that have arrived remain, with the executors they were made to. -/
theorem exists_job_after {t : Traffic L σ} {P : Server L σ → Prop} (event : Event L σ)
    (h : ∃ job ∈ t.jobs, P job.server) : ∃ job ∈ (t.after event).jobs, P job.server := by
  obtain ⟨job, hmem, hP⟩ := h
  obtain ⟨i, hjob⟩ := List.mem_iff_getElem?.mp hmem
  by_cases hown : event = .step i
  · subst hown
    exact ⟨_, List.mem_of_getElem? (job_after_step hjob), hP⟩
  · exact ⟨job, List.mem_of_getElem? (job_after_of_ne hjob hown), hP⟩

/-- What justifies an entry is still there after any event. -/
theorem Justified.after {t : Traffic L σ} {entry : Entry L.Artifact} (h : t.Justified entry)
    (event : Event L σ) : (t.after event).Justified entry where
  counted := h.counted
  exclusive := h.exclusive
  declined hdeclined :=
    exists_job_after (P := fun server => server.executor.tiering.remembers = true ∧
      server.executor.tiering.due ≤ entry.occurrences) event (h.declined hdeclined)
  plain hopen hdeclined :=
    exists_job_after (P := fun server =>
      entry.occurrences < server.executor.tiering.threshold.toNat) event (h.plain hopen hdeclined)

/-! An entry of each kind is justified by what it says. -/

/-- A count alone is justified by an executor whose threshold it has not reached. -/
theorem justified_seen {t : Traffic L σ} {n : Nat} (hcounted : 1 ≤ n)
    (hbelow : ∃ job ∈ t.jobs, n < job.server.executor.tiering.threshold.toNat) :
    t.Justified (.seen n) where
  counted := hcounted
  exclusive h := Bool.false_ne_true h.1
  declined h := absurd h Bool.false_ne_true
  plain _ _ := hbelow

/-- A failure is justified by an executor that remembers failures and was due to compile. -/
theorem justified_notCompilable {t : Traffic L σ} {n : Nat} (hcounted : 1 ≤ n)
    (hdue : ∃ job ∈ t.jobs, job.server.executor.tiering.remembers = true ∧
      job.server.executor.tiering.due ≤ n) : t.Justified (.notCompilable n) where
  counted := hcounted
  exclusive h := Bool.false_ne_true h.1
  declined _ := hdue
  plain _ h := absurd h.symm Bool.false_ne_true

/-- An artifact needs no more than an occurrence that was counted. -/
theorem justified_compiled {t : Traffic L σ} {n : Nat} (hcounted : 1 ≤ n)
    (artifact : L.Artifact) : t.Justified (.compiled n artifact) where
  counted := hcounted
  exclusive h := Bool.false_ne_true h.2
  declined h := absurd h Bool.false_ne_true
  plain h _ := absurd h.symm Bool.false_ne_true

section Step

variable {key : Fingerprint} {made : List (Nat × Plan L.Artifact)} {t : Traffic L σ}
  {event : Event L σ}

/-- The entry that is read for a query of the key is justified, or nothing is known of it. -/
theorem justified_entry
    (hslots : ∀ slot, t.world.cache.slot? key = some slot → t.Justified slot.value)
    {text : String} (hkey : Fingerprint.ofText text = key) :
    t.world.cache.entry t.world.now text = .unseen ∨
      t.Justified (t.world.cache.entry t.world.now text) := by
  rw [QueryCache.entry_eq_of_liveSlot?, hkey]
  cases hlive : t.world.cache.liveSlot? t.world.now key with
  | none => exact Or.inl rfl
  | some slot => exact Or.inr (hslots slot (RecencyMap.liveSlot?_eq_some_iff.mp hlive).1)

/-- What a request stores is justified by the request itself, or by what it has found. -/
theorem justified_of_rule? (hledger : t.Ledger key made)
    (hslots : ∀ slot, t.world.cache.slot? key = some slot → t.Justified slot.value)
    {i : Nat} {job : Job L σ} (hjob : t.jobs[i]? = some job) (hkey : job.key = key)
    (hheeds : job.phase.Heeds job.server.executor.tiering)
    {rule : Entry L.Artifact → Option (Entry L.Artifact)} (hrule : job.rule? = some rule)
    {stored : Entry L.Artifact}
    (hstored : rule (t.world.cache.entry t.world.now job.request.query) = some stored) :
    t.Justified stored := by
  have hmem := List.mem_of_getElem? hjob
  have hcarried := hledger.carried i job
  rw [Job.rule?] at hrule
  -- Case split on the phase: the rule that stores decides what has to be justified.
  cases hphase : job.phase with
  | arrived =>
    rw [hphase] at hrule
    cases hrule
    cases hstored
  | planning document =>
    rw [hphase] at hrule
    cases hrule
    dsimp only at hstored
    cases hfound : (t.world.cache.entry t.world.now job.request.query).artifact? with
    | some artifact =>
      rw [Entry.plan_of_artifact? _ hfound] at hstored
      cases hstored
    | none =>
      rcases Entry.plan_of_artifact?_eq_none job.server.executor.tiering hfound with
        ⟨hremembers, hdeclined, hplan⟩ | ⟨-, hplan⟩ | ⟨hbelow, hplan⟩
      · -- the failure that is heeded was remembered by some executor, at a smaller count
        rw [hplan] at hstored
        cases hstored
        rcases justified_entry hslots hkey with hunseen | hjustified
        · rw [hunseen] at hdeclined
          cases hdeclined
        · obtain ⟨other, hother, hremembers', hdue⟩ := hjustified.declined hdeclined
          exact justified_notCompilable (Nat.le_add_left _ _)
            ⟨other, hother, hremembers', Nat.le_succ_of_le hdue⟩
      · rw [hplan] at hstored
        cases hstored
      · rw [hplan] at hstored
        cases hstored
        exact justified_seen (Nat.le_add_left _ _) ⟨job, hmem, hbelow⟩
  | adopting fresh n =>
    rw [hphase] at hrule hcarried
    cases hrule
    -- the count that the request carries was due when it planned its query
    obtain ⟨-, -, hdue⟩ := hcarried n hjob hkey rfl
    rw [Entry.eq_of_adopt hstored]
    have hone : 1 ≤ n := (Nat.le_max_right _ _).trans hdue
    exact justified_compiled (hone.trans (Nat.le_max_left _ _)) _
  | declining document n =>
    rw [hphase] at hrule hcarried hheeds
    cases hrule
    obtain ⟨-, -, hdue⟩ := hcarried n hjob hkey rfl
    rw [(Entry.eq_of_decline hstored).2]
    have hone : 1 ≤ n := (Nat.le_max_right _ _).trans hdue
    exact justified_notCompilable (hone.trans (Nat.le_max_left _ _))
      ⟨job, hmem, hheeds, hdue.trans (Nat.le_max_left _ _)⟩
  | _ =>
    rw [hphase] at hrule
    cases hrule

/-- One event keeps the entries of a key justified. -/
theorem justified_after (hledger : t.Ledger key made) (hclients : ∀ key, ¬event.Writes key)
    (hheeds : ∀ job ∈ t.jobs, job.phase.Heeds job.server.executor.tiering)
    (hslots : ∀ slot, t.world.cache.slot? key = some slot → t.Justified slot.value) :
    ∀ slot, (t.after event).world.cache.slot? key = some slot →
      (t.after event).Justified slot.value := by
  intro slot hslot
  rcases slot?_after_eq_some hslot with ⟨hold, -⟩ | ⟨text, rule, haccess, hkey, hstored⟩
  · exact (hslots slot hold).after event
  · rcases access?_of_not_writes hclients haccess with hread | ⟨i, job, rfl, hjob, rfl, hrule⟩
    · rw [hread] at hstored
      cases hstored
    · have hjustified := justified_of_rule? hledger hslots hjob hkey
        (hheeds job (List.mem_of_getElem? hjob)) hrule hstored
      exact hjustified.after _

end Step

/-- Only executors that remember failures have requests that are to store one. -/
theorem heeds_run {t : Traffic L σ}
    (h : ∀ job ∈ t.jobs, job.phase.Heeds job.server.executor.tiering) (events : List (Event L σ)) :
    ∀ job ∈ (t.run events).jobs, job.phase.Heeds job.server.executor.tiering := by
  induction events generalizing t with
  | nil => exact h
  | cons event events ih =>
    refine ih (forall_jobs_after h ?_ ?_)
    · intro server request _
      trivial
    · intro i job _ _
      exact job.server.executor.heeds_step _ _ _ _

/-- A run keeps the entries of a key justified. -/
theorem justified_run {key : Fingerprint} {made : List (Nat × Plan L.Artifact)} {t : Traffic L σ}
    (hledger : t.Ledger key made)
    (hheeds : ∀ job ∈ t.jobs, job.phase.Heeds job.server.executor.tiering)
    (hslots : ∀ slot, t.world.cache.slot? key = some slot → t.Justified slot.value)
    {events : List (Event L σ)} (hclients : ∀ event ∈ events, ∀ key, ¬event.Writes key) :
    ∀ slot, (t.run events).world.cache.slot? key = some slot →
      (t.run events).Justified slot.value := by
  -- Induction on the events, with the record of plans and the requests carried along.
  induction events generalizing t made with
  | nil => exact hslots
  | cons event events ih =>
    obtain ⟨hevent, hrest⟩ := List.forall_mem_cons.mp hclients
    exact ih (ledger_after hledger hevent) (heeds_run hheeds [event])
      (justified_after hledger hevent hheeds hslots) hrest

/-! ## Who has stored an artifact -/

/-- In a run a request has stored its artifact as the first one under a key, and the slot has
    stayed since. -/
def StoredBy (start : Traffic L σ) (events : List (Event L σ)) (key : Fingerprint)
    (artifact : L.Artifact) (job : Job L σ) : Prop :=
  ∃ earlier i later n, events = earlier ++ .step i :: later ∧
    (start.run earlier).jobs[i]? = some job ∧ job.key = key ∧ job.phase = .adopting artifact n ∧
    ((start.run earlier).world.cache.entry (start.run earlier).world.now
      job.request.query).artifact? = none ∧
    ((start.run earlier).after (.step i)).Stays key later

/-- What a request has stored is still its own after an event that leaves the slot. -/
theorem StoredBy.concat {start : Traffic L σ} {events : List (Event L σ)} {key : Fingerprint}
    {artifact : L.Artifact} {job : Job L σ} (h : start.StoredBy events key artifact job)
    {event : Event L σ} (hstays : ¬(start.run events).Removes key event) :
    start.StoredBy (events ++ [event]) key artifact job := by
  obtain ⟨earlier, i, later, n, rfl, hjob, hkey, hphase, hopen, hlater⟩ := h
  refine ⟨earlier, i, later ++ [event], n, by simp, hjob, hkey, hphase, hopen, ?_⟩
  rw [run_append, run_cons] at hstays
  exact stays_append.mpr ⟨hlater, hstays, trivial⟩

/-- An entry that is read at an access and still there after it has not been removed by it. -/
theorem not_removes_of_liveSlot? {t : Traffic L σ} {event : Event L σ} {key : Fingerprint}
    {slot slot' : Slot (Entry L.Artifact)}
    (hlive : t.world.cache.liveSlot? t.world.now key = some slot)
    (hafter : (t.after event).world.cache.slot? key = some slot') : ¬t.Removes key event := by
  obtain ⟨hslot, hfresh⟩ := RecencyMap.liveSlot?_eq_some_iff.mp hlive
  rintro ⟨found, hfound, hgone | ⟨hexpired, -⟩⟩
  · rw [hafter] at hgone
    cases hgone
  · rw [hslot, Option.mem_some] at hfound
    subst hfound
    rw [hfresh] at hexpired
    cases hexpired

/-- The artifact of a slot was stored by a request to an executor whose threshold the count has
    reached. -/
theorem storedBy_run {world : World L σ} (hempty : world.cache.slots = [])
    {events : List (Event L σ)} (hclients : ∀ event ∈ events, ∀ key, ¬event.Writes key)
    {key : Fingerprint} {slot : Slot (Entry L.Artifact)}
    (hslot : ((⟨world, []⟩ : Traffic L σ).run events).world.cache.slot? key = some slot)
    {artifact : L.Artifact} (hartifact : slot.value.artifact? = some artifact) :
    ∃ job, (⟨world, []⟩ : Traffic L σ).StoredBy events key artifact job ∧
      job.server.executor.tiering.due ≤ slot.value.occurrences := by
  -- induction on the run, its last event first
  induction events using List.reverseRecOn generalizing slot artifact with
  | nil =>
    rw [run_nil, RecencyMap.slot?, hempty] at hslot
    cases hslot
  | append_singleton events event ih =>
    have hclients' : ∀ event ∈ events, ∀ key, ¬event.Writes key :=
      fun event' hevent' => hclients event' (List.mem_append_left _ hevent')
    have hevent : ∀ key, ¬event.Writes key := hclients event (by simp)
    rw [run_append, run_cons, run_nil] at hslot
    rcases slot?_after_eq_some hslot with ⟨hold, hstays⟩ | ⟨text, rule, haccess, hkey, hstored⟩
    · obtain ⟨job, hby, hdue⟩ := ih hclients' hold hartifact
      exact ⟨job, hby.concat hstays, hdue⟩
    · rcases access?_of_not_writes hevent haccess with hread | ⟨i, job, rfl, hjob, rfl, hrule⟩
      · rw [hread] at hstored
        cases hstored
      · obtain ⟨fresh, n, hphase, hfresh, hcount⟩ :=
          Phase.adopting_of_rule? hrule hstored hartifact
        cases hfound : (((⟨world, []⟩ : Traffic L σ).run events).world.cache.entry
            ((⟨world, []⟩ : Traffic L σ).run events).world.now job.request.query).artifact? with
        | none =>
          -- the request has stored its own artifact, as the first one
          rw [hfound] at hfresh
          subst hfresh
          obtain ⟨-, -, hdue⟩ := (ledger_run (ledger_nil hempty key) hclients').carried i job n hjob
            hkey (by rw [hphase]; rfl)
          refine ⟨job, ⟨events, i, [], n, rfl, hjob, hkey, hphase, hfound, trivial⟩, ?_⟩
          rw [hcount]
          exact hdue.trans (Nat.le_max_left _ _)
        | some kept =>
          -- the request has found an artifact, and has at most raised its count
          rw [hfound] at hfresh
          have hentry := QueryCache.entry_eq_of_liveSlot?
            ((⟨world, []⟩ : Traffic L σ).run events).world.cache
            ((⟨world, []⟩ : Traffic L σ).run events).world.now job.request.query
          cases hlive : ((⟨world, []⟩ : Traffic L σ).run events).world.cache.liveSlot?
              ((⟨world, []⟩ : Traffic L σ).run events).world.now (.ofText job.request.query) with
          | none =>
            rw [hentry, hlive] at hfound
            cases hfound
          | some old =>
            have hstays := not_removes_of_liveSlot? (hkey ▸ hlive) hslot
            rw [hlive] at hentry
            have hvalue : old.value.artifact? = some artifact := by
              rw [hentry] at hfound
              exact hfound.trans (congrArg some hfresh.symm)
            obtain ⟨first, hby, hdue⟩ :=
              ih hclients' (hkey ▸ (RecencyMap.liveSlot?_eq_some_iff.mp hlive).1) hvalue
            refine ⟨first, hby.concat hstays, ?_⟩
            rw [hcount, hentry]
            exact hdue.trans (Nat.le_max_right _ _)

/-! ## How long an artifact stays -/

/-- An event that leaves the slot of a compiled query leaves its artifact, and does not lower the
    count. -/
theorem compiled_after_of_not_removes {t : Traffic L σ} {key : Fingerprint}
    {slot : Slot (Entry L.Artifact)} (hslot : t.world.cache.slot? key = some slot)
    {artifact : L.Artifact} (hartifact : slot.value.artifact? = some artifact)
    {event : Event L σ} (hclients : ∀ key, ¬event.Writes key) (hkept : ¬t.Removes key event) :
    ∃ slot', (t.after event).world.cache.slot? key = some slot' ∧
      slot'.value.artifact? = some artifact ∧
      slot.value.occurrences ≤ slot'.value.occurrences := by
  by_cases hother : ∀ text rule, t.access? event = some (text, rule) →
      Fingerprint.ofText text ≠ key
  · exact ⟨slot, (slot?_after_of_not_accessed hkept hother).trans hslot, hartifact, Nat.le_refl _⟩
  · push Not at hother
    obtain ⟨text, rule, haccess, rfl⟩ := hother
    -- the slot has not expired, so its entry is the one that the rule revises
    have hentry := entry_of_not_removes hkept haccess
    rw [hslot] at hentry
    rw [slot?_after_of_accessed hkept haccess, hslot, hentry]
    rcases access?_of_not_writes hclients haccess with hread | ⟨i, job, rfl, hjob, rfl, hrule⟩
    · rw [hread]
      exact ⟨slot, rfl, hartifact, Nat.le_refl _⟩
    · have hnext := Phase.artifact?_of_rule? hrule hartifact
      cases hstored : rule slot.value with
      | none =>
        refine ⟨slot, ?_, hartifact, Nat.le_refl _⟩
        show ((rule slot.value).map _).or _ = _
        rw [hstored]
        rfl
      | some stored =>
        rw [hstored] at hnext
        refine ⟨⟨stored, t.world.now⟩, ?_, hnext⟩
        show ((rule slot.value).map _).or _ = _
        rw [hstored]
        rfl

/-- A run that keeps the slot of a compiled query keeps its artifact, and its count only grows. -/
theorem compiled_of_stays {t : Traffic L σ} {key : Fingerprint} {slot : Slot (Entry L.Artifact)}
    (hslot : t.world.cache.slot? key = some slot) {artifact : L.Artifact}
    (hartifact : slot.value.artifact? = some artifact) {events : List (Event L σ)}
    (hclients : ∀ event ∈ events, ∀ key, ¬event.Writes key) (hstays : t.Stays key events) :
    ∃ slot', (t.run events).world.cache.slot? key = some slot' ∧
      slot'.value.artifact? = some artifact ∧
      slot.value.occurrences ≤ slot'.value.occurrences := by
  induction events generalizing t slot with
  | nil => exact ⟨slot, hslot, hartifact, Nat.le_refl _⟩
  | cons event events ih =>
    obtain ⟨hevent, hrest⟩ := List.forall_mem_cons.mp hclients
    obtain ⟨hkept, hlater⟩ := hstays
    obtain ⟨slot', hslot', hartifact', hle⟩ :=
      compiled_after_of_not_removes hslot hartifact hevent hkept
    obtain ⟨last, hlast, hartifact'', hle'⟩ := ih hslot' hartifact' hrest hlater
    exact ⟨last, hlast, hartifact'', hle.trans hle'⟩

/-- After a request has stored what it has compiled, the slot holds an artifact and no smaller
    count. -/
theorem slot?_after_adopting {t : Traffic L σ} {i : Nat} {job : Job L σ}
    (hjob : t.jobs[i]? = some job) {fresh : L.Artifact} {n : Nat}
    (hphase : job.phase = .adopting fresh n) :
    ∃ slot artifact, (t.after (.step i)).world.cache.slot? job.key = some slot ∧
      slot.value.artifact? = some artifact ∧ n ≤ slot.value.occurrences := by
  have haccess := access?_step hjob
  rw [Job.rule?, hphase] at haccess
  have hcache := t.cache_after (.step i)
  rw [haccess] at hcache
  rw [hcache.1, Job.key, QueryCache.slot?_revise_self]
  have hentry := QueryCache.entry_eq_of_liveSlot? t.world.cache t.world.now job.request.query
  cases hstored : ((t.world.cache.entry t.world.now job.request.query).adopt n fresh).1 with
  | some stored =>
    have heq := Entry.eq_of_adopt hstored
    refine ⟨⟨stored, t.world.now⟩, _, rfl, congrArg Entry.artifact? heq, ?_⟩
    rw [heq]
    exact Nat.le_max_left _ _
  | none =>
    -- nothing is stored where there is an artifact with a count that is large enough
    have hkept := hstored
    unfold Entry.adopt at hkept
    split at hkept
    next kept hfound =>
      split at hkept
      next hle =>
        cases hlive : t.world.cache.liveSlot? t.world.now (.ofText job.request.query) with
        | none =>
          rw [hentry, hlive] at hfound
          cases hfound
        | some slot =>
          rw [hentry, hlive] at hfound hle
          exact ⟨slot, kept, rfl, hfound, hle⟩
      next => cases hkept
    next => cases hkept

/-- In every reachable state every stored entry is justified, and the artifact of a compiled one was
    stored by a request to an executor whose threshold the count has reached; after any request
    has stored what it has compiled, the count stays at its executor's threshold or above until the
    slot is removed; and where no threshold is above one, every entry is compiled or a failure. -/
theorem entries_justified {world : World L σ} (hempty : world.cache.slots = [])
    {events : List (Event L σ)} (hclients : ∀ event ∈ events, ∀ key, ¬event.Writes key) :
    let start : Traffic L σ := ⟨world, []⟩
    let t := start.run events
    (∀ p ∈ t.world.cache.slots, t.Justified p.2.value ∧
      ∀ artifact, p.2.value.artifact? = some artifact →
        ∃ job, start.StoredBy events p.1 artifact job ∧
          job.server.executor.tiering.due ≤ p.2.value.occurrences) ∧
    (∀ earlier i later job fresh n, events = earlier ++ .step i :: later →
      (start.run earlier).jobs[i]? = some job → job.phase = .adopting fresh n →
      ((start.run earlier).after (.step i)).Stays job.key later →
      ∃ slot, t.world.cache.slot? job.key = some slot ∧ slot.value.isCompiled = true ∧
        job.server.executor.tiering.due ≤ slot.value.occurrences) ∧
    ((∀ job ∈ t.jobs, job.server.executor.tiering.threshold.toNat ≤ 1) →
      ∀ p ∈ t.world.cache.slots, p.2.value.isCompiled = true ∨ p.2.value.declined = true) := by
  intro start t
  -- the invariant holds of each slot by the record of plans for its own key
  have hjustified : ∀ p ∈ t.world.cache.slots, t.Justified p.2.value := by
    intro p hp
    refine justified_run (ledger_nil hempty p.1) nofun ?_ hclients p.2 (RecencyMap.slot?_of_mem hp)
    intro slot hslot
    rw [RecencyMap.slot?, hempty] at hslot
    cases hslot
  refine ⟨?_, ?_, ?_⟩
  · intro p hp
    exact ⟨hjustified p hp,
      fun artifact => storedBy_run hempty hclients (RecencyMap.slot?_of_mem hp)⟩
  · -- what a request stores was due when it planned, and counts do not fall while the slot stays
    rintro earlier i later job fresh n rfl hjob hphase hstays
    have hclients' : ∀ event ∈ earlier, ∀ key, ¬event.Writes key :=
      fun event hevent => hclients event (List.mem_append_left _ hevent)
    have hlater : ∀ event ∈ later, ∀ key, ¬event.Writes key :=
      fun event hevent => hclients event
        (List.mem_append_right _ (List.mem_cons_of_mem _ hevent))
    obtain ⟨-, -, hdue⟩ := (ledger_run (ledger_nil hempty job.key) hclients').carried i job n hjob
      rfl (by rw [hphase]; rfl)
    obtain ⟨slot, artifact, hslot, hartifact, hn⟩ := slot?_after_adopting hjob hphase
    obtain ⟨last, hlast, hcompiled, hle⟩ := compiled_of_stays hslot hartifact hlater hstays
    refine ⟨last, ?_, ?_, hdue.trans (hn.trans hle)⟩
    · show (start.run (earlier ++ .step i :: later)).world.cache.slot? job.key = some last
      rw [run_append, run_cons]
      exact hlast
    · rw [Entry.isCompiled, hcompiled]
      rfl
  · intro hthresholds p hp
    have hentry := hjustified p hp
    by_contra hplain
    rw [not_or, Bool.not_eq_true, Bool.not_eq_true] at hplain
    -- a plain entry has counted an occurrence and is below a threshold of at most one
    obtain ⟨job, hjob, hbelow⟩ := hentry.plain hplain.1 hplain.2
    have hone := hentry.counted
    have hle := hthresholds job hjob
    omega

/-- One executor compiles its query, while another remembers that its own cannot be compiled. -/
def echoSides : List (Event echoLanguage Unit) :=
  [.arrive (echoServer 0 {}) (echoRequest "a"),
    .arrive (echoServer 1 { onDecline := .remember }) (echoRequest "#"),
    .step 0, .step 1, .step 0, .step 1, .step 0, .step 1, .step 0, .step 1, .step 0, .step 1,
    .step 0, .step 1]

/-- Both entries are justified, the failure by the second executor and the artifact by the first. -/
theorem entries_justified_echoSides :
    ((⟨echoWorld 2, []⟩ : Traffic echoLanguage Unit).run echoSides).world.cache.slots.map
      (·.2.value) = [.notCompilable 1, .compiled 1 "a"] ∧
    ∀ p ∈ ((⟨echoWorld 2, []⟩ : Traffic echoLanguage Unit).run echoSides).world.cache.slots,
      ((⟨echoWorld 2, []⟩ : Traffic echoLanguage Unit).run echoSides).Justified p.2.value ∧
      ∀ artifact, p.2.value.artifact? = some artifact →
        ∃ job, (⟨echoWorld 2, []⟩ : Traffic echoLanguage Unit).StoredBy echoSides p.1 artifact job ∧
          job.server.executor.tiering.due ≤ p.2.value.occurrences := by
  have hempty : (echoWorld 2).cache.slots = [] := rfl
  have hclients : ∀ event ∈ echoSides, ∀ key, ¬event.Writes key := by
    simp [echoSides, Event.Writes]
  obtain ⟨hentries, -, -⟩ := entries_justified hempty hclients
  exact ⟨by decide +kernel, hentries⟩

end Traffic
end TieredQuery
