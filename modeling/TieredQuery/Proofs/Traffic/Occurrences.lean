import TieredQuery.Proofs.Dispatch.PureEngine
import TieredQuery.Proofs.Dispatch.Succession
import TieredQuery.Proofs.Session.Standing
import TieredQuery.Proofs.Traffic.Removal

/-!
# Occurrences are neither invented nor lost

The valid occurrences of a query are the requests that have planned it. Counts of them are kept in
two places: in the entry of the query, and in the requests that have planned to compile it and will
store their count with what they find out. Neither kind of count ever exceeds the number of valid
occurrences, whatever the order of the steps and whatever is removed from the cache meanwhile. So
no query is compiled before it is due. As long as the entry stays and no request has planned to
compile the query, the stored count is the number of valid occurrences.

`plans` records the plans made for the queries of a key, with the number of the request that made
each. The invariant `Ledger` ties this record to the counts and to the requests.

## Key results

- `carried?_step`, `occurrences_of_rule?`: how one step changes the counts
- `ledger_after`, `ledger_run`: the record is kept by one event and by a whole run
- `counts_after`: while nothing is removed or compiled, the stored count follows the record
- `occurrences_conserved`
-/

namespace TieredQuery

variable {L : Language} {σ : Type}

/-! ## The counts that requests carry -/

/-- The count that a request carries once it has planned to compile its query. -/
def Phase.carried? : Phase L → Option Nat
  | compiling _ occurrences | adopting _ occurrences | declining _ occurrences => some occurrences
  | _ => none

/-- A query is planned to be compiled as the next occurrence, and not before it is due. -/
theorem Entry.eq_of_plan_compile {A : Type} {tiering : Tiering} {entry : Entry A} {n : Nat}
    (h : (entry.plan tiering).2 = .compile n) :
    entry.artifact? = none ∧ n = entry.occurrences + 1 ∧ tiering.due ≤ n := by
  cases hartifact : entry.artifact? with
  | some artifact =>
    rw [Entry.plan_of_artifact? tiering hartifact] at h
    cases h
  | none =>
    rcases Entry.plan_of_artifact?_eq_none tiering hartifact with
      ⟨-, -, hplan⟩ | ⟨hreached, hplan⟩ | ⟨-, hplan⟩
    · rw [hplan] at h
      cases h
    · rw [hplan] at h
      cases h
      exact ⟨rfl, rfl, (due_le_succ_iff tiering _).mpr hreached⟩
    · rw [hplan] at h
      cases h

/-- A request carries the count with which it planned its query until it stores it. -/
theorem Executor.carried?_step (executor : Executor L) (engine : Engine L σ)
    (request : Request L) {phase : Phase L} {w : World L σ} {n : Nat}
    (h : (executor.step engine request phase w).1.carried? = some n) :
    phase.carried? = some n ∨ ∃ document, phase = .planning document ∧
      ((w.cache.entry w.now request.query).plan executor.tiering).2 = .compile n := by
  have hleads := executor.leadsTo_step engine request phase w
  generalize (executor.step engine request phase w).1 = next at h hleads
  -- a count is taken up by the plan to compile, and carried on by the request that has compiled
  cases hleads with
  | due hplan =>
    cases h
    exact Or.inr ⟨_, rfl, hplan⟩
  | compiled _ | declined _ _ => exact Or.inl h
  | _ => cases h

/-- A request stores one occurrence more than it finds, or the larger of the count that it carries
    and the one that it finds. -/
theorem Phase.occurrences_of_rule? {tiering : Tiering} {phase : Phase L}
    {rule : Entry L.Artifact → Option (Entry L.Artifact)} (hrule : phase.rule? tiering = some rule)
    {entry stored : Entry L.Artifact} (hstored : rule entry = some stored) :
    (∃ document, phase = .planning document ∧ stored.occurrences = entry.occurrences + 1) ∨
      ∃ n, phase.carried? = some n ∧ stored.occurrences = max n entry.occurrences := by
  -- Case split on the phase: planning counts one more, finishing takes the larger count.
  cases phase with
  | arrived =>
    cases hrule
    cases hstored
  | planning document =>
    cases hrule
    left
    refine ⟨document, rfl, ?_⟩
    dsimp only at hstored
    cases hartifact : entry.artifact? with
    | some artifact =>
      rw [Entry.plan_of_artifact? tiering hartifact] at hstored
      cases hstored
    | none =>
      rcases Entry.plan_of_artifact?_eq_none tiering hartifact with
        ⟨-, -, hplan⟩ | ⟨-, hplan⟩ | ⟨-, hplan⟩ <;> rw [hplan] at hstored <;> cases hstored <;> rfl
  | adopting fresh occurrences =>
    cases hrule
    have heq := Entry.eq_of_adopt hstored
    exact Or.inr ⟨occurrences, rfl, congrArg Entry.occurrences heq⟩
  | declining document occurrences =>
    cases hrule
    have heq := (Entry.eq_of_decline hstored).2
    exact Or.inr ⟨occurrences, rfl, congrArg Entry.occurrences heq⟩
  | _ => cases hrule

/-- The compiler is called by the requests that have planned to compile their query. -/
theorem Executor.phase_of_compiles_made {executor : Executor L} {engine : Engine L σ}
    {request : Request L} {phase : Phase L} {w : World L σ}
    (h : Call.compiles (executor.made engine request phase w) = true) :
    ∃ n, phase.carried? = some n := by
  cases phase with
  | compiling document occurrences => exact ⟨occurrences, rfl⟩
  | settled counted verdict response =>
    rw [executor.made_of_settled engine request rfl] at h
    cases h
  | _ => cases h

/-- No step leads back to an earlier phase. -/
theorem Executor.rank_step_le (executor : Executor L) (engine : Engine L σ) (request : Request L)
    (phase : Phase L) (w : World L σ) :
    (executor.step engine request phase w).1.rank ≤ phase.rank := by
  cases hphase : phase.response? with
  | none => exact Nat.le_of_lt (executor.rank_step_lt engine request phase w hphase)
  | some response =>
    cases phase with
    | done verdict response => exact Nat.le_refl _
    | _ => cases hphase

namespace Traffic

/-! ## The record of plans -/

/-- The plan that an event makes for a query of a key, with the number of the request that makes
    it. -/
def plan? (key : Fingerprint) (t : Traffic L σ) : Event L σ → Option (Nat × Plan L.Artifact)
  | .step i => t.jobs[i]?.bind fun job =>
    match job.phase with
    | .planning _ =>
      if job.key = key then
        some (i, ((t.world.cache.entry t.world.now job.request.query).plan
          job.server.executor.tiering).2)
      else none
    | _ => none
  | _ => none

/-- The plans made for the queries of a key in a run, in order: its valid occurrences. -/
def plans (key : Fingerprint) (t : Traffic L σ) : List (Event L σ) → List (Nat × Plan L.Artifact)
  | [] => []
  | event :: events => (t.plan? key event).toList ++ plans key (t.after event) events

/-- A plan is made by the step of a request that is to plan a query of the key. -/
theorem plan?_eq_some_iff {key : Fingerprint} {t : Traffic L σ} {event : Event L σ}
    {i : Nat} {plan : Plan L.Artifact} :
    t.plan? key event = some (i, plan) ↔ ∃ job document, event = .step i ∧
      t.jobs[i]? = some job ∧ job.key = key ∧ job.phase = .planning document ∧
      ((t.world.cache.entry t.world.now job.request.query).plan
        job.server.executor.tiering).2 = plan := by
  constructor
  · intro h
    cases event with
    | step j =>
      obtain ⟨job, hjob, hplan⟩ := Option.bind_eq_some_iff.mp h
      split at hplan
      next document hphase =>
        split at hplan
        next hkey =>
          cases hplan
          exact ⟨job, document, rfl, hjob, hkey, hphase, rfl⟩
        next => cases hplan
      next => cases hplan
    | _ => cases h
  · -- read the other way, the conditions are those that `plan?` checks
    rintro ⟨job, document, rfl, hjob, hkey, hphase, rfl⟩
    simp [plan?, hjob, hphase, hkey]

/-- A request that is there after an event was there before, has just taken a step, or is new. -/
theorem job_of_after {t : Traffic L σ} {event : Event L σ} {i : Nat} {job : Job L σ}
    (h : (t.after event).jobs[i]? = some job) :
    t.jobs[i]? = some job ∨
      (∃ before, event = .step i ∧ t.jobs[i]? = some before ∧ job = (before.step t.world).1) ∨
      ∃ server request, job = { server, request } := by
  cases hbefore : t.jobs[i]? with
  | some before =>
    by_cases hown : event = .step i
    · subst hown
      rw [job_after_step hbefore] at h
      cases h
      exact Or.inr (Or.inl ⟨before, rfl, rfl, rfl⟩)
    · rw [job_after_of_ne hbefore hown] at h
      exact Or.inl h
  | none =>
    -- a number that was not in use belongs to a request that has just arrived
    right
    right
    have hlen := List.getElem?_eq_none_iff.mp hbefore
    cases event with
    | arrive server request =>
      rw [after, List.getElem?_append_right hlen] at h
      obtain ⟨hlt, hjob⟩ := List.getElem?_eq_some_iff.mp h
      exact ⟨server, request, by simpa using hjob.symm⟩
    | step j =>
      obtain ⟨hlt, -⟩ := List.getElem?_eq_some_iff.mp h
      cases hj : t.jobs[j]? with
      | none =>
        rw [after_step_of_none hj] at hlt
        omega
      | some other =>
        rw [after_step hj, List.length_set] at hlt
        omega
    | _ =>
      obtain ⟨hlt, -⟩ := List.getElem?_eq_some_iff.mp h
      exact absurd hlt (Nat.not_lt.mpr hlen)

/-- What the plans made for the queries of a key say about the counts and the requests. -/
structure Ledger (key : Fingerprint) (made : List (Nat × Plan L.Artifact)) (t : Traffic L σ) :
    Prop where
  reached : ∀ job ∈ t.jobs, job.phase.Reached job.server.executor job.request job.calls
  /-- Every plan was made by a request for a query of the key that was found valid, and that has
      gone on since. -/
  planned : ∀ p ∈ made, ∃ job, t.jobs[p.1]? = some job ∧ job.key = key ∧ job.phase.rank < 7 ∧
    ∃ document, Phase.checks job.server.executor job.request document <+: job.calls
  distinct : (made.map (·.1)).Nodup
  carried : ∀ i job n, t.jobs[i]? = some job → job.key = key → job.phase.carried? = some n →
    (i, .compile n) ∈ made ∧ n ≤ made.length ∧ job.server.executor.tiering.due ≤ n
  stored : ∀ slot, t.world.cache.slot? key = some slot → slot.value.occurrences ≤ made.length

/-- Before any request has arrived, nothing is planned, counted or stored. -/
theorem ledger_nil {world : World L σ} (hempty : world.cache.slots = []) (key : Fingerprint) :
    (⟨world, []⟩ : Traffic L σ).Ledger key [] where
  reached := nofun
  planned := nofun
  distinct := List.nodup_nil
  carried := nofun
  stored slot hslot := by
    rw [RecencyMap.slot?, hempty] at hslot
    cases hslot

section Ledger

variable {key : Fingerprint} {made : List (Nat × Plan L.Artifact)} {t : Traffic L σ}
  {event : Event L σ}

/-- The entry that is read for a query of the key counts no more than the plans made. -/
theorem occurrences_le_of_ledger (hledger : t.Ledger key made) {text : String}
    (hkey : Fingerprint.ofText text = key) :
    (t.world.cache.entry t.world.now text).occurrences ≤ made.length := by
  rw [QueryCache.entry_eq_of_liveSlot?, hkey]
  cases hlive : t.world.cache.liveSlot? t.world.now key with
  | none => exact Nat.zero_le _
  | some slot => exact hledger.stored slot (RecencyMap.liveSlot?_eq_some_iff.mp hlive).1

/-- A request that has planned its query stays one that has. -/
theorem planned_after {i : Nat} {job : Job L σ} (hjob : t.jobs[i]? = some job)
    (hrank : job.phase.rank < 7) {document : L.Document}
    (hchecks : Phase.checks job.server.executor job.request document <+: job.calls)
    (event : Event L σ) :
    ∃ job', (t.after event).jobs[i]? = some job' ∧ job'.key = job.key ∧ job'.phase.rank < 7 ∧
      ∃ document, Phase.checks job'.server.executor job'.request document <+: job'.calls := by
  by_cases hown : event = .step i
  · subst hown
    have hle := job.server.executor.rank_step_le job.server.engine job.request job.phase t.world
    refine ⟨_, job_after_step hjob, rfl, Nat.lt_of_le_of_lt hle hrank, document, ?_⟩
    exact hchecks.trans (List.prefix_append _ _)
  · exact ⟨job, job_after_of_ne hjob hown, rfl, hrank, document, hchecks⟩

/-- The request whose step makes a plan has planned its query after it. -/
theorem planned_of_plan? (hledger : t.Ledger key made) {p : Nat × Plan L.Artifact}
    (hplan : t.plan? key event = some p) :
    ∃ job, (t.after event).jobs[p.1]? = some job ∧ job.key = key ∧ job.phase.rank < 7 ∧
      ∃ document, Phase.checks job.server.executor job.request document <+: job.calls := by
  obtain ⟨i, plan⟩ := p
  obtain ⟨job, document, rfl, hjob, hkey, hphase, -⟩ := plan?_eq_some_iff.mp hplan
  have hlt := job.server.executor.rank_step_lt job.server.engine job.request job.phase t.world
    (by rw [hphase]; rfl)
  have hcalls := hledger.reached job (List.mem_of_getElem? hjob)
  rw [hphase] at hlt hcalls
  refine ⟨_, job_after_step hjob, hkey, ?_, document, ?_⟩
  · rw [Job.step, hphase]
    exact hlt
  · rw [Job.step, show job.calls = _ from hcalls]
    exact List.prefix_append _ _

/-- A request plans its query only once. -/
theorem not_mem_of_plan? (hledger : t.Ledger key made) {p : Nat × Plan L.Artifact}
    (hplan : t.plan? key event = some p) : p.1 ∉ made.map (·.1) := by
  intro hmem
  obtain ⟨i, plan⟩ := p
  obtain ⟨job, document, -, hjob, -, hphase, -⟩ := plan?_eq_some_iff.mp hplan
  obtain ⟨q, hq, hnumber⟩ := List.mem_map.mp hmem
  obtain ⟨other, hother, -, hrank, -⟩ := hledger.planned q hq
  -- the request with that number would be past planning and planning at once
  rw [hnumber, hjob] at hother
  cases hother
  rw [hphase] at hrank
  exact Nat.lt_irrefl _ hrank

/-- One event keeps the record. -/
theorem ledger_after (hledger : t.Ledger key made) (hclients : ∀ key, ¬event.Writes key) :
    (t.after event).Ledger key (made ++ (t.plan? key event).toList) := by
  constructor
  case reached => exact reached_run t [event] hledger.reached
  case planned =>
    intro p hp
    rcases List.mem_append.mp hp with hold | hnew
    · obtain ⟨job, hjob, hkey, hrank, document, hchecks⟩ := hledger.planned p hold
      obtain ⟨job', hjob', hkey', hplanned⟩ := planned_after hjob hrank hchecks event
      exact ⟨job', hjob', hkey'.trans hkey, hplanned⟩
    · exact planned_of_plan? hledger (Option.mem_toList.mp hnew)
  case distinct =>
    rw [List.map_append]
    refine List.Nodup.append hledger.distinct ?_ ?_
    · cases t.plan? key event with
      | none => exact List.nodup_nil
      | some p => exact List.nodup_singleton _
    · intro i hold hnew
      obtain ⟨p, hp, rfl⟩ := List.mem_map.mp hnew
      exact not_mem_of_plan? hledger (Option.mem_toList.mp hp) hold
  case carried =>
    intro i job n hjob hkey hcarried
    rcases job_of_after hjob with hold | ⟨before, rfl, hbefore, rfl⟩ | ⟨server, request, rfl⟩
    · obtain ⟨hmem, hle, hdue⟩ := hledger.carried i job n hold hkey hcarried
      exact ⟨List.mem_append_left _ hmem, by rw [List.length_append]; omega, hdue⟩
    · rcases before.server.executor.carried?_step before.server.engine before.request hcarried with
        hcarried' | ⟨document, hphase, hplan⟩
      · obtain ⟨hmem, hle, hdue⟩ := hledger.carried i before n hbefore hkey hcarried'
        exact ⟨List.mem_append_left _ hmem, by rw [List.length_append]; omega, hdue⟩
      · -- the request has just planned to compile its query, as the occurrence after those stored
        obtain ⟨-, hn, hdue⟩ := Entry.eq_of_plan_compile hplan
        have hkey' : Fingerprint.ofText before.request.query = key := hkey
        have hle := occurrences_le_of_ledger hledger hkey'
        have hnew : t.plan? key (.step i) = some (i, .compile n) :=
          plan?_eq_some_iff.mpr ⟨before, document, rfl, hbefore, hkey, hphase, hplan⟩
        rw [hnew]
        refine ⟨List.mem_append_right _ (List.mem_singleton_self _), ?_, hdue⟩
        rw [List.length_append, Option.toList_some, List.length_singleton]
        omega
    · cases hcarried
  case stored =>
    intro slot hslot
    rw [List.length_append]
    rcases slot?_after_eq_some hslot with ⟨hold, -⟩ | ⟨text, rule, haccess, hkey, hstored⟩
    · have hle := hledger.stored slot hold
      omega
    · rcases access?_of_not_writes hclients haccess with hread | ⟨i, job, rfl, hjob, rfl, hrule⟩
      · rw [hread] at hstored
        cases hstored
      · have hle := occurrences_le_of_ledger hledger hkey
        rcases Phase.occurrences_of_rule? hrule hstored with
          ⟨document, hphase, hcount⟩ | ⟨n, hcarried, hcount⟩
        · -- the occurrence that is counted is the one that is planned by this step
          have hnew : t.plan? key (.step i) = some (i, _) :=
            plan?_eq_some_iff.mpr ⟨job, document, rfl, hjob, hkey, hphase, rfl⟩
          rw [hnew, Option.toList_some, List.length_singleton]
          omega
        · have hn := (hledger.carried i job n hjob hkey hcarried).2.1
          omega

/-- A run keeps the record. -/
theorem ledger_run (hledger : t.Ledger key made) {events : List (Event L σ)}
    (hclients : ∀ event ∈ events, ∀ key, ¬event.Writes key) :
    (t.run events).Ledger key (made ++ t.plans key events) := by
  -- Induction on the events: the plans made so far go into the record.
  induction events generalizing t made with
  | nil =>
    rw [plans, List.append_nil]
    exact hledger
  | cons event events ih =>
    obtain ⟨hevent, hrest⟩ := List.forall_mem_cons.mp hclients
    rw [plans, ← List.append_assoc]
    exact ih (ledger_after hledger hevent) hrest

end Ledger

/-! ## Where the count is exact -/

/-- The count stored for a key: that of its slot, zero if there is none. -/
def storedCount (key : Fingerprint) (t : Traffic L σ) : Nat :=
  (t.world.cache.slot? key).elim 0 (·.value.occurrences)

/-- The slot of a key, if there is one, holds a count and no artifact. -/
structure Counts (key : Fingerprint) (n : Nat) (t : Traffic L σ) : Prop where
  uncompiled : ∀ slot, t.world.cache.slot? key = some slot → slot.value.artifact? = none
  count : t.storedCount key = n

/-- The count of a key is a matter of its slot alone. -/
theorem counts_of_slot?_eq {key : Fingerprint} {n : Nat} {t t' : Traffic L σ}
    (hslot : t'.world.cache.slot? key = t.world.cache.slot? key) (h : t.Counts key n) :
    t'.Counts key n :=
  ⟨fun slot hslot' => h.uncompiled slot (hslot ▸ hslot'),
    by rw [storedCount, hslot]; exact h.count⟩

/-- The entry read at an access that does not take the slot away has the count of the slot. -/
theorem entry_of_counts {text : String} {n : Nat} {t : Traffic L σ}
    (h : t.Counts (.ofText text) n) {event : Event L σ}
    {rule : Entry L.Artifact → Option (Entry L.Artifact)}
    (hstays : ¬t.Removes (.ofText text) event) (haccess : t.access? event = some (text, rule)) :
    (t.world.cache.entry t.world.now text).artifact? = none ∧
      (t.world.cache.entry t.world.now text).occurrences = n := by
  have hcount := h.count
  rw [storedCount] at hcount
  rw [entry_of_not_removes hstays haccess]
  cases hslot : t.world.cache.slot? (.ofText text) with
  | none =>
    rw [hslot] at hcount
    exact ⟨rfl, hcount⟩
  | some slot =>
    rw [hslot] at hcount
    exact ⟨h.uncompiled slot hslot, hcount⟩

/-- A query without an artifact that is not planned to be compiled is counted once more. -/
theorem counted_of_plan {A : Type} (tiering : Tiering) {entry : Entry A}
    (hopen : entry.artifact? = none) (hplan : ∀ n, (entry.plan tiering).2 ≠ .compile n) :
    ∃ stored, (entry.plan tiering).1 = some stored ∧ stored.artifact? = none ∧
      stored.occurrences = entry.occurrences + 1 := by
  rcases Entry.plan_of_artifact?_eq_none tiering hopen with
    ⟨-, -, heq⟩ | ⟨-, heq⟩ | ⟨-, heq⟩
  · exact ⟨_, by rw [heq], rfl, rfl⟩
  · exact absurd (by rw [heq]) (hplan _)
  · exact ⟨_, by rw [heq], rfl, rfl⟩

/-- While no plan is to compile the query and the slot stays, one event leaves the count at the
    number of plans. -/
theorem counts_after {key : Fingerprint} {made : List (Nat × Plan L.Artifact)} {t : Traffic L σ}
    {event : Event L σ} (hledger : t.Ledger key made) (hclients : ∀ key, ¬event.Writes key)
    (hplans : ∀ p ∈ made ++ (t.plan? key event).toList, ∀ n, p.2 ≠ .compile n)
    (hstays : ¬t.Removes key event) (h : t.Counts key made.length) :
    (t.after event).Counts key (made ++ (t.plan? key event).toList).length := by
  -- no request carries a count, for it would have planned to compile the query
  have hfree : ∀ (i : Nat) (job : Job L σ) n, t.jobs[i]? = some job → job.key = key →
      job.phase.carried? ≠ some n := by
    intro i job n hjob hkey hcarried
    have hmem := (hledger.carried i job n hjob hkey hcarried).1
    exact hplans _ (List.mem_append_left _ hmem) n rfl
  cases hplan : t.plan? key event with
  | some p =>
    obtain ⟨i, plan⟩ := p
    obtain ⟨job, document, rfl, hjob, rfl, hphase, heq⟩ := plan?_eq_some_iff.mp hplan
    have haccess := access?_step hjob
    rw [Job.rule?, hphase] at haccess
    obtain ⟨hopen, hcount⟩ := entry_of_counts h hstays haccess
    have hnot : ∀ n, plan ≠ .compile n :=
      hplans _ (List.mem_append_right _ (Option.mem_toList.mpr hplan))
    obtain ⟨stored, hstored, huncompiled, hoccurrences⟩ :=
      counted_of_plan job.server.executor.tiering hopen (by rw [heq]; exact hnot)
    have hafter : (t.after (.step i)).world.cache.slot? job.key = some ⟨stored, t.world.now⟩ := by
      rw [Job.key, slot?_after_of_accessed hstays haccess, hstored]
      rfl
    constructor
    · intro slot hslot
      rw [hafter] at hslot
      cases hslot
      exact huncompiled
    · rw [storedCount, hafter, List.length_append, Option.toList_some, List.length_singleton,
        ← hcount]
      exact hoccurrences
  | none =>
    rw [Option.toList_none, List.append_nil]
    refine counts_of_slot?_eq ?_ h
    by_cases hother : ∀ text rule, t.access? event = some (text, rule) →
        Fingerprint.ofText text ≠ key
    · exact slot?_after_of_not_accessed hstays hother
    · push Not at hother
      obtain ⟨text, rule, haccess, rfl⟩ := hother
      -- an access that plans nothing is a read, so it stores nothing
      have hnone : rule (t.world.cache.entry t.world.now text) = none := by
        rcases access?_of_not_writes hclients haccess with hread | ⟨i, job, rfl, hjob, rfl, hrule⟩
        · exact hread _
        · cases hstored : rule (t.world.cache.entry t.world.now job.request.query) with
          | none => rfl
          | some stored =>
            rcases Phase.occurrences_of_rule? hrule hstored with
              ⟨document, hphase, -⟩ | ⟨n, hcarried, -⟩
            · have hsome := plan?_eq_some_iff.mpr ⟨job, document, rfl, hjob, rfl, hphase, rfl⟩
              rw [Job.key, hplan] at hsome
              cases hsome
            · exact absurd hcarried (hfree i job n hjob rfl)
      rw [slot?_after_of_accessed hstays haccess, hnone]
      rfl

/-- While no plan of a run is to compile the query and the slot stays, the count is the number of
    plans. -/
theorem counts_run {key : Fingerprint} {made : List (Nat × Plan L.Artifact)} {t : Traffic L σ}
    (hledger : t.Ledger key made) {events : List (Event L σ)}
    (hclients : ∀ event ∈ events, ∀ key, ¬event.Writes key)
    (hplans : ∀ p ∈ made ++ t.plans key events, ∀ n, p.2 ≠ .compile n)
    (hstays : t.Stays key events) (h : t.Counts key made.length) :
    (t.run events).Counts key (made ++ t.plans key events).length := by
  induction events generalizing t made with
  | nil =>
    rw [plans, List.append_nil]
    exact h
  | cons event events ih =>
    obtain ⟨hevent, hrest⟩ := List.forall_mem_cons.mp hclients
    rw [plans, ← List.append_assoc] at hplans ⊢
    have hfirst : ∀ p ∈ made ++ (t.plan? key event).toList, ∀ n, p.2 ≠ .compile n :=
      fun p hp => hplans p (List.mem_append_left _ hp)
    exact ih (ledger_after hledger hevent) hrest hplans hstays.2
      (counts_after hledger hevent hfirst hstays.1 h)

/-- Whatever the interleaving, neither the count stored for a key nor one carried by a request
    exceeds the number of valid occurrences of its queries, each of which is the plan of a request
    of its own; an executor calls the compiler only when the valid occurrences, that of the request
    among them, have reached its threshold; and the stored count is exact as long as its slot stays
    and no request has planned to compile the query. -/
theorem occurrences_conserved {world : World L σ} (hempty : world.cache.slots = [])
    {events : List (Event L σ)} (hclients : ∀ event ∈ events, ∀ key, ¬event.Writes key)
    (key : Fingerprint) :
    let start : Traffic L σ := ⟨world, []⟩
    let t := start.run events
    let plans := start.plans key events
    ((plans.map (·.1)).Nodup ∧ ∀ p ∈ plans, ∃ job, t.jobs[p.1]? = some job ∧ job.key = key ∧
      ∃ document, Phase.checks job.server.executor job.request document <+: job.calls) ∧
    t.storedCount key ≤ plans.length ∧
    (∀ i job, t.jobs[i]? = some job → job.key = key →
      (∀ n, job.phase.carried? = some n → n ≤ plans.length) ∧
      (Call.compiles (job.server.executor.made job.server.engine job.request job.phase t.world) =
          true →
        job.server.executor.tiering.due ≤ plans.length ∧ ∃ n, (i, .compile n) ∈ plans)) ∧
    (start.Stays key events → (∀ p ∈ plans, ∀ n, p.2 ≠ .compile n) →
      t.storedCount key = plans.length) := by
  intro start t plans
  have hstart := ledger_nil hempty key
  have hledger : t.Ledger key plans := ledger_run hstart hclients
  refine ⟨⟨hledger.distinct, ?_⟩, ?_, ?_, ?_⟩
  · -- each plan was made by a request that is still there
    intro p hp
    obtain ⟨job, hjob, hkey, -, hchecks⟩ := hledger.planned p hp
    exact ⟨job, hjob, hkey, hchecks⟩
  · rw [storedCount]
    cases hslot : t.world.cache.slot? key with
    | none => exact Nat.zero_le _
    | some slot => exact hledger.stored slot hslot
  · intro i job hjob hkey
    constructor
    · intro n hcarried
      exact (hledger.carried i job n hjob hkey hcarried).2.1
    · intro hcompiles
      obtain ⟨n, hcarried⟩ := Executor.phase_of_compiles_made hcompiles
      obtain ⟨hmem, hle, hdue⟩ := hledger.carried i job n hjob hkey hcarried
      exact ⟨hdue.trans hle, n, hmem⟩
  · -- the record starts out empty, and the count at zero
    intro hstays hplans
    have hnone : start.world.cache.slot? key = none := by
      rw [RecencyMap.slot?, hempty]
      rfl
    have hcounts : start.Counts key ([] : List (Nat × Plan L.Artifact)).length := by
      constructor
      · intro slot hslot
        rw [hnone] at hslot
        cases hslot
      · rw [storedCount, hnone]
        rfl
    exact (counts_run hstart hclients hplans hstays hcounts).count

/-- Two requests for one query are found valid and planned side by side. -/
def echoPair : List (Event echoLanguage Unit) :=
  [.arrive (echoServer 0 { threshold := 3 }) (echoRequest "a"),
    .arrive (echoServer 1 { threshold := 4 }) (echoRequest "a"),
    .step 0, .step 1, .step 1, .step 0, .step 1, .step 0, .step 0, .step 1]

/-- The slot of the query stays meanwhile, so its count is the number of the two plans. -/
theorem occurrences_conserved_echoPair :
    (⟨echoWorld 1, []⟩ : Traffic echoLanguage Unit).plans (.ofText "a") echoPair =
      [(0, .interpret), (1, .interpret)] ∧
    ((⟨echoWorld 1, []⟩ : Traffic echoLanguage Unit).run echoPair).storedCount
      (.ofText "a") = 2 := by
  obtain ⟨hstays, hplans⟩ :
      (⟨echoWorld 1, []⟩ : Traffic echoLanguage Unit).Stays (.ofText "a") echoPair ∧
      (⟨echoWorld 1, []⟩ : Traffic echoLanguage Unit).plans (.ofText "a") echoPair =
        [(0, .interpret), (1, .interpret)] := by decide +kernel
  have hclients : ∀ event ∈ echoPair, ∀ key, ¬event.Writes key := by
    simp [echoPair, Event.Writes]
  have hempty : (echoWorld 1).cache.slots = [] := rfl
  obtain ⟨-, -, -, hexact⟩ := occurrences_conserved hempty hclients (.ofText "a")
  refine ⟨hplans, ?_⟩
  rw [hplans] at hexact
  exact hexact hstays (by simp)

end Traffic
end TieredQuery
