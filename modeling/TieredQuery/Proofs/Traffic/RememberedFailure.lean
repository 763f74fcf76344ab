import TieredQuery.Proofs.Traffic.Occurrences

/-!
# Failures to compile stay remembered

Once a request has stored that its query cannot be compiled, the entry goes on saying so, while its
count only grows, and every executor that remembers failures heeds it. Three things end this: the
slot is taken away, a request stores an artifact, or an executor that does not remember failures
counts an occurrence below its own threshold. `Overrides` names the two that requests do, `Forgets`
all three, and `Recalls` says that none of them happens in a run.

Where all executors remember failures, the last of the three does not occur, and an artifact can
only come from a request that had planned to compile the query before (`Pending`): every later
request finds the failure when it plans, and plans to interpret.

## Key results

- `rule?_notCompilable`: what the rules of requests do to the entry of a failure
- `remembered_after`, `remembered_run`: one event and a whole run
- `interpretsOnly_run`: a request that is to interpret its query calls nothing else
- `awaiting_after`, `awaiting_run`: who may compile where all executors remember failures
- `failures_stay_remembered`
-/

namespace TieredQuery

variable {L : Language} {σ : Type}

/-! ## The entry -/

/-- Whether the next step of a request replaces the entry of a failure, counted a number of times,
    by one that does not remember it: it stores an artifact, or a count below a threshold. -/
def Phase.Overrides (tiering : Tiering) (occurrences : Nat) : Phase L → Prop
  | adopting _ _ => True
  | planning _ => tiering.remembers = false ∧ occurrences + 1 < tiering.threshold.toNat
  | _ => False

/-- A remembered failure is heeded, and the occurrence counted. -/
theorem Entry.plan_notCompilable {A : Type} {tiering : Tiering}
    (hremembers : tiering.remembers = true) (n : Nat) :
    (Entry.notCompilable n : Entry A).plan tiering =
      (some (.notCompilable (n + 1)), .interpret) := by
  simp [Entry.plan, Entry.notCompilable, hremembers]

/-- A rule that does not override a failure leaves it, and does not lower the count. -/
theorem Phase.rule?_notCompilable {tiering : Tiering} {phase : Phase L}
    {rule : Entry L.Artifact → Option (Entry L.Artifact)} (hrule : phase.rule? tiering = some rule)
    {n : Nat} (hkeeps : ¬phase.Overrides tiering n) :
    ∃ m, n ≤ m ∧ (rule (.notCompilable n)).getD (.notCompilable n) = .notCompilable m := by
  -- Case split on the phase: an artifact is ruled out, and the other rules only count on.
  cases phase with
  | arrived =>
    cases hrule
    exact ⟨n, Nat.le_refl _, rfl⟩
  | planning document =>
    cases hrule
    dsimp only
    rcases Entry.plan_of_artifact?_eq_none tiering (rfl : (Entry.notCompilable n).artifact? = none)
      with ⟨-, -, hplan⟩ | ⟨-, hplan⟩ | ⟨hbelow, hplan⟩
    · exact ⟨n + 1, Nat.le_succ n, by rw [hplan]; rfl⟩
    · exact ⟨n, Nat.le_refl _, by rw [hplan]; rfl⟩
    · -- below the threshold only an executor that remembers failures leaves the entry one
      have hremembers : tiering.remembers = true := by
        by_contra hforgets
        exact hkeeps ⟨Bool.eq_false_iff.mpr hforgets, hbelow⟩
      exact ⟨n + 1, Nat.le_succ n, by rw [Entry.plan_notCompilable hremembers]; rfl⟩
  | adopting fresh occurrences => exact absurd trivial hkeeps
  | declining document occurrences =>
    cases hrule
    exact ⟨max occurrences n, Nat.le_max_right _ _, rfl⟩
  | _ => cases hrule

/-! ## Requests that interpret -/

/-- Since a request was in a state, it is to interpret a document or has interpreted it and is
    settled by the response of that, and has called nothing else. -/
def Job.InterpretsOnly (job : Job L σ) (document : L.Document) (since : Job L σ) : Prop :=
  job = ⟨since.server, since.request, .interpreting document, since.calls⟩ ∨
    ∃ outcome phase, phase.settled? = some (Call.executed outcome) ∧
      job = ⟨since.server, since.request, phase,
        since.calls ++ [since.server.executor.interprets since.request document outcome]⟩

/-- A request that is to interpret its query, or has, does nothing else by its next step. -/
theorem Job.interpretsOnly_step {since job : Job L σ} {document : L.Document}
    (h : job.InterpretsOnly document since) (w : World L σ) :
    (job.step w).1.InterpretsOnly document since := by
  right
  rcases h with rfl | ⟨outcome, phase, hsettled, rfl⟩
  · obtain ⟨given, hended⟩ := Phase.response_ended (L := L) (.ofText since.request.query)
      .interpreted (since.server.engine.interpret
        (since.server.executor.interpretation since.request document)
        (World.notify (.interpreting (.ofText since.request.query)) w).2).1
    exact ⟨_, _, rfl, congrArg (Job.mk since.server since.request · _) hended⟩
  · -- the query has been interpreted, and only the response is counted
    obtain ⟨next, hnext, hstep⟩ := Job.step_of_settled ⟨_, _, phase, _⟩ hsettled w
    exact ⟨outcome, next, hnext, hstep⟩

namespace Traffic

/-- Once a request is to interpret its query, it calls nothing else, whatever happens. -/
theorem interpretsOnly_run {t : Traffic L σ} {i : Nat} {since job : Job L σ}
    {document : L.Document} (hjob : t.jobs[i]? = some job)
    (h : job.InterpretsOnly document since) (events : List (Event L σ)) :
    ∃ job', (t.run events).jobs[i]? = some job' ∧ job'.InterpretsOnly document since :=
  exists_job_run (P := fun job => job.InterpretsOnly document since)
    (fun _ w hjob => Job.interpretsOnly_step hjob w) hjob h events

/-! ## What ends the memory of a failure -/

/-- Whether the slot of a key remembers a failure, counted a number of times. -/
def Remembers (t : Traffic L σ) (key : Fingerprint) (n : Nat) : Prop :=
  (t.world.cache.slot? key).map (·.value) = some (.notCompilable n)

/-- Whether an event ends the memory of a failure under a key: the slot is taken away, or a request
    overrides the entry. -/
def Forgets (key : Fingerprint) (t : Traffic L σ) (event : Event L σ) : Prop :=
  t.Removes key event ∨ ∃ i job, event = .step i ∧ t.jobs[i]? = some job ∧ job.key = key ∧
    job.phase.Overrides job.server.executor.tiering (t.storedCount key)

/-- Through a run no event ends the memory of a failure under a key. -/
def Recalls (key : Fingerprint) (t : Traffic L σ) : List (Event L σ) → Prop
  | [] => True
  | event :: events => ¬t.Forgets key event ∧ Recalls key (t.after event) events

section Memory

variable {t : Traffic L σ} {key : Fingerprint} {n : Nat} {event : Event L σ}

/-- A failure that is remembered has the count of its slot. -/
theorem storedCount_of_remembers (h : t.Remembers key n) : t.storedCount key = n := by
  obtain ⟨slot, hslot, hvalue⟩ := Option.map_eq_some_iff.mp h
  rw [storedCount, hslot, Option.elim_some, hvalue]
  rfl

/-- An access that does not take the slot away reads the failure. -/
theorem entry_of_remembers {text : String}
    {rule : Entry L.Artifact → Option (Entry L.Artifact)} (h : t.Remembers (.ofText text) n)
    (hstays : ¬t.Removes (.ofText text) event) (haccess : t.access? event = some (text, rule)) :
    t.world.cache.entry t.world.now text = .notCompilable n := by
  rw [entry_of_not_removes hstays haccess, show Option.map _ _ = _ from h]
  rfl

/-- An access that does not take the slot away leaves what its rule makes of the failure. -/
theorem remembers_after_of_accessed {text : String}
    {rule : Entry L.Artifact → Option (Entry L.Artifact)} (h : t.Remembers (.ofText text) n)
    (hstays : ¬t.Removes (.ofText text) event) (haccess : t.access? event = some (text, rule))
    {m : Nat} (hrule : (rule (.notCompilable n)).getD (.notCompilable n) = .notCompilable m) :
    (t.after event).Remembers (.ofText text) m := by
  rw [Remembers, slot?_after_of_accessed hstays haccess, entry_of_remembers h hstays haccess]
  cases hstored : rule (.notCompilable n) with
  | none =>
    rw [hstored] at hrule
    cases hrule
    exact h
  | some stored =>
    rw [hstored] at hrule
    exact congrArg some hrule

/-- An event that does not end the memory of a failure leaves it, and does not lower the count. -/
theorem remembers_after (h : t.Remembers key n) (hclients : ∀ key, ¬event.Writes key)
    (hkeeps : ¬t.Forgets key event) : ∃ m, n ≤ m ∧ (t.after event).Remembers key m := by
  have hstays : ¬t.Removes key event := fun hremoves => hkeeps (Or.inl hremoves)
  by_cases hother : ∀ text rule, t.access? event = some (text, rule) →
      Fingerprint.ofText text ≠ key
  · -- the event does not touch the slot
    exact ⟨n, Nat.le_refl _, by rw [Remembers, slot?_after_of_not_accessed hstays hother]; exact h⟩
  · push Not at hother
    obtain ⟨text, rule, haccess, rfl⟩ := hother
    rcases access?_of_not_writes hclients haccess with hread | ⟨i, job, rfl, hjob, rfl, hrule⟩
    · exact ⟨n, Nat.le_refl _,
        remembers_after_of_accessed h hstays haccess (by rw [hread]; rfl)⟩
    · have hkept : ¬job.phase.Overrides job.server.executor.tiering n := fun hoverrides =>
        hkeeps (Or.inr ⟨i, job, rfl, hjob, rfl, (storedCount_of_remembers h).symm ▸ hoverrides⟩)
      obtain ⟨m, hm, hleft⟩ := Phase.rule?_notCompilable hrule hkept
      exact ⟨m, hm, remembers_after_of_accessed h hstays haccess hleft⟩

/-- A run that does not end the memory of a failure leaves it, and does not lower the count. -/
theorem remembers_run (h : t.Remembers key n) {events : List (Event L σ)}
    (hclients : ∀ event ∈ events, ∀ key, ¬event.Writes key) (hrecalls : t.Recalls key events) :
    ∃ m, n ≤ m ∧ (t.run events).Remembers key m := by
  -- Induction on the events, for whatever count the failure has by then.
  induction events generalizing t n with
  | nil => exact ⟨n, Nat.le_refl _, h⟩
  | cons event events ih =>
    obtain ⟨hevent, hrest⟩ := List.forall_mem_cons.mp hclients
    obtain ⟨m, hm, hafter⟩ := remembers_after h hevent hrecalls.1
    obtain ⟨k, hk, hrun⟩ := ih hafter hrest hrecalls.2
    exact ⟨k, hm.trans hk, hrun⟩

/-- The failure that a request stores is remembered. -/
theorem remembers_after_declining {i : Nat} {job : Job L σ} (hjob : t.jobs[i]? = some job)
    {document : L.Document} {occurrences : Nat}
    (hphase : job.phase = .declining document occurrences) {stored : Entry L.Artifact}
    (hstored : (t.world.cache.entry t.world.now job.request.query).decline occurrences =
      some stored) :
    (t.after (.step i)).Remembers job.key stored.occurrences := by
  have haccess := access?_step hjob
  rw [Job.rule?, hphase] at haccess
  have hcache := t.cache_after (.step i)
  rw [haccess] at hcache
  rw [Remembers, hcache.1, Job.key, QueryCache.slot?_revise_self]
  simp only [hstored, Option.map_some, Option.some_or]
  rw [(Entry.eq_of_decline hstored).2]
  rfl

/-- A request that plans its query while a failure is remembered is to interpret it, and counts the
    occurrence, if its executor remembers failures. -/
theorem interprets_of_remembers {j : Nat} {job : Job L σ} (hjob : t.jobs[j]? = some job)
    {document : L.Document} (hphase : job.phase = .planning document)
    (hremembers : job.server.executor.tiering.remembers = true) (h : t.Remembers job.key n)
    (hstays : ¬t.Removes job.key (.step j)) :
    (t.after (.step j)).Remembers job.key (n + 1) ∧
      (job.step t.world).1.InterpretsOnly document job := by
  have haccess := access?_step hjob
  rw [Job.rule?, hphase] at haccess
  have hplan := Entry.plan_notCompilable (A := L.Artifact) hremembers n
  constructor
  · exact remembers_after_of_accessed h hstays haccess (by rw [hplan]; rfl)
  · have hentry := entry_of_remembers h hstays haccess
    obtain ⟨server, request, phase, calls⟩ := job
    cases hphase
    left
    show Job.mk server request (server.executor.step server.engine request
      (.planning document) t.world).1 (calls ++ []) = _
    rw [server.executor.phase_planning, hentry, hplan, List.append_nil]
    rfl

end Memory

/-! ## Executors that all remember failures -/

/-- Whether a request has planned to compile its query, and has not stored yet what came of it. -/
def Pending (t : Traffic L σ) (i : Nat) : Prop :=
  ∃ job n, t.jobs[i]? = some job ∧ job.phase.carried? = some n

/-- A failure is remembered, all executors remember failures, and only the given requests may be
    about to compile the query. -/
structure Awaiting (t : Traffic L σ) (key : Fingerprint) (pending : Nat → Prop) : Prop where
  remembers : ∃ n, t.Remembers key n
  jobs : ∀ job ∈ t.jobs, job.server.executor.tiering.remembers = true
  carried : ∀ i job n, t.jobs[i]? = some job → job.key = key → job.phase.carried? = some n →
    pending i

section Awaiting

variable {t : Traffic L σ} {key : Fingerprint} {pending : Nat → Prop} {event : Event L σ}

/-- Only an artifact of the given requests can override the failure. -/
theorem not_forgets_of_awaiting (h : t.Awaiting key pending) (hstays : ¬t.Removes key event)
    (hadopting : ∀ i job fresh n, event = .step i → t.jobs[i]? = some job → job.key = key →
      job.phase = .adopting fresh n → ¬pending i) : ¬t.Forgets key event := by
  rintro (hremoves | ⟨i, job, rfl, hjob, hkey, hoverrides⟩)
  · exact hstays hremoves
  · -- the executor remembers failures, so only an artifact is stored over one
    cases hphase : job.phase with
    | adopting fresh n =>
      exact hadopting i job fresh n rfl hjob hkey hphase
        (h.carried i job n hjob hkey (by rw [hphase]; rfl))
    | planning document =>
      rw [hphase] at hoverrides
      have hforgets := hoverrides.1
      rw [h.jobs job (List.mem_of_getElem? hjob)] at hforgets
      cases hforgets
    | _ =>
      rw [hphase] at hoverrides
      exact hoverrides

/-- An event that does not end the memory of the failure leaves the same requests to wait for. -/
theorem awaiting_after (h : t.Awaiting key pending) (hclients : ∀ key, ¬event.Writes key)
    (harrive : ∀ server request, event = .arrive server request →
      server.executor.tiering.remembers = true)
    (hstays : ¬t.Removes key event) (hkeeps : ¬t.Forgets key event) :
    (t.after event).Awaiting key pending := by
  obtain ⟨n, hn⟩ := h.remembers
  constructor
  case remembers =>
    obtain ⟨m, -, hm⟩ := remembers_after hn hclients hkeeps
    exact ⟨m, hm⟩
  case jobs =>
    exact forall_jobs_after h.jobs harrive
      fun i job _ hjob => h.jobs job (List.mem_of_getElem? hjob)
  case carried =>
    intro i job k hjob hkey hcarried
    -- a request that carries a count did so before, or has just planned
    rcases job_of_after hjob with hold | ⟨before, rfl, hbefore, rfl⟩ | ⟨server, request, rfl⟩
    · exact h.carried i job k hold hkey hcarried
    · rcases before.server.executor.carried?_step before.server.engine before.request hcarried with
        hcarried' | ⟨document, hphase, hplan⟩
      · exact h.carried i before k hbefore hkey hcarried'
      · -- a request that plans now finds the failure, and does not plan to compile
        have haccess := access?_step hbefore
        rw [Job.rule?, hphase] at haccess
        obtain rfl : before.key = key := hkey
        rw [entry_of_remembers hn hstays haccess,
          Entry.plan_notCompilable (h.jobs before (List.mem_of_getElem? hbefore))] at hplan
        cases hplan
    · cases hcarried

/-- A run in which the slot stays and none of the given requests stores an artifact does not end
    the memory of the failure, and leaves the same requests to wait for. -/
theorem awaiting_run (h : t.Awaiting key pending) {events : List (Event L σ)}
    (hclients : ∀ event ∈ events, ∀ key, ¬event.Writes key)
    (harrive : ∀ server request, .arrive server request ∈ events →
      server.executor.tiering.remembers = true)
    (hstays : t.Stays key events)
    (hadopting : ∀ earlier i later job fresh n, events = earlier ++ .step i :: later →
      (t.run earlier).jobs[i]? = some job → job.key = key → job.phase = .adopting fresh n →
      ¬pending i) :
    t.Recalls key events ∧ (t.run events).Awaiting key pending := by
  induction events generalizing t with
  | nil => exact ⟨trivial, h⟩
  | cons event events ih =>
    obtain ⟨hevent, hrest⟩ := List.forall_mem_cons.mp hclients
    -- the first event does not end it, by what is known of who may store an artifact
    have hkeeps : ¬t.Forgets key event := by
      refine not_forgets_of_awaiting h hstays.1 ?_
      rintro i job fresh n rfl
      exact hadopting [] i events job fresh n rfl
    have hafter := awaiting_after h hevent
      (fun server request heq => harrive server request (heq ▸ List.mem_cons_self)) hstays.1 hkeeps
    obtain ⟨hrecalls, hawaiting⟩ := ih hafter hrest
      (fun server request hmem => harrive server request (List.mem_cons_of_mem _ hmem)) hstays.2
      (fun earlier i later job fresh n heq =>
        hadopting (event :: earlier) i later job fresh n (by rw [heq]; rfl))
    exact ⟨⟨hkeeps, hrecalls⟩, hawaiting⟩

end Awaiting

/-- After a request has stored that its query cannot be compiled, the entry remembers the failure
    and its count does not fall, until the slot is taken away, an artifact is stored, or an executor
    that does not remember failures counts an occurrence below its threshold. Until then a request
    to an executor that remembers failures, when it plans a query of the key, counts exactly one
    occurrence and goes on to interpret the query, and calls nothing else. If all executors remember
    failures, then until the slot is taken away or a request that had planned to compile before
    stores its artifact, none of the three happens, and no other request calls the compiler. -/
theorem failures_stay_remembered {t : Traffic L σ} {i : Nat} {job : Job L σ}
    (hjob : t.jobs[i]? = some job) {document : L.Document} {occurrences : Nat}
    (hphase : job.phase = .declining document occurrences) {stored : Entry L.Artifact}
    (hstored : (t.world.cache.entry t.world.now job.request.query).decline occurrences =
      some stored)
    {events : List (Event L σ)} (hclients : ∀ event ∈ events, ∀ key, ¬event.Writes key) :
    let start := t.after (.step i)
    let now := start.run events
    (start.Recalls job.key events → ∃ n, stored.occurrences ≤ n ∧ now.Remembers job.key n ∧
      ∀ j other document, now.jobs[j]? = some other → other.key = job.key →
        other.phase = .planning document →
        other.server.executor.tiering.remembers = true → ¬now.Removes job.key (.step j) →
        (now.after (.step j)).Remembers job.key (n + 1) ∧
        ∀ next, ∃ other', ((now.after (.step j)).run next).jobs[j]? = some other' ∧
          other'.InterpretsOnly document other) ∧
    ((∀ other ∈ t.jobs, other.server.executor.tiering.remembers = true) →
      (∀ server request, .arrive server request ∈ events →
        server.executor.tiering.remembers = true) →
      start.Stays job.key events →
      (∀ earlier j later other fresh n, events = earlier ++ .step j :: later →
        (start.run earlier).jobs[j]? = some other → other.key = job.key →
        other.phase = .adopting fresh n → ¬start.Pending j) →
      start.Recalls job.key events ∧
      ∀ j other, now.jobs[j]? = some other → other.key = job.key →
        Call.compiles (other.server.executor.made other.server.engine other.request other.phase
          now.world) = true → start.Pending j) := by
  intro start now
  have hstart : start.Remembers job.key stored.occurrences :=
    remembers_after_declining hjob hphase hstored
  constructor
  · -- the failure is there when a request plans its query, and is heeded
    intro hrecalls
    obtain ⟨n, hn, hnow⟩ := remembers_run hstart hclients hrecalls
    refine ⟨n, hn, hnow, ?_⟩
    intro j other document hother hkey hplanning hremembers hstays
    rw [← hkey] at hnow hstays ⊢
    obtain ⟨hafter, honly⟩ := interprets_of_remembers hother hplanning hremembers hnow hstays
    exact ⟨hafter, fun next => interpretsOnly_run (job_after_step hother) honly next⟩
  · -- whoever carries a count now had planned to compile before
    intro hjobs harrive hstays hadopting
    have hawaiting : start.Awaiting job.key start.Pending :=
      ⟨⟨_, hstart⟩,
        forall_jobs_after hjobs nofun
          fun i job _ hjob => hjobs job (List.mem_of_getElem? hjob),
        fun j other n hother _ hcarried => ⟨other, n, hother, hcarried⟩⟩
    obtain ⟨hrecalls, hend⟩ := awaiting_run hawaiting hclients harrive hstays hadopting
    refine ⟨hrecalls, fun j other hother hkey hcompiles => ?_⟩
    obtain ⟨n, hcarried⟩ := Executor.phase_of_compiles_made hcompiles
    exact hend.carried j other n hother hkey hcarried

/-- A request for a query that begins with a number sign, to an executor that remembers
    failures. -/
def echoShrug (id : Nat) (phase : Phase echoLanguage) : Job echoLanguage Unit :=
  ⟨echoServer id { onDecline := .remember }, echoRequest "#", phase, []⟩

/-- One request is to store that its query cannot be compiled, and two are to plan it. -/
def echoShrugs : Traffic echoLanguage Unit where
  world := echoWorld 1
  jobs := [echoShrug 0 (.declining "#" 1), echoShrug 1 (.planning "#"), echoShrug 2 (.planning "#")]

/-- Both of them interpret the query, and each counts it once more. -/
theorem failures_stay_remembered_echoShrugs :
    ∃ n, 1 ≤ n ∧
      ((echoShrugs.after (.step 0)).run [.step 1]).Remembers (.ofText "#") n ∧
      (((echoShrugs.after (.step 0)).run [.step 1]).after (.step 2)).Remembers (.ofText "#")
        (n + 1) ∧
      ∃ other, (((echoShrugs.after (.step 0)).run [.step 1]).after (.step 2)).jobs[2]? =
        some other ∧ other.InterpretsOnly "#" (echoShrug 2 (.planning "#")) := by
  have hentry : echoShrugs.world.cache.entry echoShrugs.world.now "#" = .unseen := by
    rw [QueryCache.entry, RecencyMap.live?]
    rfl
  have hstored : ((echoShrugs.world.cache.entry echoShrugs.world.now "#").decline 1) =
      some (.notCompilable 1) := by
    rw [hentry]
    rfl
  have hclients : ∀ event ∈ [(.step 1 : Event echoLanguage Unit)], ∀ key, ¬event.Writes key := by
    simp [Event.Writes]
  have hfirst : (echoShrugs.after (.step 0)).jobs[1]? = some (echoShrug 1 (.planning "#")) :=
    job_after_of_ne rfl fun h => by cases h
  have hsecond : (echoShrugs.after (.step 0)).jobs[2]? = some (echoShrug 2 (.planning "#")) :=
    job_after_of_ne rfl fun h => by cases h
  have hsecond' : ((echoShrugs.after (.step 0)).run [.step 1]).jobs[2]? =
      some (echoShrug 2 (.planning "#")) := by
    rw [run_cons, run_nil]
    exact job_after_of_ne hsecond fun h => by cases h
  have hjob : echoShrugs.jobs[0]? = some (echoShrug 0 (.declining "#" 1)) := rfl
  -- all three requests use the slot of the query, which does not expire
  have hplans : (echoShrugs.after (.step 0)).access? (.step 1) =
      some ("#", fun entry => (entry.plan { onDecline := .remember }).1) := access?_step hfirst
  have hplans' : ((echoShrugs.after (.step 0)).run [.step 1]).access? (.step 2) =
      some ("#", fun entry => (entry.plan { onDecline := .remember }).1) := access?_step hsecond'
  have hlifetime : (echoShrugs.after (.step 0)).world.cache.lifetime = none :=
    lifetime_after_of_accessed (access?_step hjob)
  have hlifetime' : ((echoShrugs.after (.step 0)).run [.step 1]).world.cache.lifetime = none := by
    rw [run_cons, run_nil, lifetime_after_of_accessed hplans, hlifetime]
  have hstays : (echoShrugs.after (.step 0)).Stays (.ofText "#") [.step 1] :=
    ⟨not_removes_of_lifetime hlifetime hplans, trivial⟩
  have hstays' : ¬((echoShrugs.after (.step 0)).run [.step 1]).Removes (.ofText "#") (.step 2) :=
    not_removes_of_lifetime hlifetime' hplans'
  obtain ⟨hmemory, hcompilers⟩ := failures_stay_remembered hjob rfl hstored hclients
  -- nobody is about to store an artifact, so the failure is not forgotten
  obtain ⟨hrecalls, -⟩ := hcompilers (by simp [echoShrugs, echoShrug, echoServer, PureEngine.server,
    Tiering.remembers]) (by simp) hstays (by
      rintro (_ | ⟨first, rest⟩) j later other fresh n heq hother - hphase
      · cases heq
        cases hfirst.symm.trans hother
        cases hphase
      · simp at heq)
  obtain ⟨n, hn, hremembers, hothers⟩ := hmemory hrecalls
  obtain ⟨hnext, honly⟩ := hothers 2 _ "#" hsecond' rfl rfl rfl hstays'
  exact ⟨n, hn, hremembers, hnext, honly []⟩

end Traffic
end TieredQuery
