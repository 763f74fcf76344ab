import TieredQuery.Proofs.Cache.Revision
import TieredQuery.Proofs.Dispatch.Calls

/-!
# Requests in flight

Any number of requests to any number of executors share one world. `Traffic` is that world with
the requests that have arrived, and an `Event` is the next thing that happens: a request arrives
or takes a step, time passes, or a client uses the cache directly. Events come in any order, so a
run is any interleaving of the steps of its requests. A request that an engine makes during one of
its calls is no exception: its steps come before the step of the request that is waiting for the
call.

Every event accesses the entry of at most one query (`access?`), and every access is a revision of
the cache; all other events only remove slots.

## Key results

- `cache_after`: what an event does to the cache
- `live?_after_of_accessed`, `live?_after_of_not_accessed`: what an event does to the live entry
  of a key
- `forall_jobs_after`, `job_after_step`, `job_after_of_ne`: what an event does to the requests
- `run_steps_of_job`: answering a request without a pause is one of the interleavings
-/

namespace TieredQuery

variable {L : Language} {σ : Type}

/-- A request that has arrived, and the calls made for it so far. -/
structure Job (L : Language) (σ : Type) where
  server : Server L σ
  request : Request L
  phase : Phase L := .arrived
  calls : List (Call L) := []

namespace Job

/-- The key of the query of a request. -/
def key (job : Job L σ) : Fingerprint := .ofText job.request.query

/-- Takes one step of a request and keeps a record of the call that it makes. -/
def step (job : Job L σ) (w : World L σ) : Job L σ × World L σ :=
  let next := job.server.executor.step job.server.engine job.request job.phase w
  let made := job.server.executor.made job.server.engine job.request job.phase w
  ({ job with phase := next.1, calls := job.calls ++ made }, next.2)

/-- A step of a settled request keeps everything but what has been counted. -/
theorem step_of_settled (job : Job L σ) {response : Response}
    (h : job.phase.settled? = some response) (w : World L σ) :
    ∃ phase, phase.settled? = some response ∧ (job.step w).1 = { job with phase } := by
  refine ⟨_, job.server.executor.settled?_step job.server.engine job.request h w, ?_⟩
  rw [step, job.server.executor.made_of_settled _ _ h, List.append_nil]

/-- The rule by which the next step revises the entry of the query, if it uses the cache. -/
def rule? (job : Job L σ) : Option (Entry L.Artifact → Option (Entry L.Artifact)) :=
  job.phase.rule? job.server.executor.tiering

/-- A step revises the entry of the query by its rule, or leaves the cache. -/
theorem step_cache (job : Job L σ) (w : World L σ) :
    (job.step w).2.cache =
      match job.rule? with
      | none => w.cache
      | some rule => w.cache.revise w.now job.request.query rule :=
  TieredQuery.step_cache job.server.executor job.server.quiet job.request job.phase w

end Job

/-- The requests in flight and the world that they share. -/
structure Traffic (L : Language) (σ : Type) where
  world : World L σ
  jobs : List (Job L σ) := []

namespace Traffic

/-- What happens next. -/
inductive Event (L : Language) (σ : Type) where
  /-- A request is made to an executor. -/
  | arrive (server : Server L σ) (request : Request L)
  /-- The request of the given number takes its next step. -/
  | step (i : Nat)
  | advance (nanoseconds : Nat)
  | clear
  | purge
  /-- A client reads the entry of a query. -/
  | read (text : String)
  /-- A client stores the entry of a query. -/
  | write (text : String) (entry : Entry L.Artifact)
  /-- A client reads the entry of a query and replaces it by a rule. -/
  | revise (text : String) (rule : Entry L.Artifact → Option (Entry L.Artifact))

/-- Whether an event is a client's writing the entry of a key. -/
def Event.Writes (key : Fingerprint) : Event L σ → Prop
  | write text _ | revise text _ => Fingerprint.ofText text = key
  | _ => False

/-- The traffic after an event. -/
def after (t : Traffic L σ) : Event L σ → Traffic L σ
  | .arrive server request => { t with jobs := t.jobs ++ [{ server, request }] }
  | .step i =>
    match t.jobs[i]? with
    | none => t
    | some job => ⟨(job.step t.world).2, t.jobs.set i (job.step t.world).1⟩
  | .advance nanoseconds => { t with world := (World.advance nanoseconds t.world).2 }
  | .clear => { t with world := (World.clear t.world).2 }
  | .purge => { t with world := (World.purge t.world).2 }
  | .read text => { t with world := (World.lookUp text t.world).2 }
  | .write text entry => { t with world := (World.store text entry t.world).2 }
  | .revise text rule =>
    { t with world := (World.update text (fun entry => (rule entry, ())) t.world).2 }

/-- The traffic after some events. -/
def run (t : Traffic L σ) (events : List (Event L σ)) : Traffic L σ := events.foldl after t

@[simp] theorem run_nil (t : Traffic L σ) : t.run [] = t := rfl

@[simp] theorem run_cons (t : Traffic L σ) (event : Event L σ) (events : List (Event L σ)) :
    t.run (event :: events) = (t.after event).run events := rfl

theorem run_append (t : Traffic L σ) (events events' : List (Event L σ)) :
    t.run (events ++ events') = (t.run events).run events' := List.foldl_append ..

/-- A step of a request moves the world and this request. -/
theorem after_step {t : Traffic L σ} {i : Nat} {job : Job L σ} (h : t.jobs[i]? = some job) :
    t.after (.step i) = ⟨(job.step t.world).2, t.jobs.set i (job.step t.world).1⟩ := by
  simp [after, h]

/-- A number that no request has takes no step. -/
theorem after_step_of_none {t : Traffic L σ} {i : Nat} (h : t.jobs[i]? = none) :
    t.after (.step i) = t := by
  simp [after, h]

/-! ## The cache -/

/-- The entry of a key, if it has one that has not expired. -/
def live? (t : Traffic L σ) (key : Fingerprint) : Option (Entry L.Artifact) :=
  t.world.cache.live? t.world.now key

/-- A live entry is the one that is read. -/
theorem entry_of_live? {t : Traffic L σ} {text : String} {entry : Entry L.Artifact}
    (h : t.live? (.ofText text) = some entry) :
    t.world.cache.entry t.world.now text = entry := by
  rw [QueryCache.entry, show t.world.cache.live? t.world.now (.ofText text) = some entry from h]
  rfl

/-- The query text whose entry an event accesses, and the rule by which it revises it. -/
def access? (t : Traffic L σ) :
    Event L σ → Option (String × (Entry L.Artifact → Option (Entry L.Artifact)))
  | .step i => t.jobs[i]?.bind fun job => job.rule?.map fun rule => (job.request.query, rule)
  | .read text => some (text, fun _ => none)
  | .write text entry => some (text, fun _ => some entry)
  | .revise text rule => some (text, rule)
  | _ => none

/-- The step of a request accesses the entry of its query, or no entry. -/
theorem access?_step {t : Traffic L σ} {i : Nat} {job : Job L σ} (h : t.jobs[i]? = some job) :
    t.access? (.step i) = job.rule?.map fun rule => (job.request.query, rule) := by
  simp [access?, h]

/-- An access revises the cache at the time at which it happens; any other event leaves no slots
    but those that were there. -/
theorem cache_after (t : Traffic L σ) (event : Event L σ) :
    match t.access? event with
    | some (text, rule) =>
      (t.after event).world.cache = t.world.cache.revise t.world.now text rule ∧
        (t.after event).world.now = t.world.now
    | none => (t.after event).world.cache.slots.Sublist t.world.cache.slots := by
  cases event with
  | arrive server request => exact List.Sublist.refl _
  | advance nanoseconds => exact List.Sublist.refl _
  | clear => exact List.nil_sublist _
  | purge => exact List.filter_sublist
  | read text => exact ⟨World.lookUp_cache text t.world, rfl⟩
  | write text entry =>
    have hrule : (fun _ => some entry) (t.world.cache.entry t.world.now text) = some entry := rfl
    -- a store is a revision by a rule that does not look at the entry
    exact ⟨(QueryCache.revise_of_some hrule).symm, rfl⟩
  | revise text rule =>
    exact ⟨World.update_cache text (fun entry => (rule entry, ())) t.world, rfl⟩
  | step i =>
    cases hjob : t.jobs[i]? with
    | none =>
      rw [access?, hjob, after_step_of_none hjob]
      exact List.Sublist.refl _
    | some job =>
      rw [access?_step hjob, after_step hjob]
      have hcache := job.step_cache t.world
      cases hrule : job.rule? with
      | none =>
        rw [hrule] at hcache
        exact hcache ▸ List.Sublist.refl _
      | some rule =>
        rw [hrule] at hcache
        exact ⟨hcache, step_now _ _ _ hrule t.world⟩

/-- A slot that is there after an event was there before, or was written by the access. -/
theorem mem_slots_after {t : Traffic L σ} {event : Event L σ}
    {p : Fingerprint × Slot (Entry L.Artifact)} (h : p ∈ (t.after event).world.cache.slots) :
    p ∈ t.world.cache.slots ∨
      ∃ text rule, t.access? event = some (text, rule) ∧ p.1 = .ofText text ∧
        rule (t.world.cache.entry t.world.now text) = some p.2.value := by
  have hcache := t.cache_after event
  cases haccess : t.access? event with
  | none =>
    rw [haccess] at hcache
    exact Or.inl (hcache.subset h)
  | some access =>
    obtain ⟨text, rule⟩ := access
    rw [haccess] at hcache
    rw [hcache.1] at h
    rcases QueryCache.mem_slots_revise h with hmem | hwritten
    · exact Or.inl hmem
    · exact Or.inr ⟨text, rule, rfl, hwritten⟩

/-- A live entry is still there after an event that does not access it, unless it is gone. -/
theorem live?_after_of_not_accessed {t : Traffic L σ} {event : Event L σ} {key : Fingerprint}
    {entry : Entry L.Artifact} (hlive : t.live? key = some entry)
    (haccess : ∀ text rule, t.access? event = some (text, rule) → key ≠ .ofText text) :
    (t.after event).live? key = some entry ∨ (t.after event).live? key = none := by
  obtain ⟨slot, hslot, -, rfl⟩ := RecencyMap.live?_eq_some_iff.mp hlive
  have hcache := t.cache_after event
  -- the slot of the key is the same as before, or there is none
  have hkept : (t.after event).world.cache.slot? key = some slot ∨
      (t.after event).world.cache.slot? key = none := by
    -- Case split on the access: none leaves slots only, and one of another key leaves this slot.
    cases hcase : t.access? event with
    | none =>
      rw [hcase] at hcache
      rw [← hslot]
      exact RecencyMap.slot?_of_sublist hcache key
    | some access =>
      obtain ⟨text, rule⟩ := access
      rw [hcase] at hcache
      rw [hcache.1, ← hslot]
      exact QueryCache.slot?_revise_of_ne (haccess text rule hcase) _ _ _
  unfold live? RecencyMap.live?
  rcases hkept with hkept | hgone
  · -- the slot may have expired meanwhile
    rw [hkept]
    dsimp only
    split
    · exact Or.inr rfl
    · exact Or.inl rfl
  · rw [hgone]
    exact Or.inr rfl

/-- An event that accesses an entry revises it by its rule. -/
theorem live?_after_of_accessed {t : Traffic L σ} {event : Event L σ} {text : String}
    {rule : Entry L.Artifact → Option (Entry L.Artifact)} {entry : Entry L.Artifact}
    (hlive : t.live? (.ofText text) = some entry) (haccess : t.access? event = some (text, rule)) :
    (t.after event).live? (.ofText text) = some ((rule entry).getD entry) := by
  have hcache := t.cache_after event
  rw [haccess] at hcache
  rw [live?, hcache.1, hcache.2, QueryCache.live?_revise_self, entry_of_live? hlive,
    show t.world.cache.live? t.world.now (.ofText text) = some entry from hlive]
  cases rule entry <;> rfl

/-! ## The requests -/

/-- The step of a request is its own. -/
theorem job_after_step {t : Traffic L σ} {i : Nat} {job : Job L σ} (h : t.jobs[i]? = some job) :
    (t.after (.step i)).jobs[i]? = some (job.step t.world).1 := by
  obtain ⟨hlt, -⟩ := List.getElem?_eq_some_iff.mp h
  rw [after_step h]
  exact List.getElem?_set_self hlt

/-- A request is moved by its own steps only. -/
theorem job_after_of_ne {t : Traffic L σ} {i : Nat} {job : Job L σ} (h : t.jobs[i]? = some job)
    {event : Event L σ} (hne : event ≠ .step i) : (t.after event).jobs[i]? = some job := by
  obtain ⟨hlt, -⟩ := List.getElem?_eq_some_iff.mp h
  -- Case split on the event: only steps move requests that are there.
  cases event with
  | arrive server request =>
    rw [after, List.getElem?_append_left hlt]
    exact h
  | step j =>
    cases hjob : t.jobs[j]? with
    | none => rw [after_step_of_none hjob]; exact h
    | some other =>
      have hij : j ≠ i := fun heq => hne (by rw [heq])
      rw [after_step hjob, List.getElem?_set_ne hij]
      exact h
  | _ => exact h

/-- What holds of the requests holds after an event if it holds of new requests and is kept by the
    step of each request. -/
theorem forall_jobs_after {P : Job L σ → Prop} {t : Traffic L σ} {event : Event L σ}
    (hjobs : ∀ job ∈ t.jobs, P job)
    (harrive : ∀ server request, event = .arrive server request → P { server, request })
    (hstep : ∀ i job, event = .step i → t.jobs[i]? = some job → P (job.step t.world).1) :
    ∀ job ∈ (t.after event).jobs, P job := by
  cases event with
  | arrive server request =>
    intro job hjob
    rcases List.mem_append.mp hjob with hold | hnew
    · exact hjobs job hold
    · rw [List.mem_singleton.mp hnew]
      exact harrive server request rfl
  | step i =>
    cases hi : t.jobs[i]? with
    | none => rw [after_step_of_none hi]; exact hjobs
    | some moved =>
      rw [after_step hi]
      intro job hjob
      rcases List.mem_or_eq_of_mem_set hjob with hold | rfl
      · exact hjobs job hold
      · exact hstep i moved rfl hi
  | _ => exact hjobs

/-- What holds of a request and is kept by its own steps holds of it after any run. -/
theorem exists_job_run {P : Job L σ → Prop} (hstep : ∀ job w, P job → P (job.step w).1)
    {t : Traffic L σ} {i : Nat} {job : Job L σ} (hjob : t.jobs[i]? = some job) (h : P job)
    (events : List (Event L σ)) : ∃ job', (t.run events).jobs[i]? = some job' ∧ P job' := by
  -- Induction on the events, for whatever state the request is in by then.
  induction events generalizing t job with
  | nil => exact ⟨job, hjob, h⟩
  | cons event events ih =>
    by_cases hown : event = .step i
    · subst hown
      exact ih (job_after_step hjob) (hstep job t.world h)
    · exact ih (job_after_of_ne hjob hown) h

/-- The calls recorded for a request are those by which it has come to its phase. -/
theorem reached_run (t : Traffic L σ) (events : List (Event L σ))
    (h : ∀ job ∈ t.jobs, job.phase.Reached job.server.executor job.request job.calls) :
    ∀ job ∈ (t.run events).jobs,
      job.phase.Reached job.server.executor job.request job.calls := by
  induction events generalizing t with
  | nil => exact h
  | cons event events ih =>
    refine ih (t.after event) (forall_jobs_after h ?_ ?_)
    · intro server request _
      exact Phase.reached_arrived _ _
    · intro i job _ hjob
      exact job.server.executor.reached_step _ _ _ (h job (List.mem_of_getElem? hjob))

/-- A request that takes all its steps in a row is answered as if it were executed at once. -/
theorem run_steps_of_job {t : Traffic L σ} {i : Nat} {job : Job L σ}
    (h : t.jobs[i]? = some job) :
    let executor := job.server.executor
    let engine := job.server.engine
    ∃ n verdict, n ≤ job.phase.rank ∧
      (t.run (List.replicate n (.step i))).world =
        (executor.finish engine job.request job.phase t.world).2 ∧
      (t.run (List.replicate n (.step i))).jobs[i]? = some
        { job with
          phase := .done verdict (executor.finish engine job.request job.phase t.world).1
          calls := job.calls ++ executor.calls engine job.request job.phase t.world } := by
  -- induction on the steps that are left at most
  induction hrank : job.phase.rank using Nat.strong_induction_on generalizing t job with
  | _ bound ih =>
    cases hphase : job.phase.response? with
    | some response =>
      -- an answered request takes no step more, and finishing it changes nothing
      obtain ⟨verdict, hdone⟩ : ∃ verdict, job.phase = .done verdict response := by
        cases hp : job.phase <;> rw [hp] at hphase <;> cases hphase
        exact ⟨_, rfl⟩
      refine ⟨0, verdict, Nat.zero_le _, ?_, ?_⟩
      · rw [Executor.finish_of_answered _ _ _ _ hphase]
        rfl
      · rw [Executor.finish_of_answered _ _ _ _ hphase,
          Executor.calls_of_answered _ _ _ _ hphase, List.append_nil, ← hdone]
        exact h
    | none =>
      -- one step lowers the rank, and the rest of the steps is the induction hypothesis
      have hlt := job.server.executor.rank_step_lt job.server.engine job.request job.phase
        t.world hphase
      obtain ⟨n, verdict, hn, hworld, hjob⟩ := ih _ (hrank ▸ hlt) (job_after_step h) rfl
      refine ⟨n + 1, verdict, by simp only [Job.step] at hn; omega, ?_, ?_⟩
      · rw [List.replicate_succ, run_cons, hworld, Executor.finish_of_unanswered _ _ _ _ hphase,
          after_step h]
        rfl
      · rw [List.replicate_succ, run_cons, hjob, Executor.finish_of_unanswered _ _ _ _ hphase,
          Executor.calls_of_unanswered _ _ _ _ hphase, after_step h, ← List.append_assoc]
        rfl

end Traffic
end TieredQuery
