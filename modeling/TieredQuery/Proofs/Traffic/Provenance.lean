import TieredQuery.Proofs.Traffic.EntryInvariant

/-!
# Where the artifacts come from

Whenever a request runs an artifact, some request for a query of the same key has parsed,
validated and compiled its own query to it: the request itself, or one that has stored the artifact
before. The key is made of the query text alone. So the artifact fits the request that runs it if
the requests with its key agree in their text, their schema and their operation; where they do not,
a request may run what was compiled for the operation of another.

## Key results

- `runs_step`: where the artifact of a request comes from
- `traced_after`, `traced_run`: what one event and a whole run keep
- `artifacts_made_under_own_key`
- `runs_artifact_of_other_operation`: two requests that differ in their operation
-/

namespace TieredQuery

variable {L : Language} {σ : Type}

/-- The artifact that a request is to run next. -/
def Phase.running? : Phase L → Option L.Artifact
  | running artifact _ => some artifact
  | _ => none

namespace Job

/-- Whether a request has found its query valid and compiled it to an artifact. -/
def Made (job : Job L σ) (artifact : L.Artifact) : Prop :=
  ∃ document, Phase.checks job.server.executor job.request document ++
    [Phase.compilation job.server.executor job.request document (.artifact artifact)] <+: job.calls

/-- Whether a request is to run an artifact, or has run it. -/
def Runs (job : Job L σ) (artifact : L.Artifact) : Prop :=
  job.phase.running? = some artifact ∨
    ∃ resolvers context variableValues outcome,
      .run artifact resolvers context variableValues outcome ∈ job.calls

/-- What a request has made stays made. -/
theorem Made.step {job : Job L σ} {artifact : L.Artifact} (h : job.Made artifact)
    (w : World L σ) : (job.step w).1.Made artifact := by
  obtain ⟨document, hcalls⟩ := h
  exact ⟨document, hcalls.trans (List.prefix_append _ _)⟩

/-- A request that is to store an artifact has made it. -/
theorem made_of_adopting {job : Job L σ} {artifact : L.Artifact} {occurrences : Nat}
    (hreached : job.phase.Reached job.server.executor job.request job.calls)
    (hphase : job.phase = .adopting artifact occurrences) : job.Made artifact := by
  rw [hphase] at hreached
  obtain ⟨document, hcalls⟩ := hreached
  exact ⟨document, hcalls ▸ List.prefix_refl _⟩

end Job

/-! ## One step of a request -/

/-- A request goes on to run the artifact that it has found in the entry, or else the one that it
    has compiled. -/
theorem Executor.running?_step {executor : Executor L} {engine : Engine L σ}
    {request : Request L} {phase : Phase L} {w : World L σ} {artifact : L.Artifact}
    (h : (executor.step engine request phase w).1.running? = some artifact) :
    (w.cache.entry w.now request.query).artifact? = some artifact ∨
      ∃ occurrences, phase = .adopting artifact occurrences := by
  have hleads := executor.leadsTo_step engine request phase w
  generalize (executor.step engine request phase w).1 = next at h hleads
  -- three steps run the artifact that they find, and only storing has another source
  cases hleads with
  | hit hentry | race hentry | kept hentry =>
    cases h
    exact Or.inl hentry
  | adopted _ =>
    cases h
    exact Or.inr ⟨_, rfl⟩
  | _ => cases h

/-- The only call that runs an artifact is that of a request that is to run it. -/
theorem Executor.running?_of_run_mem_made {executor : Executor L} {engine : Engine L σ}
    {request : Request L} {phase : Phase L} {w : World L σ} {artifact : L.Artifact}
    {resolvers : L.Resolvers} {context : L.Context} {variableValues : Dictionary Json.Value}
    {outcome : Outcome Diagnostic Output}
    (h : .run artifact resolvers context variableValues outcome ∈
      executor.made engine request phase w) : phase.running? = some artifact := by
  cases phase with
  | running other verdict =>
    cases List.mem_singleton.mp h
    rfl
  | parsing | validating _ | compiling _ _ | interpreting _ => cases List.mem_singleton.mp h
  | settled counted _ _ =>
    rw [executor.made_of_settled engine request rfl] at h
    cases h
  | arrived | planning _ | adopting _ _ | declining _ _ | done _ _ => cases h

/-- What a request runs after a step it has run before, has found in the entry, or has
    compiled. -/
theorem Job.runs_step {job : Job L σ} {w : World L σ} {artifact : L.Artifact}
    (h : (job.step w).1.Runs artifact) :
    job.Runs artifact ∨ (w.cache.entry w.now job.request.query).artifact? = some artifact ∨
      ∃ occurrences, job.phase = .adopting artifact occurrences := by
  rcases h with hphase | ⟨resolvers, context, variableValues, outcome, hcall⟩
  · exact Or.inr (Executor.running?_step hphase)
  · left
    rcases List.mem_append.mp hcall with hold | hnew
    · exact Or.inr ⟨resolvers, context, variableValues, outcome, hold⟩
    · exact Or.inl (Executor.running?_of_run_mem_made hnew)

/-! ## Runs -/

namespace Traffic

/-- Whether a request for a query of a key has made an artifact. -/
def Makes (t : Traffic L σ) (key : Fingerprint) (artifact : L.Artifact) : Prop :=
  ∃ maker ∈ t.jobs, maker.key = key ∧ maker.Made artifact

/-- Whether an artifact was made from a text, against a schema and for an operation. -/
def MadeFrom (t : Traffic L σ) (query : String) (schema : L.Schema)
    (operationName : Option String) (artifact : L.Artifact) : Prop :=
  ∃ maker ∈ t.jobs, maker.Made artifact ∧ maker.request.query = query ∧
    maker.server.executor.schema = schema ∧ maker.request.operationName = operationName

/-- Whether every artifact that is run was made from the text of the request that runs it, against
    the schema of its executor and for its operation. -/
def RunsOwn (t : Traffic L σ) : Prop :=
  ∀ job ∈ t.jobs, ∀ artifact, job.Runs artifact →
    t.MadeFrom job.request.query job.server.executor.schema job.request.operationName artifact

/-- Each artifact in the cache, and each that is run, was made by a request with its key. -/
structure Traced (t : Traffic L σ) : Prop where
  reached : ∀ job ∈ t.jobs, job.phase.Reached job.server.executor job.request job.calls
  slots : ∀ p ∈ t.world.cache.slots, ∀ artifact, p.2.value.artifact? = some artifact →
    t.Makes p.1 artifact
  jobs : ∀ job ∈ t.jobs, ∀ artifact, job.Runs artifact → t.Makes job.key artifact

/-- A request that has made an artifact is still there after any event. -/
theorem Makes.after {t : Traffic L σ} {key : Fingerprint} {artifact : L.Artifact}
    (h : t.Makes key artifact) (event : Event L σ) : (t.after event).Makes key artifact := by
  obtain ⟨maker, hmem, hkey, hmade⟩ := h
  obtain ⟨i, hmaker⟩ := List.mem_iff_getElem?.mp hmem
  by_cases hown : event = .step i
  · subst hown
    exact ⟨_, List.mem_of_getElem? (job_after_step hmaker), hkey, hmade.step t.world⟩
  · exact ⟨maker, List.mem_of_getElem? (job_after_of_ne hmaker hown), hkey, hmade⟩

section Step

variable {t : Traffic L σ} {event : Event L σ}

/-- The artifact in the entry of a query was made by a request with its key. -/
theorem makes_of_entry (h : t.Traced) {text : String} {artifact : L.Artifact}
    (hfound : (t.world.cache.entry t.world.now text).artifact? = some artifact) :
    t.Makes (.ofText text) artifact := by
  rcases QueryCache.entry_mem_slots t.world.cache t.world.now text with
    hunseen | ⟨slot, hslot, hvalue⟩
  · rw [hunseen] at hfound
    cases hfound
  · rw [hvalue] at hfound
    exact h.slots _ hslot artifact hfound

/-- What a request is to store was made by itself. -/
theorem makes_of_adopting (h : t.Traced) {i : Nat} {job : Job L σ} (hjob : t.jobs[i]? = some job)
    {artifact : L.Artifact} {occurrences : Nat}
    (hphase : job.phase = .adopting artifact occurrences) : t.Makes job.key artifact := by
  have hmem := List.mem_of_getElem? hjob
  exact ⟨job, hmem, rfl, Job.made_of_adopting (h.reached job hmem) hphase⟩

/-- What is stored by an event was made by a request with the key. -/
theorem makes_of_stored (h : t.Traced) (hclients : ∀ key, ¬event.Writes key) {text : String}
    {rule : Entry L.Artifact → Option (Entry L.Artifact)}
    (haccess : t.access? event = some (text, rule)) {stored : Entry L.Artifact}
    (hstored : rule (t.world.cache.entry t.world.now text) = some stored) {artifact : L.Artifact}
    (hartifact : stored.artifact? = some artifact) : t.Makes (.ofText text) artifact := by
  rcases access?_of_not_writes hclients haccess with hread | ⟨i, job, rfl, hjob, rfl, hrule⟩
  · rw [hread] at hstored
    cases hstored
  · obtain ⟨fresh, n, hphase, hfresh, -⟩ := Phase.adopting_of_rule? hrule hstored hartifact
    cases hfound : (t.world.cache.entry t.world.now job.request.query).artifact? with
    -- what is stored was in the entry already, or else the request has made it
    | some kept =>
      rw [hfound] at hfresh
      exact makes_of_entry h (hfound.trans (congrArg some hfresh.symm))
    | none =>
      rw [hfound] at hfresh
      subst hfresh
      exact makes_of_adopting h hjob hphase

/-- One event leaves every artifact traced. -/
theorem traced_after (h : t.Traced) (hclients : ∀ key, ¬event.Writes key) :
    (t.after event).Traced := by
  constructor
  case reached => exact reached_run t [event] h.reached
  case slots =>
    intro p hp artifact hartifact
    rcases mem_slots_after hp with hold | ⟨text, rule, haccess, hkey, hstored⟩
    · exact (h.slots p hold artifact hartifact).after event
    · rw [hkey]
      exact (makes_of_stored h hclients haccess hstored hartifact).after event
  case jobs =>
    -- stated of the makers before the event, for those remain
    suffices hbefore : ∀ job ∈ (t.after event).jobs, ∀ artifact, job.Runs artifact →
        t.Makes job.key artifact from
      fun job hjob artifact hruns => (hbefore job hjob artifact hruns).after event
    refine forall_jobs_after h.jobs ?_ ?_
    · rintro server request - artifact (hphase | ⟨_, _, _, _, hcall⟩)
      · cases hphase
      · cases hcall
    · intro i job _ hjob artifact hruns
      rcases Job.runs_step hruns with hold | hfound | ⟨occurrences, hphase⟩
      · exact h.jobs job (List.mem_of_getElem? hjob) artifact hold
      · exact makes_of_entry h hfound
      · exact makes_of_adopting h hjob hphase

/-- A run leaves every artifact traced. -/
theorem traced_run (h : t.Traced) {events : List (Event L σ)}
    (hclients : ∀ event ∈ events, ∀ key, ¬event.Writes key) : (t.run events).Traced := by
  induction events generalizing t with
  | nil => exact h
  | cons event events ih =>
    obtain ⟨hevent, hrest⟩ := List.forall_mem_cons.mp hclients
    exact ih (traced_after h hevent) hrest

end Step

/-- Whenever a request runs an artifact, a request for a query with its key has parsed, validated
    and compiled its query to it, against the schema of its own executor and for its own operation.
    So where the requests with the key of a request agree with it in text, schema and operation,
    what it runs was made for it. -/
theorem artifacts_made_under_own_key {world : World L σ} (hempty : world.cache.slots = [])
    {events : List (Event L σ)} (hclients : ∀ event ∈ events, ∀ key, ¬event.Writes key) :
    let t := (⟨world, []⟩ : Traffic L σ).run events
    ∀ job ∈ t.jobs, ∀ artifact, job.Runs artifact →
      (∃ maker ∈ t.jobs, maker.key = job.key ∧ maker.Made artifact) ∧
      ((∀ other ∈ t.jobs, other.key = job.key → other.request.query = job.request.query ∧
          other.server.executor.schema = job.server.executor.schema ∧
          other.request.operationName = job.request.operationName) →
        t.MadeFrom job.request.query job.server.executor.schema job.request.operationName
          artifact) := by
  intro t job hjob artifact hruns
  have hstart : (⟨world, []⟩ : Traffic L σ).Traced :=
    ⟨nofun, fun p hp => (by rw [hempty] at hp; cases hp), nofun⟩
  have hmakes := (traced_run hstart hclients).jobs job hjob artifact hruns
  refine ⟨hmakes, fun hagree => ?_⟩
  -- the maker has the key of the request, so it agrees with the request
  obtain ⟨maker, hmaker, hkey, hmade⟩ := hmakes
  exact ⟨maker, hmaker, hmade, hagree maker hmaker hkey⟩

/-- One query is asked for twice, first for one operation and then for another. -/
def echoOperations : List (Event echoLanguage Unit) :=
  let request (operationName : String) : Request echoLanguage :=
    { echoRequest "a" with operationName := some operationName }
  .arrive (echoServer 0 {}) (request "first") :: List.replicate 7 (.step 0) ++
    [.arrive (echoServer 0 {}) (request "second"), .step 1]

/-- For which operations the requests are made, whether the compiler was called for them, and what
    they are to run in the end. -/
theorem echoOperations_jobs :
    ((⟨echoWorld 1, []⟩ : Traffic echoLanguage Unit).run echoOperations).jobs.map
      (fun job => (job.request.operationName, Call.compiles job.calls, job.phase.running?)) =
      [(some "first", true, none), (some "second", false, some "a")] := by decide +kernel

/-- The second request is to run the artifact that was made for the first. -/
theorem exists_second_echoOperations :
    ∃ job ∈ ((⟨echoWorld 1, []⟩ : Traffic echoLanguage Unit).run echoOperations).jobs,
      job.request.operationName = some "second" ∧ job.Runs "a" := by
  have hlisted : (some "second", false, some "a") ∈
      [(some "first", true, none), (some "second", false, some "a")] := by simp
  rw [← echoOperations_jobs, List.mem_map] at hlisted
  obtain ⟨job, hjob, heq⟩ := hlisted
  simp only [Prod.mk.injEq] at heq
  exact ⟨job, hjob, heq.1, Or.inl heq.2.2⟩

/-- The artifact that the second request runs was made by a request with its key. -/
theorem artifacts_made_under_own_key_echoOperations :
    ∃ job ∈ ((⟨echoWorld 1, []⟩ : Traffic echoLanguage Unit).run echoOperations).jobs,
      job.request.operationName = some "second" ∧ job.Runs "a" ∧
      ∃ maker ∈ ((⟨echoWorld 1, []⟩ : Traffic echoLanguage Unit).run echoOperations).jobs,
        maker.key = job.key ∧ maker.Made "a" := by
  have hclients : ∀ event ∈ echoOperations, ∀ key, ¬event.Writes key := by
    simp [echoOperations, Event.Writes]
  obtain ⟨job, hjob, hoperation, hruns⟩ := exists_second_echoOperations
  have hempty : (echoWorld 1).cache.slots = [] := rfl
  exact ⟨job, hjob, hoperation, hruns,
    (artifacts_made_under_own_key hempty hclients job hjob "a" hruns).1⟩

/-- The second request runs what was made for the first one only: nothing was made for its own
    operation. -/
theorem runs_artifact_of_other_operation :
    ¬∀ events : List (Event echoLanguage Unit), (∀ event ∈ events, ∀ key, ¬event.Writes key) →
      ((⟨echoWorld 1, []⟩ : Traffic echoLanguage Unit).run events).RunsOwn := by
  intro hown
  have hclients : ∀ event ∈ echoOperations, ∀ key, ¬event.Writes key := by
    simp [echoOperations, Event.Writes]
  obtain ⟨job, hjob, hoperation, hruns⟩ := exists_second_echoOperations
  obtain ⟨maker, hmaker, ⟨document, hmade⟩, -, -, hsame⟩ :=
    hown echoOperations hclients job hjob "a" hruns
  -- the maker has called the compiler, but no request for the second operation has
  have hcompiles : Call.compiles maker.calls = true :=
    List.any_eq_true.mpr ⟨_, hmade.subset (List.mem_append_right _ List.mem_cons_self), rfl⟩
  have hlisted : (maker.request.operationName, Call.compiles maker.calls, maker.phase.running?) ∈
      [(some "first", true, none), (some "second", false, some "a")] := by
    rw [← echoOperations_jobs]
    exact List.mem_map_of_mem hmaker
  rw [hsame, hoperation, hcompiles] at hlisted
  simp at hlisted

end Traffic
end TieredQuery
