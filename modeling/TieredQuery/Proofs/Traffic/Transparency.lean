import TieredQuery.Proofs.Dispatch.PureEngine
import TieredQuery.Proofs.Dispatch.Succession
import TieredQuery.Proofs.Traffic.Basic

/-!
# Compiling and caching cannot be seen in the responses

Where the engine has no state and compiles faithfully, every request gets the response of the
reference, which has no cache and compiles nothing. That holds for any interleaving of any number
of requests, with any settings of the executors and of the cache, and while entries are evicted,
expire or are removed.

The invariant `Sound` says that each artifact in the cache was compiled from a valid query with
the very key that it is stored under, and that each request is `OnTrack` to the response of the
reference. Only requests for one query text share a key, so an artifact found in the cache was
compiled for the request that finds it.

## Key results

- `response_of_call`: the call that settles a request gives it the response of the reference
- `onTrack_step`, `compiledFor_of_rule?`: what one step of a request keeps
- `sound_after`, `sound_run`: what one event and a whole run keep
- `adaptive_execution_transparent`
-/

namespace TieredQuery

variable {L : Language} {σ : Type}

namespace PureEngine

/-- Whether a document is that of the query of a request, and valid. -/
def Valid (functions : PureEngine L) (schema : L.Schema) (request : Request L)
    (document : L.Document) : Prop :=
  functions.parse request.query = .ok document ∧ functions.validate schema document = .ok []

/-- Whether an artifact was compiled from the query of a request, for its operation. -/
def CompiledFor (functions : PureEngine L) (schema : L.Schema) (request : Request L)
    (artifact : L.Artifact) : Prop :=
  ∃ document, functions.Valid schema request document ∧
    functions.compile schema document request.operationName = .ok (.artifact artifact)

/-- Whether a request that is in a phase will get the response of the reference, or has it. -/
def OnTrack (functions : PureEngine L) (schema : L.Schema) (request : Request L) :
    Phase L → Prop
  | .arrived | .parsing => True
  | .validating document => functions.parse request.query = .ok document
  | .planning document | .compiling document _ | .declining document _
  | .interpreting document => functions.Valid schema request document
  | .adopting artifact _ | .running artifact _ => functions.CompiledFor schema request artifact
  | .settled _ _ response | .done _ response => response = functions.reference schema request

/-- The reference executes a valid query by the interpreter. -/
theorem reference_of_valid {functions : PureEngine L} {schema : L.Schema} {request : Request L}
    {document : L.Document} (h : functions.Valid schema request document) :
    functions.reference schema request = Call.executed (functions.interpret
      ⟨schema, document, request.variableValues, request.context, request.operationName⟩) := by
  rw [reference, h.1]
  dsimp only
  rw [h.2]

/-- An artifact compiled for a request gives the response of the reference. -/
theorem reference_of_compiledFor {functions : PureEngine L} (hfaithful : functions.Faithful)
    {schema : L.Schema} {request : Request L} {artifact : L.Artifact}
    (h : functions.CompiledFor schema request artifact) :
    functions.reference schema request = Call.executed
      (functions.run artifact L.noResolvers request.context request.variableValues) := by
  obtain ⟨document, hvalid, hcompile⟩ := h
  rw [reference_of_valid hvalid, hfaithful schema document _ artifact hcompile]

/-- Requests for one query text and one operation share their artifacts. -/
theorem compiledFor_congr {functions : PureEngine L} {schema : L.Schema}
    {request request' : Request L} {artifact : L.Artifact} (hquery : request.query = request'.query)
    (hoperation : request.operationName = request'.operationName)
    (h : functions.CompiledFor schema request artifact) :
    functions.CompiledFor schema request' artifact := by
  obtain ⟨document, ⟨hparse, hvalidate⟩, hcompile⟩ := h
  exact ⟨document, ⟨hquery ▸ hparse, hvalidate⟩, hoperation ▸ hcompile⟩

/-! ## One step of a request -/

/-- The call that settles a request on track gives the response of the reference. -/
theorem response_of_call {functions : PureEngine L} (hcompiles : functions.CompilesAlways)
    (hfaithful : functions.Faithful) {executor : Executor L} {request : Request L}
    {phase : Phase L} {w w' : World L σ} (h : functions.OnTrack executor.schema request phase)
    {call : Call L} (hcall : executor.call functions.engine request phase w = some (call, w'))
    {response : Response} (hresponse : call.response? = some response) :
    response = functions.reference executor.schema request := by
  -- Case split on the phases that call the engine: the reference makes the same call, or one that
  -- is answered alike.
  cases phase with
  | parsing =>
    cases hcall
    change Call.failure? (functions.parse request.query) = some response at hresponse
    unfold reference
    cases hparse : functions.parse request.query <;> rw [hparse] at hresponse <;>
      cases hresponse <;> rfl
  | validating document =>
    cases hcall
    have hparse : functions.parse request.query = .ok document := h
    change (Call.validate executor.schema document
      (functions.validate executor.schema document)).response? = some response at hresponse
    rw [reference, hparse]
    dsimp only
    cases hvalidate : functions.validate executor.schema document with
    | ok errors =>
      rw [hvalidate] at hresponse
      cases errors <;> cases hresponse
      rfl
    | error impossible => cases impossible
    | panic payload =>
      rw [hvalidate] at hresponse
      cases hresponse
      rfl
  | compiling document occurrences =>
    cases hcall
    -- compiling never fails, so it does not settle the request
    obtain ⟨result, hresult⟩ := hcompiles executor.schema document request.operationName
    change Call.failure? (functions.compile executor.schema document request.operationName) =
      some response at hresponse
    rw [hresult] at hresponse
    cases hresponse
  | interpreting document =>
    cases hcall
    cases hresponse
    exact (reference_of_valid h).symm
  | running artifact verdict =>
    cases hcall
    cases hresponse
    exact (reference_of_compiledFor hfaithful h).symm
  | _ => cases hcall

/-- A step of a request keeps it on track, if the artifact that the cache has for it, if any, was
    compiled for it. -/
theorem onTrack_step {functions : PureEngine L} (hcompiles : functions.CompilesAlways)
    (hfaithful : functions.Faithful) (executor : Executor L) {request : Request L}
    {phase : Phase L} {w : World L σ} (h : functions.OnTrack executor.schema request phase)
    (hentry : ∀ artifact, (w.cache.entry w.now request.query).artifact? = some artifact →
      functions.CompiledFor executor.schema request artifact) :
    functions.OnTrack executor.schema request
      (executor.step functions.engine request phase w).1 := by
  have hleads := executor.leadsTo_step functions.engine request phase w
  generalize (executor.step functions.engine request phase w).1 = next at hleads ⊢
  cases hleads with
  | hit hfound | race hfound | kept hfound => exact hentry _ hfound
  | miss _ => trivial
  | parsed hparse => exact hparse
  | validated hvalidate => exact ⟨h, hvalidate⟩
  | compiled hcompile => exact ⟨_, h, hcompile⟩
  | settles hcall hresponse => exact response_of_call hcompiles hfaithful h hcall hresponse
  | due _ | notDue _ | declined _ _ | passedOver _ _ | adopted _ | remembered | counted
  | answered | stays => exact h

/-- The artifact that a request stores was compiled for it. -/
theorem compiledFor_of_rule? {functions : PureEngine L} {schema : L.Schema} {request : Request L}
    {phase : Phase L} (h : functions.OnTrack schema request phase) {tiering : Tiering}
    {rule : Entry L.Artifact → Option (Entry L.Artifact)} (hrule : phase.rule? tiering = some rule)
    {entry stored : Entry L.Artifact}
    (hentry : ∀ artifact, entry.artifact? = some artifact →
      functions.CompiledFor schema request artifact)
    (hstored : rule entry = some stored) {artifact : L.Artifact}
    (hartifact : stored.artifact? = some artifact) :
    functions.CompiledFor schema request artifact := by
  cases phase with
  | arrived =>
    cases hrule
    cases hstored
  | planning document =>
    -- planning stores counts, never an artifact
    cases hrule
    dsimp only at hstored
    unfold Entry.plan at hstored
    split at hstored
    · cases hstored
    · dsimp only at hstored
      split at hstored
      · cases hstored
        cases hartifact
      · split at hstored
        · cases hstored
        · cases hstored
          cases hartifact
  | adopting fresh occurrences =>
    -- the artifact that was in the entry stays, and otherwise it is the one of the request
    cases hrule
    obtain ⟨n, -, rfl⟩ := Entry.adopt_eq_some hstored
    cases hkept : entry.artifact? with
    | none =>
      rw [hkept] at hartifact
      cases hartifact
      exact h
    | some kept =>
      rw [hkept] at hartifact
      cases hartifact
      exact hentry _ hkept
  | declining document occurrences =>
    cases hrule
    dsimp only at hstored
    unfold Entry.decline at hstored
    split at hstored
    · cases hstored
    · cases hstored
      cases hartifact
  | _ => cases hrule

end PureEngine

/-! ## Runs -/

namespace Traffic

/-- The requests made in a run. -/
def requests (events : List (Event L σ)) : List (Request L) :=
  events.filterMap fun
    | .arrive _ request => some request
    | _ => none

/-- The requests in flight are on track, and each artifact in the cache was compiled for a request
    with the key that it is stored under. `made` is the requests that may arrive. -/
structure Sound (functions : PureEngine L) (schema : L.Schema) (made : Request L → Prop)
    (t : Traffic L σ) : Prop where
  jobs : ∀ job ∈ t.jobs, job.server.engine = functions.engine ∧
    job.server.executor.schema = schema ∧ made job.request ∧
    functions.OnTrack schema job.request job.phase
  slots : ∀ p ∈ t.world.cache.slots, ∀ artifact, p.2.value.artifact? = some artifact →
    ∃ request, made request ∧ p.1 = .ofText request.query ∧
      functions.CompiledFor schema request artifact

/-- Whether requests that share a key share their query and their operation. -/
def Consistent (made : Request L → Prop) : Prop :=
  ∀ request request', made request → made request' →
    Fingerprint.ofText request.query = .ofText request'.query →
    request.query = request'.query ∧ request.operationName = request'.operationName

/-- An artifact in the entry of a request's query was compiled for that request. -/
theorem compiledFor_of_entry {functions : PureEngine L} {schema : L.Schema}
    {made : Request L → Prop} (hconsistent : Consistent made) {t : Traffic L σ}
    (hsound : t.Sound functions schema made) {request : Request L} (hmade : made request)
    {artifact : L.Artifact}
    (h : (t.world.cache.entry t.world.now request.query).artifact? = some artifact) :
    functions.CompiledFor schema request artifact := by
  rcases QueryCache.entry_mem_slots t.world.cache t.world.now request.query with
    hunseen | ⟨slot, hslot, hvalue⟩
  · rw [hunseen] at h
    cases h
  · rw [hvalue] at h
    obtain ⟨other, hother, hkey, hcompiled⟩ := hsound.slots _ hslot artifact h
    obtain ⟨hquery, hoperation⟩ := hconsistent other request hother hmade hkey.symm
    exact PureEngine.compiledFor_congr hquery hoperation hcompiled

/-- Events that make no client write and let only the given requests arrive, at servers with the
    given engine and schema. -/
def Event.Admitted (functions : PureEngine L) (schema : L.Schema) (made : Request L → Prop) :
    Event L σ → Prop
  | .arrive server request =>
    server.engine = functions.engine ∧ server.executor.schema = schema ∧ made request
  | .write _ _ | .revise _ _ => False
  | _ => True

/-- One event leaves the requests on track and the artifacts in the cache in their places. -/
theorem sound_after {functions : PureEngine L} (hcompiles : functions.CompilesAlways)
    (hfaithful : functions.Faithful) {schema : L.Schema} {made : Request L → Prop}
    (hconsistent : Consistent made) {t : Traffic L σ} (hsound : t.Sound functions schema made)
    {event : Event L σ} (hevent : event.Admitted functions schema made) :
    (t.after event).Sound functions schema made := by
  constructor
  case jobs =>
    refine forall_jobs_after hsound.jobs ?_ ?_
    · rintro server request rfl
      exact ⟨hevent.1, hevent.2.1, hevent.2.2, trivial⟩
    · -- the request that moves is the only one whose phase changes
      rintro i job rfl hjob
      obtain ⟨hengine, hschema, hmade, htrack⟩ := hsound.jobs job (List.mem_of_getElem? hjob)
      subst hschema
      refine ⟨hengine, rfl, hmade, ?_⟩
      show functions.OnTrack _ job.request
        (job.server.executor.step job.server.engine job.request job.phase t.world).1
      rw [hengine]
      exact PureEngine.onTrack_step hcompiles hfaithful _ htrack fun artifact h =>
        compiledFor_of_entry hconsistent hsound hmade h
  case slots =>
    intro p hp artifact hartifact
    rcases mem_slots_after hp with hold | ⟨text, rule, haccess, hkey, hstored⟩
    · exact hsound.slots p hold artifact hartifact
    · -- what an event stores is what a request stores: clients do not write
      cases event with
      | step i =>
        cases hjob : t.jobs[i]? with
        | none => simp [access?, hjob] at haccess
        | some job =>
          rw [access?_step hjob, Option.map_eq_some_iff] at haccess
          obtain ⟨_, hrule, hpair⟩ := haccess
          cases hpair
          obtain ⟨-, -, hmade, htrack⟩ := hsound.jobs job (List.mem_of_getElem? hjob)
          exact ⟨job.request, hmade, hkey, PureEngine.compiledFor_of_rule? htrack hrule
            (fun artifact h => compiledFor_of_entry hconsistent hsound hmade h) hstored hartifact⟩
      | read _ =>
        cases haccess
        cases hstored
      | write _ _ | revise _ _ => exact False.elim hevent
      | _ => cases haccess

/-- So does a run. -/
theorem sound_run {functions : PureEngine L} (hcompiles : functions.CompilesAlways)
    (hfaithful : functions.Faithful) {schema : L.Schema} {made : Request L → Prop}
    (hconsistent : Consistent made) {t : Traffic L σ} (hsound : t.Sound functions schema made)
    {events : List (Event L σ)} (hevents : ∀ event ∈ events, event.Admitted functions schema made) :
    (t.run events).Sound functions schema made := by
  induction events generalizing t with
  | nil => exact hsound
  | cons event events ih =>
    obtain ⟨hevent, hrest⟩ := List.forall_mem_cons.mp hevents
    exact ih (sound_after hcompiles hfaithful hconsistent hsound hevent) hrest

/-- A request that is on track is answered by the reference's response when it is finished without
    a pause. -/
theorem finish_of_sound {functions : PureEngine L} (hcompiles : functions.CompilesAlways)
    (hfaithful : functions.Faithful) {schema : L.Schema} {made : Request L → Prop}
    (hconsistent : Consistent made) {t : Traffic L σ} (hsound : t.Sound functions schema made)
    {job : Job L σ} (hjob : job ∈ t.jobs) :
    (job.server.executor.finish job.server.engine job.request job.phase t.world).1 =
      functions.reference schema job.request := by
  -- finishing the request is one more run, in which nothing but its own steps happens
  obtain ⟨i, hi⟩ := List.mem_iff_getElem?.mp hjob
  obtain ⟨n, verdict, -, -, hdone⟩ := run_steps_of_job hi
  have hsteps : ∀ event ∈ List.replicate n (Event.step i : Event L σ),
      event.Admitted functions schema made := by
    intro event hevent
    rw [List.eq_of_mem_replicate hevent]
    trivial
  have hfinal := sound_run hcompiles hfaithful hconsistent hsound hsteps
  exact (hfinal.jobs _ (List.mem_of_getElem? hdone)).2.2.2

/-- Whatever the interleaving of requests, the settings of executors and cache, and the evictions,
    expiries and removals, each answered request has got the response of the reference, and each
    other one gets it if it is finished now. -/
theorem adaptive_execution_transparent {functions : PureEngine L}
    (hcompiles : functions.CompilesAlways) (hfaithful : functions.Faithful) {schema : L.Schema}
    {world : World L σ} (hempty : world.cache.slots = []) {events : List (Event L σ)}
    (hservers : ∀ server request, .arrive server request ∈ events →
      server.engine = functions.engine ∧ server.executor.schema = schema)
    (hclients : ∀ event ∈ events, ∀ key, ¬event.Writes key)
    (hoperations : ∀ request ∈ requests events, ∀ request' ∈ requests events,
      request.query = request'.query → request.operationName = request'.operationName)
    (hcollisions : ∀ request ∈ requests events, ∀ request' ∈ requests events,
      Fingerprint.ofText request.query = .ofText request'.query → request.query = request'.query) :
    ∀ job ∈ ((⟨world, []⟩ : Traffic L σ).run events).jobs,
      (∀ response, job.phase.response? = some response →
        response = functions.reference schema job.request) ∧
      (job.server.executor.finish job.server.engine job.request job.phase
        ((⟨world, []⟩ : Traffic L σ).run events).world).1 =
        functions.reference schema job.request := by
  -- requests with one key have one text, and so one operation
  have hconsistent : Consistent (· ∈ requests events) := fun request request' h h' hkey =>
    have hquery := hcollisions request h request' h' hkey
    ⟨hquery, hoperations request h request' h' hquery⟩
  have hsound : (⟨world, []⟩ : Traffic L σ).Sound functions schema (· ∈ requests events) :=
    ⟨fun job hjob => (nomatch hjob), fun p hp => by rw [hempty] at hp; cases hp⟩
  have hevents : ∀ event ∈ events, event.Admitted functions schema (· ∈ requests events) := by
    intro event hevent
    cases event with
    | arrive server request =>
      obtain ⟨hengine, hschema⟩ := hservers server request hevent
      exact ⟨hengine, hschema, List.mem_filterMap.mpr ⟨_, hevent, rfl⟩⟩
    | write text entry => exact hclients _ hevent _ rfl
    | revise text rule => exact hclients _ hevent _ rfl
    | _ => trivial
  have hrun := sound_run hcompiles hfaithful hconsistent hsound hevents
  intro job hjob
  have hfinish := finish_of_sound hcompiles hfaithful hconsistent hrun hjob
  refine ⟨fun response hresponse => ?_, hfinish⟩
  rw [← hfinish, Executor.finish_of_answered _ _ _ _ hresponse]

/-- Two executors of different settings race to compile one query. -/
def echoRace : List (Event echoLanguage Unit) :=
  [.arrive (echoServer 0 {}) (echoRequest "a"),
    .arrive (echoServer 1 { threshold := 0, onDecline := .remember }) (echoRequest "a"),
    .step 0, .step 1, .step 1, .step 0, .step 0, .step 1, .step 0, .step 1, .step 1, .step 0,
    .step 1, .step 0, .step 0, .step 1, .step 1, .step 0, .step 0, .step 1]

/-- Both requests of the race are answered, and get the response of the reference. -/
theorem adaptive_execution_transparent_echoRace :
    (((⟨echoWorld 1, []⟩ : Traffic echoLanguage Unit).run echoRace).jobs.map
      fun job => job.phase.response?.isSome) = [true, true] ∧
    ∀ job ∈ ((⟨echoWorld 1, []⟩ : Traffic echoLanguage Unit).run echoRace).jobs,
      ∀ response, job.phase.response? = some response →
        response = echo.reference () job.request := by
  have hrequests : requests echoRace = [echoRequest "a", echoRequest "a"] := rfl
  refine ⟨by decide +kernel, fun job hjob => ?_⟩
  refine (adaptive_execution_transparent echo_compilesAlways echo_faithful rfl ?_ ?_ ?_ ?_ job
    hjob).1
  · intro server request h
    simp only [echoRace, List.mem_cons, Event.arrive.injEq, reduceCtorEq, List.not_mem_nil,
      or_false] at h
    rcases h with ⟨rfl, rfl⟩ | ⟨rfl, rfl⟩ <;> exact ⟨rfl, rfl⟩
  · simp [echoRace, Event.Writes]
  · rw [hrequests]
    simp
  · rw [hrequests]
    simp

end Traffic
end TieredQuery
