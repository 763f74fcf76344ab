import TieredQuery.Proofs.Dispatch.PureEngine

/-!
# What one request does to the cache

A request that is not disturbed, and whose calls take no time, uses the cache up to three times, but
it stores at most once, and only the entry of its own query. Reading that query is not without
effect: its slot moves to the front, or goes if it has expired. So the cache that a request leaves
is the one that it has found, read once, with what it has stored in front (`Executor.Stands`).

`Executor.stores` lists what a request stores, as `Executor.calls` lists its calls. `Phase.Written`
says what has been called and stored when a request is in a phase. It depends on the entry that was
found when the request arrived: as long as the request has stored nothing it finds the same again.

## Key results

- `finish_cache_of_rank_le_three`: executing the query leaves the cache alone
- `written_step`, `stands_step`: what is kept by every step
- `execute_frames_cache`: what a request changes, and what it does not
-/

namespace TieredQuery

variable {L : Language} {σ A : Type}

/-! ## Storing entries one after the other -/

namespace RecencyMap

variable {κ β : Type} [DecidableEq κ]

/-- The map after some values of a key were stored. -/
def insertAll (m : RecencyMap κ β) (now : Nat) (key : κ) (values : List β) : RecencyMap κ β :=
  values.foldl (fun m value => m.insert now key value) m

/-- Two lists of values are stored one after the other. -/
theorem insertAll_append (m : RecencyMap κ β) (now : Nat) (key : κ) (values values' : List β) :
    m.insertAll now key (values ++ values') =
      (m.insertAll now key values).insertAll now key values' := List.foldl_append

/-- A key that has been read and then stored is the most recently used one already. -/
theorem touch_insertAll_touch (m : RecencyMap κ β) (now : Nat) (key : κ) (values : List β) :
    ((m.touch now key).insertAll now key values).touch now key =
      (m.touch now key).insertAll now key values := by
  -- induction on the values, the last of them first: it is the one that was stored most recently
  induction values using List.reverseRecOn with
  | nil => exact touch_touch ..
  | append_singleton values value _ =>
    rw [insertAll_append]
    exact touch_insert ..

/-- Where reading a key does nothing, its slot is in front. -/
theorem head?_of_touch_eq {m : RecencyMap κ β} (now : Nat) {key : κ} {slot : Slot β}
    (h : m.touch now key = m) (hslot : m.slot? key = some slot) :
    m.slots.head? = some (key, slot) := by
  have hself : (m.touch now key).slot? key = some slot := by rw [h, hslot]
  rw [slot?_touch_self, hslot, Option.filter_some] at hself
  have hslots : m.slots = m.touchSlots now key := congrArg slots h.symm
  -- the slot that reading brings to the front is there already
  rw [hslots, touchSlots, hslot]
  cases hexpired : m.isExpired now slot with
  | true => simp [hexpired] at hself
  | false => simp [hexpired]

end RecencyMap

namespace QueryCache

/-- Revising a text that is the most recently used one only stores the replacement, if any. -/
theorem revise_of_touch_eq {cache : QueryCache A} {now : Nat} {text : String}
    (h : cache.touch now (.ofText text) = cache) (rule : Entry A → Option (Entry A)) :
    revise cache now text rule =
      cache.insertAll now (.ofText text) (rule (entry cache now text)).toList := by
  cases hrule : rule (entry cache now text) with
  | none => rw [revise_of_none hrule, h]; rfl
  | some replacement => rw [revise_of_some hrule]; rfl

/-- What is read again at once is what was read. -/
theorem entry_touch (cache : QueryCache A) (now : Nat) (text : String) :
    entry (cache.touch now (.ofText text)) now text = entry cache now text := by
  rw [entry, entry, RecencyMap.live?_touch_self]

end QueryCache

/-! ## What a request stores -/

namespace Executor

/-- What the next step of a request stores as the entry of its query, if anything. -/
def store? (executor : Executor L) (request : Request L) (phase : Phase L) (w : World L σ) :
    Option (Entry L.Artifact) :=
  (phase.rule? executor.tiering).bind fun rule => rule (w.cache.entry w.now request.query)

/-- What a request stores from a phase on, if it is not disturbed. -/
def stores (executor : Executor L) (engine : Engine L σ) (request : Request L) (phase : Phase L)
    (w : World L σ) : List (Entry L.Artifact) :=
  match _h : phase.response? with
  | some _ => []
  | none =>
    let next := executor.step engine request phase w
    (executor.store? request phase w).toList ++ executor.stores engine request next.1 next.2
termination_by phase.rank
decreasing_by exact executor.rank_step_lt engine request phase w _h

/-- Nothing is stored for an answered request. -/
theorem stores_of_answered (executor : Executor L) (engine : Engine L σ) (request : Request L)
    {phase : Phase L} {response : Response} (w : World L σ) (h : phase.response? = some response) :
    executor.stores engine request phase w = [] := by
  rw [stores]; split <;> simp_all

/-- What a step stores comes before what the later steps store. -/
theorem stores_of_unanswered (executor : Executor L) (engine : Engine L σ) (request : Request L)
    {phase : Phase L} (w : World L σ) (h : phase.response? = none) :
    executor.stores engine request phase w = (executor.store? request phase w).toList ++
      executor.stores engine request (executor.step engine request phase w).1
        (executor.step engine request phase w).2 := by
  rw [stores]; split <;> simp_all

/-- Nothing more is stored for a settled request. -/
theorem stores_of_settled (executor : Executor L) (engine : Engine L σ) (request : Request L)
    (verdict : Verdict) (response : Response) (w : World L σ) :
    executor.stores engine request (.settled false verdict response) w = [] := by
  rw [executor.stores_of_unanswered engine request w rfl,
    executor.stores_of_unanswered engine request _ rfl,
    executor.stores_of_answered engine request _ rfl]
  rfl

/-- After its first step a request uses the cache only to store. -/
theorem step_cache_of_touch_eq (executor : Executor L) {engine : Engine L σ}
    (hquiet : engine.Quiet) (request : Request L) (phase : Phase L) {w : World L σ}
    (h : w.cache.touch w.now (.ofText request.query) = w.cache) :
    (executor.step engine request phase w).2.cache =
      w.cache.insertAll w.now (.ofText request.query) (executor.store? request phase w).toList := by
  rw [step_cache executor hquiet, store?]
  cases phase.rule? executor.tiering with
  | none => rfl
  | some rule => exact QueryCache.revise_of_touch_eq h rule

end Executor

/-! ## What has been called and stored -/

/-- Whether the calls of a request are such that nothing is stored: it has found an artifact, or
    has failed before its query was executed, or its query was interpreted because it could not be
    compiled, and this is not remembered. -/
def Call.spares (tiering : Tiering) : List (Call L) → Bool
  | [run ..] => true
  | [parse _ (.error _)] => true
  | [parse _ (.panic _)] => true
  | [parse .., validate _ _ (.ok (_ :: _))] => true
  | [parse .., validate _ _ (.panic _)] => true
  | [parse .., validate .., compile _ _ _ (.error _)] => true
  | [parse .., validate .., compile _ _ _ (.panic _)] => true
  | [parse .., validate .., compile _ _ _ (.ok (.declined _)), interpret ..] =>
    tiering.onDecline == .retry
  | _ => false

/-- Whether a failure to compile is retried, as the calls and as the settings tell it. -/
theorem Tiering.onDecline_eq_retry (tiering : Tiering) :
    (tiering.onDecline == .retry) = !tiering.remembers := by
  unfold remembers
  cases tiering.onDecline <;> rfl

namespace Phase

/-- What has been called and stored by an undisturbed request that is in a phase now and has found
    an entry when it arrived. -/
def Written (executor : Executor L) (request : Request L) (entry : Entry L.Artifact) :
    Phase L → List (Call L) → List (Entry L.Artifact) → Prop
  | arrived, calls, stores => calls = [] ∧ stores = []
  | parsing, calls, stores => calls = [] ∧ stores = [] ∧ entry.artifact? = none
  | validating document, calls, stores =>
    calls = [.parse request.query (.ok document)] ∧ stores = [] ∧ entry.artifact? = none
  | planning document, calls, stores | compiling document _, calls, stores =>
    calls = checks executor request document ∧ stores = [] ∧ entry.artifact? = none
  | adopting artifact _, calls, stores => stores = [] ∧ entry.artifact? = none ∧
    ∃ document, calls = checks executor request document ++
      [compilation executor request document (.artifact artifact)]
  | declining document _, calls, stores =>
    stores = [] ∧ entry.artifact? = none ∧ executor.tiering.remembers = true ∧
      ∃ reason, calls = checks executor request document ++
        [compilation executor request document (.declined reason)]
  | interpreting document, calls, stores =>
    calls = checks executor request document ∧ stores.length = 1 ∨
      ∃ reason, calls = checks executor request document ++
          [compilation executor request document (.declined reason)] ∧
        stores.length = if executor.tiering.remembers then 1 else 0
  | running _ _, calls, stores => calls = [] ∧ stores = [] ∨
    ∃ document artifact, calls = checks executor request document ++
        [compilation executor request document (.artifact artifact)] ∧ stores.length = 1
  | settled _ _ _, calls, stores | done _ _, calls, stores =>
    stores.length ≤ 1 ∧ (stores = [] ↔ Call.spares executor.tiering calls = true)

variable (executor : Executor L) (request : Request L) {entry : Entry L.Artifact}

/-- A request that finds an artifact has called nothing, and stores nothing. -/
theorem written_found (key : Fingerprint) :
    Written executor request entry (Move.found key entry).phase [] [] := by
  unfold Move.found
  split
  next artifact _ => exact Or.inl ⟨rfl, rfl⟩
  next hnone => exact ⟨rfl, rfl, hnone⟩

/-- A query that could not be parsed is stored nowhere. -/
theorem written_parsed (hnone : entry.artifact? = none) (key : Fingerprint)
    (outcome : Outcome Diagnostic L.Document) :
    Written executor request entry (Move.parsed key outcome).phase
      [.parse request.query outcome] [] := by
  cases outcome with
  | ok document => exact ⟨rfl, rfl, hnone⟩
  | error diagnostic => exact ⟨Nat.zero_le 1, by simp [Call.spares]⟩
  | panic payload => exact ⟨Nat.zero_le 1, by simp [Call.spares]⟩

/-- A query that is not valid is stored nowhere. -/
theorem written_validated (hnone : entry.artifact? = none) (key : Fingerprint)
    (document : L.Document) (outcome : Outcome Empty (List Diagnostic)) :
    Written executor request entry (Move.validated key document outcome).phase
      [.parse request.query (.ok document), .validate executor.schema document outcome] [] := by
  cases outcome with
  | ok errors =>
    cases errors with
    | nil => exact ⟨rfl, rfl, hnone⟩
    | cons error errors => exact ⟨Nat.zero_le 1, by simp [Call.spares]⟩
  | error impossible => exact nomatch impossible
  | panic payload => exact ⟨Nat.zero_le 1, by simp [Call.spares]⟩

/-- A valid query that is interpreted at once has been counted; it is not run, since it had no
    artifact when the request arrived. -/
theorem written_planned (hnone : entry.artifact? = none) (key : Fingerprint)
    (document : L.Document) :
    Written executor request entry
      (Move.planned key document (entry.plan executor.tiering).2).phase
      (checks executor request document) (entry.plan executor.tiering).1.toList := by
  rcases Entry.plan_of_artifact?_eq_none executor.tiering hnone with
    ⟨-, -, hplan⟩ | ⟨-, hplan⟩ | ⟨-, hplan⟩ <;> rw [hplan]
  · exact Or.inl ⟨rfl, rfl⟩
  · exact ⟨rfl, rfl, hnone⟩
  · exact Or.inl ⟨rfl, rfl⟩

/-- A failure to compile is stored by the next step, if at all; an error or a panic is not. -/
theorem written_compiled (hnone : entry.artifact? = none) (key : Fingerprint)
    (document : L.Document) (occurrences : Nat)
    (outcome : Outcome Diagnostic (Compilation L.Artifact)) :
    Written executor request entry
      (Move.compiled key executor.tiering document occurrences outcome).phase
      (checks executor request document ++
        [.compile executor.schema document request.operationName outcome]) [] := by
  cases outcome with
  | ok result =>
    cases result with
    | artifact artifact => exact ⟨rfl, hnone, document, rfl⟩
    | declined reason =>
      unfold Move.compiled
      dsimp only
      -- the settings say whether the failure is to be stored or the query interpreted at once
      split
      next hremembers => exact ⟨rfl, hnone, hremembers, reason, rfl⟩
      next hforgets => exact Or.inr ⟨reason, rfl, by rw [if_neg hforgets]; rfl⟩
  | error diagnostic => exact ⟨Nat.zero_le 1, by simp [Call.spares, checks]⟩
  | panic payload => exact ⟨Nat.zero_le 1, by simp [Call.spares, checks]⟩

/-- Interpreting a query stores nothing, and closes the sequence of its calls. -/
theorem written_interpreted (key : Fingerprint) {document : L.Document} {calls : List (Call L)}
    {stores : List (Entry L.Artifact)}
    (h : Written executor request entry (.interpreting document) calls stores)
    (outcome : Outcome Diagnostic Output) :
    Written executor request entry (Move.ended key .interpreted outcome).phase
      (calls ++ [.interpret (executor.interpretation request document) outcome]) stores := by
  obtain ⟨given, hphase⟩ := response_ended (L := L) key .interpreted outcome
  rw [hphase]
  rcases h with ⟨rfl, hlength⟩ | ⟨reason, rfl, hlength⟩
  · -- the occurrence was counted, or a remembered failure heeded: one entry was stored
    refine ⟨Nat.le_of_eq hlength, ?_⟩
    rw [← List.length_eq_zero_iff, hlength]
    simp [Call.spares, checks]
  · -- the one call sequence for which the settings decide
    have hspares : Call.spares executor.tiering (checks executor request document ++
        [compilation executor request document (.declined reason)] ++
        [.interpret (executor.interpretation request document) outcome]) =
        !executor.tiering.remembers := executor.tiering.onDecline_eq_retry
    rw [Written, hspares, ← List.length_eq_zero_iff, hlength]
    cases executor.tiering.remembers <;> simp

/-- Running an artifact stores nothing either. -/
theorem written_ran (key : Fingerprint) {artifact : L.Artifact} {verdict : Verdict}
    {calls : List (Call L)} {stores : List (Entry L.Artifact)}
    (h : Written executor request entry (.running artifact verdict) calls stores)
    (outcome : Outcome Diagnostic Output) :
    Written executor request entry (Move.ended key verdict outcome).phase
      (calls ++ [.run artifact L.noResolvers request.context request.variableValues outcome])
      stores := by
  obtain ⟨given, hphase⟩ := response_ended (L := L) key verdict outcome
  rw [hphase]
  rcases h with ⟨rfl, rfl⟩ | ⟨document, compiled, rfl, hlength⟩
  · exact ⟨Nat.zero_le 1, by simp [Call.spares]⟩
  · -- the artifact was compiled for this request, which has stored it
    refine ⟨Nat.le_of_eq hlength, ?_⟩
    rw [← List.length_eq_zero_iff, hlength]
    simp [Call.spares, checks, compilation]

end Phase

namespace Executor

variable (executor : Executor L) {engine : Engine L σ} (request : Request L)
  {entry : Entry L.Artifact} {phase : Phase L} {calls : List (Call L)}
  {stores : List (Entry L.Artifact)}

/-- A step adds its call and what it stores. Before anything is stored it finds the entry that the
    request has found when it arrived. -/
theorem written_step (engine : Engine L σ) {w : World L σ}
    (hentry : stores = [] → w.cache.entry w.now request.query = entry)
    (h : phase.Written executor request entry calls stores) :
    (executor.step engine request phase w).1.Written executor request entry
      (calls ++ executor.made engine request phase w)
      (stores ++ (executor.store? request phase w).toList) := by
  -- until something is stored, the entry is the one found on arrival; the cases use no other
  cases phase with
  | arrived =>
    obtain ⟨rfl, rfl⟩ := h
    obtain rfl := hentry rfl
    exact Phase.written_found executor request _
  | parsing =>
    obtain ⟨rfl, rfl, hnone⟩ := h
    exact Phase.written_parsed executor request hnone _ _
  | validating document =>
    obtain ⟨rfl, rfl, hnone⟩ := h
    exact Phase.written_validated executor request hnone _ document _
  | planning document =>
    obtain ⟨rfl, rfl, hnone⟩ := h
    obtain rfl := hentry rfl
    rw [executor.phase_planning]
    exact Phase.written_planned executor request hnone _ document
  | compiling document occurrences =>
    obtain ⟨rfl, rfl, hnone⟩ := h
    exact Phase.written_compiled executor request hnone _ document occurrences _
  | adopting artifact occurrences =>
    obtain ⟨rfl, hnone, document, rfl⟩ := h
    obtain rfl := hentry rfl
    refine Or.inr ⟨document, artifact, List.append_nil _, ?_⟩
    show ((w.cache.entry w.now request.query).adopt occurrences artifact).1.toList.length = 1
    -- without an artifact in the entry the fresh one is stored
    rw [Entry.adopt, hnone]
    rfl
  | declining document occurrences =>
    obtain ⟨rfl, hnone, hremembers, reason, rfl⟩ := h
    obtain rfl := hentry rfl
    refine Or.inr ⟨reason, List.append_nil _, ?_⟩
    show ((w.cache.entry w.now request.query).decline occurrences).toList.length = _
    -- without an artifact in the entry the failure is stored
    rw [Entry.decline, Entry.isCompiled, hnone, hremembers]
    rfl
  | interpreting document =>
    show Phase.Written executor request entry _ _ (stores ++ [])
    rw [List.append_nil]
    exact Phase.written_interpreted executor request _ h _
  | running artifact verdict =>
    show Phase.Written executor request entry _ _ (stores ++ [])
    rw [List.append_nil]
    exact Phase.written_ran executor request _ h _
  | settled counted verdict response =>
    rw [made_of_call_eq_none rfl, store?, List.append_nil]
    cases counted <;> exact (List.append_nil stores).symm ▸ h
  | done verdict response =>
    show Phase.Written executor request entry _ (calls ++ []) (stores ++ [])
    rw [List.append_nil, List.append_nil]
    exact h

/-- Where a request stands that has read the entry of its query in a cache: the time has not
    changed, and the cache has only what the request has stored besides. -/
structure Stands (executor : Executor L) (request : Request L) (before : World L σ)
    (phase : Phase L) (w : World L σ) (calls : List (Call L))
    (stores : List (Entry L.Artifact)) : Prop where
  now : w.now = before.now
  cache : w.cache = (before.cache.touch before.now (.ofText request.query)).insertAll before.now
    (.ofText request.query) stores
  written : phase.Written executor request (before.cache.entry before.now request.query) calls
    stores

/-- A step keeps all this: what it stores comes to the front of the cache, and nothing else does. -/
theorem stands_step (hquiet : engine.Quiet) (hinstant : engine.Instant) {before w : World L σ}
    (h : executor.Stands request before phase w calls stores) :
    executor.Stands request before (executor.step engine request phase w).1
      (executor.step engine request phase w).2
      (calls ++ executor.made engine request phase w)
      (stores ++ (executor.store? request phase w).toList) where
  now := (now_step executor hinstant request phase w).trans h.now
  cache := by
    -- the text has been read before, and no time has passed since
    have hread : w.cache.touch w.now (.ofText request.query) = w.cache := by
      rw [h.now, h.cache]
      exact RecencyMap.touch_insertAll_touch ..
    rw [executor.step_cache_of_touch_eq hquiet request phase hread, h.now,
      RecencyMap.insertAll_append, ← h.cache]
  written := by
    refine executor.written_step request engine (fun hstores => ?_) h.written
    rw [h.now, h.cache, hstores]
    exact QueryCache.entry_touch ..

/-- And so do all steps that are left. -/
theorem stands_finish (hquiet : engine.Quiet) (hinstant : engine.Instant) {before w : World L σ}
    (h : executor.Stands request before phase w calls stores) :
    ∃ verdict response, executor.Stands request before (.done verdict response)
      (executor.finish engine request phase w).2
      (calls ++ executor.calls engine request phase w)
      (stores ++ executor.stores engine request phase w) := by
  -- Induction on the steps that are left: the calls and stores of each are added up.
  induction phase, w using executor.steps_induction engine request generalizing calls stores with
  | answered phase w response hphase =>
    rw [executor.calls_of_answered engine request w hphase,
      executor.stores_of_answered engine request w hphase,
      executor.finish_of_answered engine request w hphase, List.append_nil, List.append_nil]
    cases phase with
    | done verdict response => exact ⟨verdict, response, h⟩
    | _ => cases hphase
  | unanswered phase w hphase ih =>
    rw [executor.calls_of_unanswered engine request w hphase,
      executor.stores_of_unanswered engine request w hphase,
      executor.finish_of_unanswered engine request w hphase, ← List.append_assoc,
      ← List.append_assoc]
    exact ih (executor.stands_step request hquiet hinstant h)

/-- The first step of a request reads the entry of its query, and stores nothing. -/
theorem stands_execute (hquiet : engine.Quiet) (hinstant : engine.Instant) (w : World L σ) :
    ∃ verdict response, executor.Stands request w (.done verdict response)
      (executor.execute engine request w).2 (executor.calls engine request .arrived w)
      (executor.stores engine request .arrived w) := by
  -- after the first step the cache has been read, and nothing called or stored
  have hfirst : executor.Stands request w (executor.step engine request .arrived w).1
      (executor.step engine request .arrived w).2 [] [] :=
    ⟨now_step executor hinstant request .arrived w,
      (World.lookUp_cache request.query w).trans (QueryCache.revise_of_none rfl),
      Phase.written_found executor request _⟩
  rw [executor.calls_of_unanswered engine request w rfl,
    executor.stores_of_unanswered engine request w rfl, execute,
    executor.finish_of_unanswered engine request w rfl]
  exact executor.stands_finish request hquiet hinstant hfirst

/-! ## What the cache does not depend on -/

/-- A request that only has to be executed yet, or has been, leaves the cache as it is. -/
theorem finish_cache_of_rank_le_three (hquiet : engine.Quiet) (hrank : phase.rank ≤ 3)
    (w : World L σ) : (executor.finish engine request phase w).2.cache = w.cache := by
  induction phase, w using executor.steps_induction engine request with
  | answered phase w response hphase => rw [executor.finish_of_answered engine request w hphase]
  | unanswered phase w hphase ih =>
    have hless := executor.rank_step_lt engine request phase w hphase
    rw [executor.finish_of_unanswered engine request w hphase, ih (by omega),
      step_cache executor hquiet]
    -- of the phases that are left none but the last uses the cache, and it only ends
    cases phase <;> first | rfl | exact absurd hrank (by simp [Phase.rank])

end Executor

/-- Two engines that differ at most in how they execute queries. -/
structure Engine.ChecksAlike (engine engine' : Engine L σ) : Prop where
  parse : engine.parse = engine'.parse
  validate : engine.validate = engine'.validate
  compile : engine.compile = engine'.compile

namespace Executor

variable (executor : Executor L) {engine engine' : Engine L σ} {request request' : Request L}

/-- Until its query is executed, a request does not use its variables or its context. -/
theorem step_eq_of_checksAlike (halike : engine.ChecksAlike engine')
    (hquery : request.query = request'.query)
    (hoperation : request.operationName = request'.operationName) {phase : Phase L}
    (hrank : 3 < phase.rank) (w : World L σ) :
    executor.step engine request phase w = executor.step engine' request' phase w := by
  -- the phases before the query is executed give the engine the query and the operation only
  cases phase with
  | arrived => rw [step, step, hquery]
  | parsing => rw [step_parsing, step_parsing, halike.parse, hquery]
  | validating document => rw [step_validating, step_validating, halike.validate, hquery]
  | planning document => rw [step, step, hquery]
  | compiling document occurrences =>
    rw [step_compiling, step_compiling, halike.compile, hquery, hoperation]
  | adopting artifact occurrences => rw [step, step, hquery]
  | declining document occurrences => rw [step, step, hquery]
  | interpreting document => exact absurd hrank (by simp [Phase.rank])
  | running artifact verdict => exact absurd hrank (by simp [Phase.rank])
  | settled counted verdict response => cases counted <;> exact absurd hrank (by simp [Phase.rank])
  | done verdict response => exact absurd hrank (by simp [Phase.rank])

/-- How its query is executed makes no difference to the cache that a request leaves. -/
theorem finish_cache_of_checksAlike (hquiet : engine.Quiet) (hquiet' : engine'.Quiet)
    (halike : engine.ChecksAlike engine') (hquery : request.query = request'.query)
    (hoperation : request.operationName = request'.operationName) (phase : Phase L)
    (w : World L σ) :
    (executor.finish engine request phase w).2.cache =
      (executor.finish engine' request' phase w).2.cache := by
  induction phase, w using executor.steps_induction engine request with
  | answered phase w response hphase =>
    rw [executor.finish_of_answered engine request w hphase,
      executor.finish_of_answered engine' request' w hphase]
  | unanswered phase w hphase ih =>
    -- before the query is executed both take the same steps; afterwards neither uses the cache
    by_cases hrank : phase.rank ≤ 3
    · rw [executor.finish_cache_of_rank_le_three request hquiet hrank,
        executor.finish_cache_of_rank_le_three request' hquiet' hrank]
    · rw [executor.finish_of_unanswered engine request w hphase, ih,
        executor.finish_of_unanswered engine' request' w hphase,
        executor.step_eq_of_checksAlike halike hquery hoperation (Nat.lt_of_not_le hrank)]

/-! ## The frame of a request -/

open RecencyMap

/-- What a request that is not disturbed does to the cache at a time. It stores at most one entry,
    that of its query. The slots of all other queries stay in their order, but for the last one when
    a new entry is stored in a full cache. If the query has a slot afterwards, it is the most
    recently used one. Nothing is stored exactly when the request has found an artifact, has failed
    before its query was executed, or could not compile it and does not remember this; then a slot
    of the query that has not expired stays as it is. How the query is executed, its variables and
    its context make no difference. -/
theorem execute_frames_cache (hquiet : engine.Quiet) (hinstant : engine.Instant)
    (request : Request L) (w : World L σ) :
    let key := Fingerprint.ofText request.query
    let after := (executor.execute engine request w).2.cache
    let calls := executor.calls engine request .arrived w
    let stores := executor.stores engine request .arrived w
    stores.length ≤ 1 ∧
    after = (w.cache.touch w.now key).insertAll w.now key stores ∧
    (erase key after.slots = erase key w.cache.slots ∨
      stores ≠ [] ∧ w.cache.slot? key = none ∧ w.cache.size = w.cache.capacity ∧
        erase key after.slots = w.cache.slots.dropLast) ∧
    (∀ slot, after.slot? key = some slot → after.slots.head? = some (key, slot)) ∧
    (stores = [] ↔ Call.spares executor.tiering calls = true) ∧
    (stores = [] → after.slot? key = w.cache.liveSlot? w.now key ∧
      erase key after.slots = erase key w.cache.slots) ∧
    (∀ entry, stores = [entry] → after.slot? key = some ⟨entry, w.now⟩) ∧
    ∀ (engine' : Engine L σ) (request' : Request L), engine'.Quiet → engine.ChecksAlike engine' →
      request.query = request'.query → request.operationName = request'.operationName →
      (executor.execute engine' request' w).2.cache = after := by
  intro key after calls stores
  obtain ⟨verdict, response, -, hafter, hlength, hspares⟩ :=
    executor.stands_execute request hquiet hinstant w
  change after = (w.cache.touch w.now key).insertAll w.now key stores at hafter
  change stores.length ≤ 1 at hlength
  -- the frame is read off the list of what was stored, which has one entry at most
  have hsame : ∀ (engine' : Engine L σ) (request' : Request L), engine'.Quiet →
      engine.ChecksAlike engine' → request.query = request'.query →
      request.operationName = request'.operationName →
      (executor.execute engine' request' w).2.cache = after :=
    fun engine' request' hquiet' halike hquery hoperation =>
      (executor.finish_cache_of_checksAlike hquiet hquiet' halike hquery hoperation .arrived
        w).symm
  have hread : stores = [] → after = w.cache.touch w.now key := fun hstores => by
    rw [hafter, hstores]
    rfl
  have hstored : ∀ entry, stores = [entry] → after = w.cache.insert w.now key entry :=
    fun entry hstores => by
      rw [hafter, hstores]
      exact insert_touch ..
  have hothers : stores = [] → erase key after.slots = erase key w.cache.slots := fun hstores => by
    rw [hread hstores]
    exact erase_touchSlots ..
  refine ⟨hlength, hafter, ?_, ?_, hspares, ?_, ?_, hsame⟩
  · -- the slots of all others: they stay, but for the one that made room for a new entry
    rcases Nat.le_one_iff_eq_zero_or_eq_one.mp hlength with hzero | hone
    · exact Or.inl (hothers (List.length_eq_zero_iff.mp hzero))
    · obtain ⟨entry, hstores⟩ := List.length_eq_one_iff.mp hone
      rw [hstored entry hstores, hstores]
      exact (erase_insert w.cache w.now key entry).imp_right fun h => ⟨List.cons_ne_nil _ _, h⟩
  · -- the slot of the query, if it has one, is in front
    intro slot hslot
    refine head?_of_touch_eq w.now ?_ hslot
    rw [hafter]
    exact touch_insertAll_touch ..
  · -- nothing was stored, so the query was only read
    intro hstores
    refine ⟨?_, hothers hstores⟩
    rw [hread hstores]
    exact slot?_touch_self ..
  · -- what was stored was stored at this time
    intro entry hstores
    rw [hstored entry hstores]
    exact slot?_insert_self ..

end Executor

/-- A cache that is full of two queries. -/
def fullWorld : World echoLanguage Unit :=
  { cache := ((QueryCache.withCapacity 2 none).insert 0 (.ofText "a") (.seen 1)).insert 0
      (.ofText "b") (.seen 1)
    engine := () }

/-- Echoes of which nothing comes back. -/
def mute : PureEngine echoLanguage :=
  { echo with interpret := fun _ => .error (.ofMessage "silence") }

/-- A third query is counted, and the one that was used least recently goes, also if interpreting
    fails. -/
theorem execute_frames_cache_echoFull :
    let executor := (echoServer 0 { threshold := 2 }).executor
    let key := Fingerprint.ofText (echoRequest "c").query
    let after := (executor.execute echo.engine (echoRequest "c") fullWorld).2.cache
    RecencyMap.erase key after.slots = [(.ofText "b", ⟨.seen 1, 0⟩)] ∧
    after.slots.head? = some (key, ⟨.seen 1, 0⟩) ∧
    (executor.execute mute.engine (echoRequest "c") fullWorld).2.cache = after := by
  obtain ⟨-, hafter, -, hfront, -, -, hslot, hsame⟩ := Executor.execute_frames_cache _
    echo.engine_quiet echo.engine_instant (echoRequest "c") fullWorld
  have hstores : (echoServer 0 { threshold := 2 }).executor.stores echo.engine (echoRequest "c")
      .arrived fullWorld = [.seen 1] := by decide +kernel
  refine ⟨?_, hfront _ (hslot _ hstores),
    hsame mute.engine (echoRequest "c") mute.engine_quiet ⟨rfl, rfl, rfl⟩ rfl rfl⟩
  -- the cache is the one before with the entry inserted
  rw [hafter, hstores]
  decide +kernel

end TieredQuery
