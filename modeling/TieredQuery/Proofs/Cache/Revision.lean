import TieredQuery.Executor
import TieredQuery.Proofs.Cache.Recency

/-!
# Revisions: the one way in which requests use the cache

Every access of the cache by a request reads the entry of its query and stores what a rule
replaces it with, if anything. `QueryCache.revise` is this access, `Phase.rule?` says by which rule
each phase of a request makes it, and `step_cache` says that no other step touches the cache, as
long as the engine leaves it alone (`Engine.Quiet`).

## Key results

- `step_cache`: the cache after a step of a request
- `live?_revise_self`: the entry that was revised
- `slot?_revise_of_ne`, `mem_slots_revise`: the other slots
-/

namespace TieredQuery

variable {L : Language} {σ A ρ : Type}

namespace QueryCache

/-- The cache after the entry of a query text was read and replaced by a rule. -/
def revise (cache : QueryCache A) (now : Nat) (text : String)
    (rule : Entry A → Option (Entry A)) : QueryCache A :=
  (update cache now text fun entry => (rule entry, ())).2.cache

/-- A revision that stores nothing only reads. -/
theorem revise_of_none {cache : QueryCache A} {now : Nat} {text : String}
    {rule : Entry A → Option (Entry A)} (h : rule (entry cache now text) = none) :
    revise cache now text rule = cache.touch now (.ofText text) := by
  simp [revise, update, visit, h]

/-- A revision that stores an entry is a store: that the text was read before does not show. -/
theorem revise_of_some {cache : QueryCache A} {now : Nat} {text : String}
    {rule : Entry A → Option (Entry A)} {replacement : Entry A}
    (h : rule (entry cache now text) = some replacement) :
    revise cache now text rule = cache.insert now (.ofText text) replacement := by
  rw [← cache.insert_touch now]
  simp [revise, update, visit, set, h]

/-- An update is a revision by the part of its rule that says what is stored. -/
theorem update_cache (cache : QueryCache A) (now : Nat) (text : String)
    (rule : Entry A → Option (Entry A) × ρ) :
    (update cache now text rule).2.cache = revise cache now text fun entry => (rule entry).1 := by
  cases h : (rule (entry cache now text)).1 with
  | none => rw [revise_of_none h]; simp [update, visit, h]
  | some replacement =>
    -- the update has read the text before it stores it, which makes no difference
    rw [revise_of_some h, ← cache.insert_touch now]
    simp [update, visit, set, h]

/-- A revision does not change the capacity. -/
@[simp] theorem capacity_revise (cache : QueryCache A) (now : Nat) (text : String)
    (rule : Entry A → Option (Entry A)) :
    (revise cache now text rule).capacity = cache.capacity := by
  cases h : rule (entry cache now text) with
  | none => rw [revise_of_none h, RecencyMap.capacity_touch]
  | some replacement => rw [revise_of_some h, RecencyMap.capacity_insert]

/-- A revision does not change the lifetime. -/
@[simp] theorem lifetime_revise (cache : QueryCache A) (now : Nat) (text : String)
    (rule : Entry A → Option (Entry A)) :
    (revise cache now text rule).lifetime = cache.lifetime := by
  cases h : rule (entry cache now text) with
  | none => rw [revise_of_none h, RecencyMap.lifetime_touch]
  | some replacement => rw [revise_of_some h, RecencyMap.lifetime_insert]

/-- A value that was stored at a time is live at that time. -/
theorem live?_insert_self (cache : QueryCache A) (now : Nat) (key : Fingerprint)
    (value : Entry A) : (cache.insert now key value).live? now key = some value := by
  rw [RecencyMap.live?_eq_some_iff]
  refine ⟨_, RecencyMap.slot?_insert_self .., ?_, rfl⟩
  -- no time has passed since
  unfold RecencyMap.isExpired
  split
  · rfl
  · simp

/-- The entry that is live after its revision is the replacement, or else what was live before. -/
theorem live?_revise_self (cache : QueryCache A) (now : Nat) (text : String)
    (rule : Entry A → Option (Entry A)) :
    (revise cache now text rule).live? now (.ofText text) =
      (rule (entry cache now text)).or (cache.live? now (.ofText text)) := by
  cases h : rule (entry cache now text) with
  | none => rw [revise_of_none h, RecencyMap.live?_touch_self, Option.none_or]
  | some replacement => rw [revise_of_some h, live?_insert_self, Option.some_or]

/-- The slot of the text that was revised: it holds the replacement, or stays unless it had
    expired. -/
theorem slot?_revise_self (cache : QueryCache A) (now : Nat) (text : String)
    (rule : Entry A → Option (Entry A)) :
    (revise cache now text rule).slot? (.ofText text) =
      ((rule (entry cache now text)).map (Slot.mk · now)).or
        (cache.liveSlot? now (.ofText text)) := by
  cases h : rule (entry cache now text) with
  | none => rw [revise_of_none h, RecencyMap.slot?_touch_self]; rfl
  | some replacement => rw [revise_of_some h, RecencyMap.slot?_insert_self]; rfl

/-- The slot of a text that has just been revised has not expired. -/
theorem liveSlot?_revise_self (cache : QueryCache A) (now : Nat) (text : String)
    (rule : Entry A → Option (Entry A)) :
    (revise cache now text rule).liveSlot? now (.ofText text) =
      (revise cache now text rule).slot? (.ofText text) := by
  cases h : rule (entry cache now text) with
  | none =>
    rw [revise_of_none h, RecencyMap.liveSlot?, RecencyMap.slot?_touch_self, Option.filter_filter]
    simp only [RecencyMap.isExpired_touch, Bool.and_self]
  | some replacement =>
    rw [revise_of_some h, RecencyMap.slot?_insert_self, RecencyMap.liveSlot?_eq_some_iff]
    -- the replacement is as old as the revision
    refine ⟨RecencyMap.slot?_insert_self .., RecencyMap.isExpired_eq_false_iff.mpr ?_⟩
    exact fun lifetime _ => Nat.le_add_right now lifetime

/-- Revising a text leaves the slots of all others, or drops them. -/
theorem slot?_revise_of_ne {key : Fingerprint} {text : String} (h : key ≠ .ofText text)
    (cache : QueryCache A) (now : Nat) (rule : Entry A → Option (Entry A)) :
    (revise cache now text rule).slot? key = cache.slot? key ∨
      (revise cache now text rule).slot? key = none := by
  cases hrule : rule (entry cache now text) with
  | none => exact Or.inl (by rw [revise_of_none hrule, RecencyMap.slot?_touch_of_ne h])
  | some replacement =>
    rw [revise_of_some hrule]
    exact RecencyMap.slot?_insert_of_ne h _ _ _

/-- A slot of a revised cache was there before, or holds the replacement. -/
theorem mem_slots_revise {cache : QueryCache A} {now : Nat} {text : String}
    {rule : Entry A → Option (Entry A)} {p : Fingerprint × Slot (Entry A)}
    (h : p ∈ (revise cache now text rule).slots) :
    p ∈ cache.slots ∨
      p.1 = .ofText text ∧ rule (entry cache now text) = some p.2.value := by
  cases hrule : rule (entry cache now text) with
  | none =>
    rw [revise_of_none hrule] at h
    exact Or.inl (RecencyMap.mem_slots_touch h)
  | some replacement =>
    rw [revise_of_some hrule] at h
    rcases RecencyMap.mem_slots_insert h with rfl | hslot
    · exact Or.inr ⟨rfl, rfl⟩
    · exact Or.inl hslot

/-- The entry that is read is that of the live slot. -/
theorem entry_eq_of_liveSlot? (cache : QueryCache A) (now : Nat) (text : String) :
    entry cache now text =
      ((cache.liveSlot? now (.ofText text)).map (·.value)).getD .unseen := by
  rw [entry, RecencyMap.live?_eq_map_liveSlot?]

/-- The entry that is read is that of a slot, or nothing is known of the query. -/
theorem entry_mem_slots (cache : QueryCache A) (now : Nat) (text : String) :
    entry cache now text = .unseen ∨
      ∃ slot, (.ofText text, slot) ∈ cache.slots ∧ entry cache now text = slot.value := by
  cases h : cache.live? now (.ofText text) with
  | none => exact Or.inl (by rw [entry, h]; rfl)
  | some value =>
    obtain ⟨slot, hslot, -, hvalue⟩ := RecencyMap.live?_eq_some_iff.mp h
    exact Or.inr ⟨slot, RecencyMap.mem_of_lookup hslot, by rw [entry, h, hvalue]; rfl⟩

end QueryCache

/-! ## The accesses of a request -/

/-- The rule by which a phase of a request revises the entry of its query, if it uses the cache. -/
def Phase.rule? (tiering : Tiering) :
    Phase L → Option (Entry L.Artifact → Option (Entry L.Artifact))
  | arrived => some fun _ => none
  | planning _ => some fun entry => (entry.plan tiering).1
  | adopting artifact occurrences => some fun entry => (entry.adopt occurrences artifact).1
  | declining _ occurrences => some fun entry => entry.decline occurrences
  | _ => none

/-- A request that has compiled its query goes on with the artifact of the entry, if any. -/
theorem Entry.adopt_answer {A : Type} (occurrences : Nat) (fresh : A) (entry : Entry A) :
    (entry.adopt occurrences fresh).2 = entry.artifact?.getD fresh := by
  -- an artifact that is there is kept, and its own is stored only where there is none
  unfold Entry.adopt
  split
  next kept hkept =>
    rw [hkept]
    split <;> rfl
  next hnone =>
    rw [hnone]
    rfl

/-- An artifact is stored with the count it was compiled for or a larger one, and never marked as
    a failure. -/
theorem Entry.adopt_eq_some {A : Type} {occurrences : Nat} {fresh : A} {entry stored : Entry A}
    (h : (entry.adopt occurrences fresh).1 = some stored) :
    ∃ n, occurrences ≤ n ∧ stored = .compiled n (entry.artifact?.getD fresh) := by
  unfold Entry.adopt at h
  split at h
  next kept hkept =>
    split at h
    · cases h
    · cases h
      exact ⟨occurrences, Nat.le_refl _, by rw [hkept]; rfl⟩
  next hnone =>
    cases h
    exact ⟨_, Nat.le_max_left _ _, by rw [hnone]; rfl⟩

/-- What an artifact is stored with. -/
theorem Entry.eq_of_adopt {A : Type} {occurrences : Nat} {fresh : A} {entry stored : Entry A}
    (h : (entry.adopt occurrences fresh).1 = some stored) :
    stored = .compiled (max occurrences entry.occurrences) (entry.artifact?.getD fresh) := by
  unfold Entry.adopt at h
  split at h
  next kept hkept =>
    -- an artifact is there, and stays with the greater count
    split at h
    next => cases h
    next hlt =>
      cases h
      rw [hkept, Nat.max_eq_left (Nat.le_of_not_le hlt)]
      rfl
  next hnone =>
    cases h
    rw [hnone]
    rfl

/-- A failure is remembered only where there is no artifact. -/
theorem Entry.eq_of_decline {A : Type} {occurrences : Nat} {entry stored : Entry A}
    (h : entry.decline occurrences = some stored) :
    entry.artifact? = none ∧ stored = .notCompilable (max occurrences entry.occurrences) := by
  unfold Entry.decline Entry.isCompiled at h
  split at h
  next => cases h
  next hopen =>
    cases h
    exact ⟨Option.not_isSome_iff_eq_none.mp hopen, rfl⟩

/-- How a valid query is planned that has no artifact: a remembered failure is heeded, the query
    is compiled from the threshold on, and below it the occurrence is counted. -/
theorem Entry.plan_of_artifact?_eq_none {A : Type} (tiering : Tiering) {entry : Entry A}
    (hopen : entry.artifact? = none) :
    tiering.remembers = true ∧ entry.declined = true ∧
        entry.plan tiering = (some (.notCompilable (entry.occurrences + 1)), .interpret) ∨
      tiering.threshold.toNat ≤ entry.occurrences + 1 ∧
        entry.plan tiering = (none, .compile (entry.occurrences + 1)) ∨
      entry.occurrences + 1 < tiering.threshold.toNat ∧
        entry.plan tiering = (some (.seen (entry.occurrences + 1)), .interpret) := by
  unfold Entry.plan
  rw [hopen]
  dsimp only
  split
  next hheeded => exact Or.inl ⟨(Bool.and_eq_true_iff.mp hheeded).1,
    (Bool.and_eq_true_iff.mp hheeded).2, rfl⟩
  next =>
    split
    next hreached => exact Or.inr (Or.inl ⟨hreached, rfl⟩)
    next hbelow => exact Or.inr (Or.inr ⟨Nat.lt_of_not_le hbelow, rfl⟩)

/-- A query that has an artifact is run by it, and not counted. -/
theorem Entry.plan_of_artifact? {A : Type} (tiering : Tiering) {entry : Entry A} {artifact : A}
    (h : entry.artifact? = some artifact) : entry.plan tiering = (none, .run artifact) := by
  unfold Entry.plan
  rw [h]

/-! A step sends its request on to a phase by what it has read in the cache, or by how its call of
the engine has ended. -/

namespace Executor

variable (executor : Executor L) (engine : Engine L σ) (request : Request L) (w : World L σ)

/-- A request that has arrived goes on by the entry that it finds. -/
theorem phase_arrived : (executor.step engine request .arrived w).1 =
    (Move.found (.ofText request.query) (w.cache.entry w.now request.query)).phase := rfl

/-- A query that was parsed goes on by the outcome. -/
theorem phase_parsing : (executor.step engine request .parsing w).1 =
    (Move.parsed (.ofText request.query) (engine.parse request.query w).1).phase := rfl

/-- A document that was validated goes on by the errors that were found. -/
theorem phase_validating (document : L.Document) :
    (executor.step engine request (.validating document) w).1 =
      (Move.validated (.ofText request.query) document
        (engine.validate executor.schema document w).1).phase := rfl

/-- A valid query goes on by the plan for it. -/
theorem phase_planning (document : L.Document) :
    (executor.step engine request (.planning document) w).1 =
      (Move.planned (.ofText request.query) document
        ((w.cache.entry w.now request.query).plan executor.tiering).2).phase := by
  -- the plan is the answer of the update
  show (Move.planned _ document (w.cache.update w.now request.query
    (Entry.plan executor.tiering)).1).phase = _
  rw [QueryCache.update_answer]

/-- A query that was compiled goes on by the outcome. -/
theorem phase_compiling (document : L.Document) (occurrences : Nat) :
    (executor.step engine request (.compiling document occurrences) w).1 =
      (Move.compiled (.ofText request.query) executor.tiering document occurrences
        (engine.compile executor.schema document request.operationName w).1).phase := rfl

/-- A request with an artifact of its own goes on with that of the entry, if there is one. -/
theorem phase_adopting (artifact : L.Artifact) (occurrences : Nat) :
    (executor.step engine request (.adopting artifact occurrences) w).1 =
      .running ((w.cache.entry w.now request.query).artifact?.getD artifact) .compiled := by
  show Phase.running (w.cache.update w.now request.query
    (Entry.adopt occurrences artifact)).1 .compiled = _
  rw [QueryCache.update_answer, Entry.adopt_answer]

end Executor

/-- No rule of a request takes an artifact away, or lowers the count of a compiled query. -/
theorem Phase.artifact?_of_rule? {tiering : Tiering} {phase : Phase L}
    {rule : Entry L.Artifact → Option (Entry L.Artifact)} (hrule : phase.rule? tiering = some rule)
    {entry : Entry L.Artifact} {artifact : L.Artifact} (h : entry.artifact? = some artifact) :
    ((rule entry).getD entry).artifact? = some artifact ∧
      entry.occurrences ≤ ((rule entry).getD entry).occurrences := by
  cases hstored : rule entry with
  | none => exact ⟨h, Nat.le_refl _⟩
  | some stored =>
    -- case split on the accesses: only an artifact is ever stored over an artifact
    cases phase with
    | arrived =>
      cases hrule
      cases hstored
    | planning document =>
      cases hrule
      dsimp only at hstored
      rw [Entry.plan_of_artifact? tiering h] at hstored
      cases hstored
    | adopting fresh occurrences =>
      cases hrule
      rw [Entry.eq_of_adopt hstored, h]
      exact ⟨rfl, Nat.le_max_right _ _⟩
    | declining document occurrences =>
      cases hrule
      rw [(Entry.eq_of_decline hstored).1] at h
      cases h
    | _ => cases hrule

/-- An artifact is stored by a request that has compiled its query: the one that it has found in
    the entry, or else its own. -/
theorem Phase.adopting_of_rule? {tiering : Tiering} {phase : Phase L}
    {rule : Entry L.Artifact → Option (Entry L.Artifact)} (hrule : phase.rule? tiering = some rule)
    {entry stored : Entry L.Artifact} (hstored : rule entry = some stored) {artifact : L.Artifact}
    (hartifact : stored.artifact? = some artifact) :
    ∃ fresh n, phase = .adopting fresh n ∧ artifact = entry.artifact?.getD fresh ∧
      stored.occurrences = max n entry.occurrences := by
  -- case split on the accesses: only one of them stores artifacts
  cases phase with
  | arrived =>
    cases hrule
    cases hstored
  | planning document =>
    cases hrule
    dsimp only at hstored
    cases hfound : entry.artifact? with
    | some found =>
      rw [Entry.plan_of_artifact? tiering hfound] at hstored
      cases hstored
    | none =>
      -- planning stores counts and failures, never an artifact
      rcases Entry.plan_of_artifact?_eq_none tiering hfound with
        ⟨-, -, hplan⟩ | ⟨-, hplan⟩ | ⟨-, hplan⟩ <;> rw [hplan] at hstored <;> cases hstored <;>
        cases hartifact
  | adopting fresh n =>
    cases hrule
    have heq := Entry.eq_of_adopt hstored
    subst heq
    cases hartifact
    exact ⟨fresh, n, rfl, rfl, rfl⟩
  | declining document n =>
    cases hrule
    rw [(Entry.eq_of_decline hstored).2] at hartifact
    cases hartifact
  | _ => cases hrule

/-- An engine whose calls leave the cache to the requests. What other requests do during a call
    are steps of their own. -/
structure Engine.Quiet (engine : Engine L σ) : Prop where
  parse : ∀ source w, (engine.parse source w).2.cache = w.cache
  validate : ∀ schema document w, (engine.validate schema document w).2.cache = w.cache
  compile : ∀ schema document operationName w,
    (engine.compile schema document operationName w).2.cache = w.cache
  interpret : ∀ interpretation w, (engine.interpret interpretation w).2.cache = w.cache
  run : ∀ artifact resolvers context variableValues w,
    (engine.run artifact resolvers context variableValues w).2.cache = w.cache

/-- An engine whose calls take no time. -/
structure Engine.Instant (engine : Engine L σ) : Prop where
  parse : ∀ source w, (engine.parse source w).2.now = w.now
  validate : ∀ schema document w, (engine.validate schema document w).2.now = w.now
  compile : ∀ schema document operationName w,
    (engine.compile schema document operationName w).2.now = w.now
  interpret : ∀ interpretation w, (engine.interpret interpretation w).2.now = w.now
  run : ∀ artifact resolvers context variableValues w,
    (engine.run artifact resolvers context variableValues w).2.now = w.now

/-- An executor and its engine, whose calls leave the cache to the requests. -/
structure Server (L : Language) (σ : Type) where
  executor : Executor L
  engine : Engine L σ
  quiet : engine.Quiet

/-- Looking a text up is a revision that stores nothing. -/
theorem World.lookUp_cache (text : String) (w : World L σ) :
    (World.lookUp text w).2.cache = w.cache.revise w.now text fun _ => none := by
  rw [QueryCache.revise_of_none rfl]; rfl

/-- Updating the entry of a text is a revision. -/
theorem World.update_cache (text : String)
    (rule : Entry L.Artifact → Option (Entry L.Artifact) × ρ) (w : World L σ) :
    (World.update text rule w).2.cache =
      w.cache.revise w.now text fun entry => (rule entry).1 := QueryCache.update_cache ..

/-- The cache after a step of a request: revised by the rule of its phase. -/
theorem step_cache (executor : Executor L) {engine : Engine L σ} (hquiet : engine.Quiet)
    (request : Request L) (phase : Phase L) (w : World L σ) :
    (executor.step engine request phase w).2.cache =
      match phase.rule? executor.tiering with
      | none => w.cache
      | some rule => w.cache.revise w.now request.query rule := by
  -- the phases that name an access of the cache, and those that name a call or a counter
  cases phase with
  | arrived => exact World.lookUp_cache request.query w
  | parsing => exact hquiet.parse _ w
  | validating document => exact hquiet.validate _ _ w
  | planning document => exact World.update_cache request.query (Entry.plan executor.tiering) w
  | compiling document occurrences => exact hquiet.compile _ _ _ w
  | adopting artifact occurrences =>
    exact World.update_cache request.query (Entry.adopt occurrences artifact) w
  | declining document occurrences =>
    exact World.update_cache request.query (fun entry => (entry.decline occurrences, ())) w
  | interpreting document => exact hquiet.interpret _ _
  | running artifact verdict => exact hquiet.run _ _ _ _ w
  | settled counted verdict response => cases counted <;> rfl
  | done verdict response => rfl

/-- A step that uses the cache takes no time. -/
theorem step_now (executor : Executor L) (engine : Engine L σ) (request : Request L)
    {phase : Phase L} {rule : Entry L.Artifact → Option (Entry L.Artifact)}
    (hrule : phase.rule? executor.tiering = some rule) (w : World L σ) :
    (executor.step engine request phase w).2.now = w.now := by
  cases phase <;> first | rfl | cases hrule

/-- Where the calls of the engine take no time, no step does. -/
theorem now_step (executor : Executor L) {engine : Engine L σ} (hinstant : engine.Instant)
    (request : Request L) (phase : Phase L) (w : World L σ) :
    (executor.step engine request phase w).2.now = w.now := by
  cases phase with
  | parsing => exact hinstant.parse _ w
  | validating document => exact hinstant.validate _ _ w
  | compiling document occurrences => exact hinstant.compile _ _ _ w
  | interpreting document => exact hinstant.interpret _ _
  | running artifact verdict => exact hinstant.run _ _ _ _ w
  | settled counted verdict response => cases counted <;> rfl
  | arrived | planning _ | adopting _ _ | declining _ _ | done _ _ => rfl

end TieredQuery
