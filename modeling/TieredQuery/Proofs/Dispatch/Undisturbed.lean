import TieredQuery.Proofs.Cache.Retention
import TieredQuery.Proofs.Dispatch.Calls

/-!
# Undisturbed requests

A request whose steps follow each other without those of others finds the entry of its query as
it left it itself. `Episode` lists the ways in which it can go: the entry found, the calls made
and the entry left. Each phase has one lemma (`ends_running` and so on) that says how a request
goes on from there, put together from those of the phases that follow it. What else is to be known
of the world on the way, such as when the entry was stored, is left open (`Observes`).

## Key results

- `exists_episode_of_observes`: every undisturbed request is an episode of the entry that it finds
- `exists_episode`: the entry found where nothing expires
- `retains_finish_of_ne`: what a request leaves of the entries of other queries
-/

namespace TieredQuery

variable {L : Language} {σ : Type}

namespace Executor

/-! ## What a request keeps -/

/-- What every step of a request keeps holds when it is answered. -/
theorem finish_induction (executor : Executor L) {engine : Engine L σ} {request : Request L}
    {P : Phase L → World L σ → Prop}
    (hstep : ∀ phase w, P phase w →
      P (executor.step engine request phase w).1 (executor.step engine request phase w).2)
    (phase : Phase L) (w : World L σ) (h : P phase w) :
    ∃ last, P last (executor.finish engine request phase w).2 := by
  induction phase, w using executor.steps_induction engine request with
  | answered phase w response hphase =>
    rw [executor.finish_of_answered engine request w hphase]
    exact ⟨phase, h⟩
  | unanswered phase w hphase ih =>
    rw [executor.finish_of_unanswered engine request w hphase]
    exact ih (hstep phase w h)

/-- What every revision of the query of a request keeps is kept by the request. -/
theorem finish_cache_of_revise (executor : Executor L) {engine : Engine L σ}
    (hquiet : engine.Quiet) (request : Request L) {P : QueryCache L.Artifact → Prop}
    (hrevise : ∀ cache now rule, P cache → P (cache.revise now request.query rule))
    (phase : Phase L) (w : World L σ) (h : P w.cache) :
    P (executor.finish engine request phase w).2.cache := by
  have hstep : ∀ phase w, P w.cache → P (executor.step engine request phase w).2.cache := by
    intro phase w h
    rw [step_cache executor hquiet]
    -- the step either leaves the cache alone or revises the query by its rule
    cases phase.rule? executor.tiering with
    | none => exact h
    | some rule => exact hrevise _ _ _ h
  exact (executor.finish_induction (P := fun _ w => P w.cache) hstep phase w h).choose_spec

/-- A request does not change the capacity of the cache. -/
theorem capacity_finish (executor : Executor L) {engine : Engine L σ} (hquiet : engine.Quiet)
    (request : Request L) (phase : Phase L) (w : World L σ) :
    (executor.finish engine request phase w).2.cache.capacity = w.cache.capacity :=
  executor.finish_cache_of_revise hquiet request
    (P := fun cache => cache.capacity = w.cache.capacity)
    (fun _ _ _ h => (QueryCache.capacity_revise ..).trans h) phase w rfl

/-- A request does not change the lifetime of entries. -/
theorem lifetime_finish (executor : Executor L) {engine : Engine L σ} (hquiet : engine.Quiet)
    (request : Request L) (phase : Phase L) (w : World L σ) :
    (executor.finish engine request phase w).2.cache.lifetime = w.cache.lifetime :=
  executor.finish_cache_of_revise hquiet request
    (P := fun cache => cache.lifetime = w.cache.lifetime)
    (fun _ _ _ h => (QueryCache.lifetime_revise ..).trans h) phase w rfl

/-- A request for another query lets at most its own key pass an entry. -/
theorem retains_finish_of_ne (executor : Executor L) {engine : Engine L σ}
    (hquiet : engine.Quiet) (request : Request L) (phase : Phase L) {w : World L σ}
    {text : String} {entry : Entry L.Artifact} {recent : Finset Fingerprint}
    (hne : Fingerprint.ofText text ≠ .ofText request.query)
    (h : w.cache.Retains text entry recent)
    (hroom : (recent ∪ {Fingerprint.ofText request.query}).card < w.cache.capacity) :
    (executor.finish engine request phase w).2.cache.Retains text entry
      (recent ∪ {.ofText request.query}) := by
  refine (executor.finish_cache_of_revise hquiet request (P := fun cache =>
    cache.capacity = w.cache.capacity ∧ cache.Retains text entry
      (recent ∪ {.ofText request.query})) ?_ phase w
    ⟨rfl, QueryCache.retains_mono Finset.subset_union_left h⟩).2
  -- the capacity is carried along, for it says how many keys may pass
  rintro cache now rule ⟨hcapacity, hretains⟩
  refine ⟨by rw [QueryCache.capacity_revise, hcapacity], ?_⟩
  -- the key of the request is among the recent ones from its first access on
  have hsame : recent ∪ {Fingerprint.ofText request.query} ∪ {.ofText request.query} =
      recent ∪ {.ofText request.query} := by
    rw [Finset.union_assoc, Finset.union_self]
  have hrevised := QueryCache.retains_revise_of_ne hne hretains
    (by rw [hsame, hcapacity]; exact hroom) now rule
  rwa [hsame] at hrevised

end Executor

/-! ## Worlds in which an entry has just been used -/

/-- Nothing expires, and a query text has an entry that nothing has been used after. -/
structure World.Knows (w : World L σ) (text : String) (entry : Entry L.Artifact) : Prop where
  lifetime : w.cache.lifetime = none
  retains : w.cache.Retains text entry ∅

/-- The entry that is known is the one that is read. -/
theorem World.Knows.entry {w : World L σ} {text : String} {entry : Entry L.Artifact}
    (h : w.Knows text entry) : w.cache.entry w.now text = entry :=
  QueryCache.entry_of_retains h.lifetime h.retains w.now

/-- A step that does not use the cache leaves the entry, any other step revises it. -/
theorem World.Knows.step (executor : Executor L) {engine : Engine L σ} (hquiet : engine.Quiet)
    {request : Request L} (phase : Phase L) {w : World L σ} {entry : Entry L.Artifact}
    (h : w.Knows request.query entry) :
    (executor.step engine request phase w).2.Knows request.query
      (match phase.rule? executor.tiering with
        | none => entry
        | some rule => (rule entry).getD entry) := by
  have hcache := step_cache executor hquiet request phase w
  cases hrule : phase.rule? executor.tiering with
  | none =>
    rw [hrule] at hcache
    exact ⟨by rw [hcache]; exact h.lifetime, by rw [hcache]; exact h.retains⟩
  | some rule =>
    rw [hrule] at hcache
    constructor
    · rw [hcache, QueryCache.lifetime_revise]
      exact h.lifetime
    · rw [hcache]
      exact QueryCache.retains_revise_self h.lifetime h.retains w.now rule

/-! ## What a request knows of its entry -/

namespace Executor

/-- A request knows the entry of its query in every phase: what is known of a world gives the entry
    that is read in it, and is kept by the steps, for the entry as their rules leave it. -/
structure Observes (executor : Executor L) (engine : Engine L σ) (request : Request L)
    (knows : World L σ → Entry L.Artifact → Prop) : Prop where
  entry {w : World L σ} {entry : Entry L.Artifact} (h : knows w entry) :
    w.cache.entry w.now request.query = entry
  step (phase : Phase L) {w : World L σ} {entry : Entry L.Artifact} (h : knows w entry) :
    knows (executor.step engine request phase w).2
      (match phase.rule? executor.tiering with
        | none => entry
        | some rule => (rule entry).getD entry)

/-- Where nothing expires, a request knows the entry that nothing has been used after. -/
theorem observes_knows (executor : Executor L) {engine : Engine L σ} (hquiet : engine.Quiet)
    (request : Request L) :
    executor.Observes engine request fun w entry => w.Knows request.query entry where
  entry h := h.entry
  step phase _ _ h := h.step executor hquiet phase

end Executor

/-! ## Episodes -/

/-- The calls that end a request: the artifact is run, or the document interpreted. -/
def Executor.runs (request : Request L) (artifact : L.Artifact)
    (outcome : Outcome Diagnostic Output) : Call L :=
  .run artifact L.noResolvers request.context request.variableValues outcome

def Executor.interprets (executor : Executor L) (request : Request L) (document : L.Document)
    (outcome : Outcome Diagnostic Output) : Call L :=
  .interpret (executor.interpretation request document) outcome

/-- How a request goes on that is to compile its document, counting its occurrence as the given
    one: the calls made and the entry left. -/
inductive Promotion (executor : Executor L) (request : Request L) (document : L.Document)
    (entry : Entry L.Artifact) (occurrences : Nat) : List (Call L) → Entry L.Artifact → Prop where
  /-- Compiling fails, and the request with it. -/
  | failed (outcome : Outcome Diagnostic (Compilation L.Artifact))
      (hfails : ∀ result, outcome ≠ .ok result) :
      Promotion executor request document entry occurrences
        [.compile executor.schema document request.operationName outcome] entry
  | compiled (artifact : L.Artifact) (outcome : Outcome Diagnostic Output) :
      Promotion executor request document entry occurrences
        [Phase.compilation executor request document (.artifact artifact),
          Executor.runs request artifact outcome]
        (.compiled occurrences artifact)
  | remembered (hremembers : executor.tiering.remembers = true) (reason : String)
      (outcome : Outcome Diagnostic Output) :
      Promotion executor request document entry occurrences
        [Phase.compilation executor request document (.declined reason),
          executor.interprets request document outcome]
        (.notCompilable occurrences)
  | retried (hremembers : executor.tiering.remembers = false) (reason : String)
      (outcome : Outcome Diagnostic Output) :
      Promotion executor request document entry occurrences
        [Phase.compilation executor request document (.declined reason),
          executor.interprets request document outcome] entry

/-- How a request goes that is not disturbed: the entry found, the calls made and the entry
    left. -/
inductive Episode (executor : Executor L) (request : Request L) (entry : Entry L.Artifact) :
    List (Call L) → Entry L.Artifact → Prop where
  | hit {artifact : L.Artifact} (hartifact : entry.artifact? = some artifact)
      (outcome : Outcome Diagnostic Output) :
      Episode executor request entry [Executor.runs request artifact outcome] entry
  | unparsed (hnone : entry.artifact? = none) (outcome : Outcome Diagnostic L.Document)
      (hfails : ∀ document, outcome ≠ .ok document) :
      Episode executor request entry [.parse request.query outcome] entry
  | invalid (hnone : entry.artifact? = none) (document : L.Document)
      (outcome : Outcome Empty (List Diagnostic)) (hfails : outcome ≠ .ok []) :
      Episode executor request entry
        [.parse request.query (.ok document), .validate executor.schema document outcome] entry
  /-- A remembered failure to compile is heeded. -/
  | heeded (hnone : entry.artifact? = none)
      (hheeds : (executor.tiering.remembers && entry.declined) = true) (document : L.Document)
      (outcome : Outcome Diagnostic Output) :
      Episode executor request entry
        (Phase.checks executor request document ++ [executor.interprets request document outcome])
        (.notCompilable (entry.occurrences + 1))
  /-- The threshold is not reached yet. -/
  | counted (hnone : entry.artifact? = none)
      (hopen : (executor.tiering.remembers && entry.declined) = false)
      (hbelow : entry.occurrences + 1 < executor.tiering.threshold.toNat) (document : L.Document)
      (outcome : Outcome Diagnostic Output) :
      Episode executor request entry
        (Phase.checks executor request document ++ [executor.interprets request document outcome])
        (.seen (entry.occurrences + 1))
  | promoted (hnone : entry.artifact? = none)
      (hopen : (executor.tiering.remembers && entry.declined) = false)
      (hdue : executor.tiering.threshold.toNat ≤ entry.occurrences + 1) (document : L.Document)
      {calls : List (Call L)} {left : Entry L.Artifact}
      (hpromotion : Promotion executor request document entry (entry.occurrences + 1) calls left) :
      Episode executor request entry (Phase.checks executor request document ++ calls) left

namespace Executor

variable {executor : Executor L} {engine : Engine L σ} {request : Request L} {w : World L σ}
  {entry : Entry L.Artifact} {knows : World L σ → Entry L.Artifact → Prop}

/-- A request that goes on undisturbed from a phase makes some calls and leaves an entry. -/
structure Ends (executor : Executor L) (engine : Engine L σ) (request : Request L)
    (knows : World L σ → Entry L.Artifact → Prop) (phase : Phase L) (w : World L σ)
    (calls : List (Call L)) (left : Entry L.Artifact) : Prop where
  calls : executor.calls engine request phase w = calls
  left : knows (executor.finish engine request phase w).2 left

/-- The calls of a step come before those of the way on from it. -/
theorem ends_of_step {phase next : Phase L} {made calls : List (Call L)} {left : Entry L.Artifact}
    (hphase : phase.response? = none) (hmade : executor.made engine request phase w = made)
    (hnext : (executor.step engine request phase w).1 = next)
    (hends : Ends executor engine request knows next (executor.step engine request phase w).2 calls
      left) :
    Ends executor engine request knows phase w (made ++ calls) left := by
  subst hmade hnext
  constructor
  · rw [executor.calls_of_unanswered engine request w hphase, hends.calls]
  · rw [executor.finish_of_unanswered engine request w hphase]
    exact hends.left

/-- A settled request makes no more calls, and is answered once its counters are raised. -/
theorem ends_settled {verdict : Verdict} {response : Response}
    (h : knows (World.count executor.id (fun c => c.record verdict) w).2 entry) :
    Ends executor engine request knows (.settled false verdict response) w [] entry := by
  constructor
  · exact executor.calls_of_settled engine request verdict response w
  · rw [executor.finish_of_settled]
    exact h

/-- Raising the counters leaves the entry as it is known. -/
theorem Observes.record (hobserves : executor.Observes engine request knows) (h : knows w entry)
    (verdict : Verdict) :
    knows (World.count executor.id (fun c => c.record verdict) w).2 entry := by
  have hcounted := hobserves.step (.settled false verdict (.failed [])) h
  have hrecorded := hobserves.step (.settled true verdict (.failed [])) hcounted
  have hworld := congrArg Prod.snd (World.count_count executor.id Counters.countRequest
    (fun c => c.countVerdict verdict) w)
  exact hworld ▸ hrecorded

/-- A step that settles a request makes its last call. -/
theorem ends_of_settling (hobserves : executor.Observes engine request knows) {phase : Phase L}
    {made : List (Call L)} {left : Entry L.Artifact} {verdict : Verdict} {response : Response}
    (hphase : phase.response? = none) (hmade : executor.made engine request phase w = made)
    (hnext : (executor.step engine request phase w).1 = .settled false verdict response)
    (hleft : knows (executor.step engine request phase w).2 left) :
    Ends executor engine request knows phase w made left := by
  rw [← List.append_nil made]
  exact ends_of_step hphase hmade hnext (ends_settled (hobserves.record hleft verdict))

/-! ### From each phase on -/

variable (executor)

/-- An artifact that is to be run is run, and that is the last call. -/
theorem ends_running (hobserves : executor.Observes engine request knows) (h : knows w entry)
    (artifact : L.Artifact) (verdict : Verdict) :
    ∃ outcome, Ends executor engine request knows (.running artifact verdict) w
      [runs request artifact outcome] entry := by
  obtain ⟨given, hended⟩ := Phase.response_ended (L := L) (.ofText request.query) verdict
    (engine.run artifact L.noResolvers request.context request.variableValues w).1
  exact ⟨_, ends_of_settling hobserves rfl rfl hended
    (hobserves.step (.running artifact verdict) h)⟩

/-- A document that is to be interpreted is interpreted, and that is the last call. -/
theorem ends_interpreting (hobserves : executor.Observes engine request knows) (h : knows w entry)
    (document : L.Document) :
    ∃ outcome, Ends executor engine request knows (.interpreting document) w
      [executor.interprets request document outcome] entry := by
  obtain ⟨given, hended⟩ := Phase.response_ended (L := L) (.ofText request.query) .interpreted
    (engine.interpret (executor.interpretation request document)
      (World.notify (.interpreting (.ofText request.query)) w).2).1
  exact ⟨_, ends_of_settling hobserves rfl rfl hended
    (hobserves.step (.interpreting document) h)⟩

/-- Nothing has been stored since the request planned to compile, so its own artifact is. -/
theorem ends_adopting (hobserves : executor.Observes engine request knows) (h : knows w entry)
    (hnone : entry.artifact? = none) {occurrences : Nat} (hle : entry.occurrences ≤ occurrences)
    (artifact : L.Artifact) :
    ∃ outcome, Ends executor engine request knows (.adopting artifact occurrences) w
      [runs request artifact outcome] (.compiled occurrences artifact) := by
  -- the rule is applied to the very entry that the request planned by
  have hrule : entry.adopt occurrences artifact =
      (some (.compiled occurrences artifact), artifact) := by
    rw [Entry.adopt, hnone]
    simp only [Nat.max_eq_left hle]
  have hnext : (executor.step engine request (.adopting artifact occurrences) w).1 =
      .running artifact .compiled := by
    rw [executor.phase_adopting, hobserves.entry h, hnone]
    rfl
  have hleft := hobserves.step (.adopting artifact occurrences) h
  simp only [Phase.rule?, hrule, Option.getD_some] at hleft
  obtain ⟨outcome, hends⟩ := executor.ends_running hobserves hleft artifact .compiled
  exact ⟨outcome, ends_of_step rfl rfl hnext hends⟩

/-- Nothing has been stored since the request planned to compile, so the failure is. -/
theorem ends_declining (hobserves : executor.Observes engine request knows) (h : knows w entry)
    (hnone : entry.artifact? = none) {occurrences : Nat} (hle : entry.occurrences ≤ occurrences)
    (document : L.Document) :
    ∃ outcome, Ends executor engine request knows (.declining document occurrences) w
      [executor.interprets request document outcome] (.notCompilable occurrences) := by
  have hrule : entry.decline occurrences = some (.notCompilable occurrences) := by
    simp [Entry.decline, Entry.isCompiled, hnone, Nat.max_eq_left hle]
  have hleft := hobserves.step (.declining document occurrences) h
  simp only [Phase.rule?, hrule, Option.getD_some] at hleft
  obtain ⟨outcome, hends⟩ := executor.ends_interpreting hobserves hleft document
  exact ⟨outcome, ends_of_step rfl rfl rfl hends⟩

/-- A request that is to compile its query goes on by one of the promotions. -/
theorem ends_compiling (hobserves : executor.Observes engine request knows) (h : knows w entry)
    (hnone : entry.artifact? = none) {occurrences : Nat} (hle : entry.occurrences ≤ occurrences)
    (document : L.Document) :
    ∃ calls left,
      Ends executor engine request knows (.compiling document occurrences) w calls left ∧
      Promotion executor request document entry occurrences calls left := by
  have hleft := hobserves.step (.compiling document occurrences) h
  have hmade : executor.made engine request (.compiling document occurrences) w =
      [.compile executor.schema document request.operationName
        (engine.compile executor.schema document request.operationName w).1] := rfl
  have hnext := executor.phase_compiling engine request w document occurrences
  -- from here on only the outcome matters, not how the engine came to it
  generalize (engine.compile executor.schema document request.operationName w).1 = outcome
    at hmade hnext
  cases outcome with
  | ok result =>
    cases result with
    | artifact artifact =>
      obtain ⟨outcome, hends⟩ := executor.ends_adopting hobserves hleft hnone hle artifact
      exact ⟨_, _, ends_of_step rfl hmade hnext hends, .compiled artifact outcome⟩
    | declined reason =>
      -- the settings say whether the failure is stored before the query is interpreted
      cases hremembers : executor.tiering.remembers with
      | true =>
        simp only [Move.compiled, hremembers, if_true] at hnext
        obtain ⟨outcome, hends⟩ :=
          executor.ends_declining hobserves hleft hnone hle document
        exact ⟨_, _, ends_of_step rfl hmade hnext hends, .remembered hremembers reason outcome⟩
      | false =>
        simp only [Move.compiled, hremembers, Bool.false_eq_true, if_false] at hnext
        obtain ⟨outcome, hends⟩ := executor.ends_interpreting hobserves hleft document
        exact ⟨_, _, ends_of_step rfl hmade hnext hends, .retried hremembers reason outcome⟩
  | error diagnostic =>
    exact ⟨_, _, ends_of_settling hobserves rfl hmade hnext hleft, .failed _ fun _ => nofun⟩
  | panic payload =>
    exact ⟨_, _, ends_of_settling hobserves rfl hmade hnext hleft, .failed _ fun _ => nofun⟩

/-- A valid query that is not compiled is counted, and compiled or interpreted. -/
theorem ends_planning (hobserves : executor.Observes engine request knows) (h : knows w entry)
    (hnone : entry.artifact? = none) (document : L.Document) :
    ∃ calls left, Ends executor engine request knows (.planning document) w calls left ∧
      Episode executor request entry (Phase.checks executor request document ++ calls) left := by
  have hleft := hobserves.step (.planning document) h
  have hnext : (executor.step engine request (.planning document) w).1 =
      (Move.planned (.ofText request.query) document
        (entry.plan executor.tiering).2).phase := by
    rw [executor.phase_planning, hobserves.entry h]
  -- the cases are those of `Entry.plan` for an entry without an artifact
  simp only [Phase.rule?] at hleft
  simp only [Entry.plan, hnone] at hleft hnext
  cases hheeds : executor.tiering.remembers && entry.declined with
  | true =>
    simp only [hheeds, if_true, Option.getD_some] at hleft hnext
    obtain ⟨outcome, hends⟩ := executor.ends_interpreting hobserves hleft document
    exact ⟨_, _, ends_of_step rfl rfl hnext hends, .heeded hnone hheeds document outcome⟩
  | false =>
    simp only [hheeds, Bool.false_eq_true, if_false] at hleft hnext
    by_cases hdue : executor.tiering.threshold.toNat ≤ entry.occurrences + 1
    · -- nothing is stored before the query has been compiled
      simp only [if_pos hdue, Option.getD_none] at hleft hnext
      obtain ⟨calls, left, hends, hpromotion⟩ := executor.ends_compiling hobserves hleft
        hnone (Nat.le_succ entry.occurrences) document
      exact ⟨_, _, ends_of_step rfl rfl hnext hends,
        .promoted hnone hheeds hdue document hpromotion⟩
    · simp only [if_neg hdue, Option.getD_some] at hleft hnext
      obtain ⟨outcome, hends⟩ := executor.ends_interpreting hobserves hleft document
      exact ⟨_, _, ends_of_step rfl rfl hnext hends,
        .counted hnone hheeds (Nat.lt_of_not_le hdue) document outcome⟩

/-- A document without errors is planned; with errors, or a panic, its request ends. -/
theorem ends_validating (hobserves : executor.Observes engine request knows) (h : knows w entry)
    (hnone : entry.artifact? = none) (document : L.Document) :
    ∃ calls left, Ends executor engine request knows (.validating document) w calls left ∧
      Episode executor request entry (.parse request.query (.ok document) :: calls) left := by
  have hleft := hobserves.step (.validating document) h
  have hmade : executor.made engine request (.validating document) w =
      [.validate executor.schema document (engine.validate executor.schema document w).1] := rfl
  have hnext := executor.phase_validating engine request w document
  -- as before, only the outcome matters
  generalize (engine.validate executor.schema document w).1 = outcome at hmade hnext
  cases outcome with
  | ok errors =>
    cases errors with
    | nil =>
      obtain ⟨calls, left, hends, hepisode⟩ :=
        executor.ends_planning hobserves hleft hnone document
      exact ⟨_, _, ends_of_step rfl hmade hnext hends, hepisode⟩
    | cons error errors =>
      exact ⟨_, _, ends_of_settling hobserves rfl hmade hnext hleft,
        .invalid hnone document _ nofun⟩
  | error impossible => exact nomatch impossible
  | panic payload =>
    exact ⟨_, _, ends_of_settling hobserves rfl hmade hnext hleft,
      .invalid hnone document _ nofun⟩

/-- A query that can be parsed is validated; otherwise its request ends. -/
theorem ends_parsing (hobserves : executor.Observes engine request knows) (h : knows w entry)
    (hnone : entry.artifact? = none) :
    ∃ calls left, Ends executor engine request knows .parsing w calls left ∧
      Episode executor request entry calls left := by
  have hleft := hobserves.step .parsing h
  have hmade : executor.made engine request .parsing w =
      [.parse request.query (engine.parse request.query w).1] := rfl
  have hnext := executor.phase_parsing engine request w
  generalize (engine.parse request.query w).1 = outcome at hmade hnext
  -- Case split on the outcome: a document is validated next, and everything else is the end.
  cases outcome with
  | ok document =>
    obtain ⟨calls, left, hends, hepisode⟩ :=
      executor.ends_validating hobserves hleft hnone document
    exact ⟨_, _, ends_of_step rfl hmade hnext hends, hepisode⟩
  | error diagnostic =>
    exact ⟨_, _, ends_of_settling hobserves rfl hmade hnext hleft, .unparsed hnone _ fun _ => nofun⟩
  | panic payload =>
    exact ⟨_, _, ends_of_settling hobserves rfl hmade hnext hleft, .unparsed hnone _ fun _ => nofun⟩

/-- A request that is not disturbed goes by one of the episodes, from the entry that it finds when
    it arrives. -/
theorem exists_episode_of_observes (hobserves : executor.Observes engine request knows)
    (hfound : w.cache.entry w.now request.query = entry)
    (hleft : knows (executor.step engine request .arrived w).2 entry) :
    ∃ left, Episode executor request entry (executor.calls engine request .arrived w) left ∧
      knows (executor.execute engine request w).2 left := by
  have hnext : (executor.step engine request .arrived w).1 =
      (Move.found (.ofText request.query) entry).phase := by
    rw [executor.phase_arrived, hfound]
  rw [Move.found] at hnext
  -- the entry has an artifact, or the query is parsed
  cases hartifact : entry.artifact? with
  | some artifact =>
    rw [hartifact] at hnext
    obtain ⟨outcome, hends⟩ := executor.ends_running hobserves hleft artifact .hit
    obtain ⟨hcalls, hknows⟩ := ends_of_step rfl rfl hnext hends
    exact ⟨entry, hcalls ▸ .hit hartifact outcome, hknows⟩
  | none =>
    rw [hartifact] at hnext
    obtain ⟨calls, left, hends, hepisode⟩ :=
      executor.ends_parsing hobserves hleft hartifact
    obtain ⟨hcalls, hknows⟩ := ends_of_step rfl rfl hnext hends
    exact ⟨left, hcalls ▸ hepisode, hknows⟩

/-- Where nothing expires, the entry that a request finds is the one that is retained when it
    arrives. -/
theorem exists_episode (hquiet : engine.Quiet) {recent : Finset Fingerprint}
    (hlifetime : w.cache.lifetime = none) (h : w.cache.Retains request.query entry recent) :
    ∃ left, Episode executor request entry (executor.calls engine request .arrived w) left ∧
      (executor.execute engine request w).2.Knows request.query left := by
  refine executor.exists_episode_of_observes (observes_knows executor hquiet request)
    (QueryCache.entry_of_retains hlifetime h w.now) ?_
  -- by its first step the request uses its key, and no other has been used since
  have hcache := step_cache executor hquiet request .arrived w
  constructor
  · rw [hcache]
    exact (QueryCache.lifetime_revise ..).trans hlifetime
  · rw [hcache]
    exact QueryCache.retains_revise_self hlifetime h w.now fun _ => none

end Executor
end TieredQuery
