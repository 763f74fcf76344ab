import TieredQuery.Proofs.Dispatch.PureEngine
import TieredQuery.Proofs.Session.Standing
import TieredQuery.Proofs.Session.Turns

/-!
# Epochs of a query

In a cache whose entries expire, a query that is always compiled without failure lives in epochs.
Its occurrences are counted, each as long as the one before has not expired, until it is due; the
artifact that is compiled then is run until it expires, counted from the time of its compilation,
and however often it is run; and then the count starts again.

`Epoch` says where in an epoch some answers lead, and which slot the latest of them has stored.
Whether an expired slot has been dropped yet, by a request or by purging, makes no difference: the
cache is known only up to its live slots (`Follows`).

## Key results

- `course_of_follows`: how the next request for the query goes
- `follows_run`: where a session leads
- `query_lives_in_epochs`
-/

namespace TieredQuery

variable {L : Language} {σ : Type}

/-! ## Requests that take no time -/

/-- A request that takes no time is answered at the time at which it came. -/
theorem now_execute (executor : Executor L) {engine : Engine L σ} (hinstant : engine.Instant)
    (request : Request L) (w : World L σ) :
    (executor.execute engine request w).2.now = w.now :=
  (executor.finish_induction (P := fun _ w' => w'.now = w.now)
    (fun phase w' h => (now_step executor hinstant request phase w').trans h) .arrived w
    rfl).choose_spec

/-! ## One request in a cache whose entries expire -/

/-- At a time the slot of a query is still the one that was found, or was stored at that very
    time, and holds an entry. -/
structure World.Dated (w : World L σ) (text : String) (time : Nat)
    (found : Option (Slot (Entry L.Artifact))) (entry : Entry L.Artifact) : Prop where
  now : w.now = time
  live : w.cache.liveSlot? w.now (.ofText text) = w.cache.slot? (.ofText text)
  slot : w.cache.slot? (.ofText text) = found ∧ entry = (found.map (·.value)).getD .unseen ∨
    w.cache.slot? (.ofText text) = some ⟨entry, time⟩

/-- The entry that is read is the one in the slot. -/
theorem World.Dated.entry {w : World L σ} {text : String} {time : Nat}
    {found : Option (Slot (Entry L.Artifact))} {entry : Entry L.Artifact}
    (h : w.Dated text time found entry) : w.cache.entry w.now text = entry := by
  rw [QueryCache.entry_eq_of_liveSlot?, h.live]
  rcases h.slot with ⟨hslot, rfl⟩ | hslot <;> rw [hslot]
  rfl

section Requests

variable {executor : Executor L} {engine : Engine L σ} {request : Request L} {w : World L σ}

/-- Each step keeps this, with the entry that the step leaves. -/
theorem observes_dated (executor : Executor L) (hquiet : engine.Quiet) (hinstant : engine.Instant)
    (request : Request L) (time : Nat) (found : Option (Slot (Entry L.Artifact))) :
    executor.Observes engine request fun w entry => w.Dated request.query time found entry where
  entry h := h.entry
  step phase w entry h := by
    have hcache := step_cache executor hquiet request phase w
    have hnow := now_step executor hinstant request phase w
    cases hrule : phase.rule? executor.tiering with
    | none =>
      -- the step does not touch the cache
      rw [hrule] at hcache
      exact ⟨hnow.trans h.now, by rw [hcache, hnow]; exact h.live, by rw [hcache]; exact h.slot⟩
    | some rule =>
      rw [hrule] at hcache
      dsimp only at hcache ⊢
      refine ⟨hnow.trans h.now, by rw [hcache, hnow, QueryCache.liveSlot?_revise_self], ?_⟩
      rw [hcache, QueryCache.slot?_revise_self, h.entry]
      cases hstored : rule entry with
      | none =>
        -- the slot has not expired, and stays
        rw [Option.map_none, Option.none_or, h.live]
        exact h.slot
      | some stored => exact Or.inr (by rw [h.now]; rfl)

/-- An undisturbed request is an episode of the live entry, and leaves the slot that it has found
    or one of its own time. -/
theorem exists_episode_of_instant (executor : Executor L) (hquiet : engine.Quiet)
    (hinstant : engine.Instant) (request : Request L) (w : World L σ) :
    ∃ left, Episode executor request (w.cache.entry w.now request.query)
        (executor.calls engine request .arrived w) left ∧
      (executor.execute engine request w).2.Dated request.query w.now
        (w.cache.liveSlot? w.now (.ofText request.query)) left := by
  refine executor.exists_episode_of_observes (observes_dated executor hquiet hinstant request w.now
    (w.cache.liveSlot? w.now (.ofText request.query))) rfl ?_
  have hcache := step_cache executor hquiet request .arrived w
  have hnow := now_step executor hinstant request .arrived w
  refine ⟨hnow, by rw [hcache, hnow]; exact QueryCache.liveSlot?_revise_self .., Or.inl ⟨?_, ?_⟩⟩
  · rw [hcache]
    exact QueryCache.slot?_revise_self ..
  · exact QueryCache.entry_eq_of_liveSlot? ..

/-- A request that finds an artifact runs it, and does not store the entry again. -/
theorem exists_run_of_artifact? (executor : Executor L) (hquiet : engine.Quiet)
    (request : Request L) (w : World L σ) {artifact : L.Artifact}
    (hartifact : (w.cache.entry w.now request.query).artifact? = some artifact) :
    ∃ outcome, executor.calls engine request .arrived w =
        [Executor.runs request artifact outcome] ∧
      (executor.execute engine request w).2.cache.slot? (.ofText request.query) =
        w.cache.liveSlot? w.now (.ofText request.query) := by
  -- two steps that do not store: one finds the artifact, the other runs it
  have hnext : (executor.step engine request .arrived w).1 = .running artifact .hit := by
    rw [executor.phase_arrived, Move.found, hartifact]
  have hcache := step_cache executor hquiet request .arrived w
  have hrun := step_cache executor hquiet request (.running artifact .hit)
    (executor.step engine request .arrived w).2
  let outcome := (engine.run artifact L.noResolvers request.context request.variableValues
    (executor.step engine request .arrived w).2).1
  obtain ⟨given, hended⟩ := Phase.response_ended (L := L) (.ofText request.query) .hit outcome
  have hends : Executor.Ends executor engine request
      (fun w' _ => w'.cache = w.cache.revise w.now request.query fun _ => none) .arrived w
      [Executor.runs request artifact outcome] (w.cache.entry w.now request.query) :=
    Executor.ends_of_step rfl rfl hnext
      (Executor.ends_of_step rfl rfl hended (Executor.ends_settled (hrun.trans hcache)))
  refine ⟨outcome, hends.calls, ?_⟩
  rw [Executor.execute, hends.left]
  exact QueryCache.slot?_revise_self ..

/-! ## Queries that are always compiled without failure -/

/-- Whether a call has found nothing that keeps a query from being compiled. -/
def Call.succeeds : Call L → Bool
  | parse _ (.ok _) | validate _ _ (.ok []) | compile _ _ _ (.ok (.artifact _)) => true
  | interpret _ _ | run _ _ _ _ _ => true
  | _ => false

/-- A query is parsed if and only if there is a document. -/
theorem succeeds_parse_iff {source : String} {outcome : Outcome Diagnostic L.Document} :
    (Call.parse source outcome).succeeds = true ↔ ∃ document, outcome = .ok document := by
  cases outcome <;> simp [Call.succeeds]

/-- A query is found valid if and only if there are no errors. -/
theorem succeeds_validate_iff {schema : L.Schema} {document : L.Document}
    {outcome : Outcome Empty (List Diagnostic)} :
    (Call.validate schema document outcome).succeeds = true ↔ outcome = .ok [] := by
  unfold Call.succeeds
  split <;> simp_all

/-- A query is compiled if and only if there is an artifact. -/
theorem succeeds_compile_iff {schema : L.Schema} {document : L.Document}
    {operationName : Option String} {outcome : Outcome Diagnostic (Compilation L.Artifact)} :
    (Call.compile schema document operationName outcome).succeeds = true ↔
      ∃ artifact, outcome = .ok (.artifact artifact) := by
  unfold Call.succeeds
  split <;> simp_all

/-- A request that finds no artifact, and no remembered failure, for a query that can be compiled
    counts its occurrence: below the one at which the query is due it interprets the query and
    stores the count, and from there on it compiles the query and stores the artifact. -/
theorem exists_calls_of_open (executor : Executor L) (hquiet : engine.Quiet)
    (hinstant : engine.Instant) (request : Request L) (w : World L σ)
    (hsucceeds : ∀ call ∈ executor.calls engine request .arrived w, call.succeeds = true)
    (hnone : (w.cache.entry w.now request.query).artifact? = none)
    (hdeclined : (w.cache.entry w.now request.query).declined = false) :
    let n := (w.cache.entry w.now request.query).occurrences + 1
    let calls := executor.calls engine request .arrived w
    let left := (executor.execute engine request w).2.cache.slot? (.ofText request.query)
    (n < executor.tiering.due ∧ ∃ document outcome,
      calls = Phase.checks executor request document ++
        [executor.interprets request document outcome] ∧ left = some ⟨.seen n, w.now⟩) ∨
    (executor.tiering.due ≤ n ∧ ∃ document artifact outcome,
      calls = Phase.checks executor request document ++
        [Phase.compilation executor request document (.artifact artifact),
          Executor.runs request artifact outcome] ∧
      left = some ⟨.compiled n artifact, w.now⟩) := by
  intro n calls left
  obtain ⟨kept, hepisode, hdated⟩ := exists_episode_of_instant executor hquiet hinstant request w
  -- an entry with another count is one that was stored now
  have hstored : kept.occurrences = n → left = some ⟨kept, w.now⟩ := by
    intro hcount
    rcases hdated.slot with ⟨-, heq⟩ | hslot
    · rw [← QueryCache.entry_eq_of_liveSlot?] at heq
      rw [heq] at hcount
      exact absurd hcount (Nat.ne_of_lt (Nat.lt_succ_self _))
    · exact hslot
  change ∀ call ∈ calls, call.succeeds = true at hsucceeds
  change Episode executor request (w.cache.entry w.now request.query) calls kept at hepisode
  generalize calls = made at hepisode hsucceeds ⊢
  -- Case split on the course of the request: the assumptions leave two of them.
  cases hepisode with
  | hit hartifact outcome =>
    rw [hnone] at hartifact
    cases hartifact
  | unparsed _ outcome hfails =>
    obtain ⟨document, hparsed⟩ := succeeds_parse_iff.mp (hsucceeds _ List.mem_cons_self)
    exact absurd hparsed (hfails document)
  | invalid _ document outcome hfails =>
    exact absurd (succeeds_validate_iff.mp
      (hsucceeds (.validate executor.schema document outcome) (by simp))) hfails
  | heeded _ hheeds document outcome =>
    rw [hdeclined, Bool.and_false] at hheeds
    cases hheeds
  | counted _ _ hbelow document outcome =>
    refine Or.inl ⟨?_, document, outcome, rfl, hstored rfl⟩
    exact Nat.lt_of_not_le fun hle =>
      absurd ((due_le_succ_iff _ _).mp hle) (Nat.not_le_of_lt hbelow)
  | promoted _ _ hdue document hpromotion =>
    refine Or.inr ⟨(due_le_succ_iff _ _).mpr hdue, ?_⟩
    cases hpromotion with
    | compiled artifact outcome => exact ⟨document, artifact, outcome, rfl, hstored rfl⟩
    | failed outcome hfails =>
      obtain ⟨artifact, hcompiled⟩ := succeeds_compile_iff.mp (hsucceeds
        (.compile executor.schema document request.operationName outcome) (by simp))
      exact absurd hcompiled (hfails _)
    | remembered _ reason outcome | retried _ reason outcome =>
      obtain ⟨artifact, hcompiled⟩ := succeeds_compile_iff.mp
        (hsucceeds (Phase.compilation executor request document (.declined reason)) (by simp))
      cases hcompiled

end Requests

/-! ## What past answers say of the next one -/

/-- The occurrences counted in the entry that a request has left. -/
def Answer.count (answer : Answer L) : Nat := (answer.left.map (·.value.occurrences)).getD 0

/-- Whether a request has stored the entry of its query, as it does when it finds that the query is
    valid and goes on to count or to compile it. -/
def Answer.stores (answer : Answer L) : Bool := Call.passes answer.calls

/-- The latest of some answers that has stored the entry of the query. -/
def latestStore? (past : List (Answer L)) : Option (Answer L) :=
  (past.filter Answer.stores).getLast?

/-- The number of the next counted occurrence at a time: one more than that of the previous one, if
    this was below the one at which the query is due and has not expired. -/
def nextCount (due lifetime : Nat) (past : List (Answer L)) (now : Nat) : Nat :=
  match past.getLast? with
  | some previous =>
    if previous.count < due ∧ now ≤ previous.time + lifetime then previous.count + 1 else 1
  | none => 1

/-- Where some answers for a query lead that is compiled without failure, and the slot that the
    latest of them has stored. -/
inductive Epoch (due : Nat) : List (Answer L) → Option (Slot (Entry L.Artifact)) → Prop where
  | blank : Epoch due [] none
  /-- The last occurrence was counted. -/
  | counted {past : List (Answer L)} {answer : Answer L} {n : Nat}
      (hstores : answer.stores = true) (hartifact : Call.artifact? answer.calls = none)
      (hleft : answer.left = some ⟨.seen n, answer.time⟩) (hbelow : n < due) :
      Epoch due (past ++ [answer]) (some ⟨.seen n, answer.time⟩)
  /-- The query was compiled, and since then the artifact was run without being stored again. -/
  | compiled {past hits : List (Answer L)} {answer : Answer L} {n : Nat} {artifact : L.Artifact}
      (hstores : answer.stores = true)
      (hartifact : Call.artifact? answer.calls = some artifact)
      (hleft : answer.left = some ⟨.compiled n artifact, answer.time⟩) (hdue : due ≤ n)
      (hhits : ∀ hit ∈ hits, hit.stores = false ∧
        hit.left = some ⟨.compiled n artifact, answer.time⟩) :
      Epoch due (past ++ answer :: hits) (some ⟨.compiled n artifact, answer.time⟩)

section Epochs

variable {due lifetime now : Nat} {past : List (Answer L)}
  {stored : Option (Slot (Entry L.Artifact))}

/-- Answers by which nothing was stored come after the latest one by which something was. -/
theorem latestStore?_append (past : List (Answer L)) {answer : Answer L}
    (hstores : answer.stores = true) {hits : List (Answer L)}
    (hhits : ∀ hit ∈ hits, hit.stores = false) :
    latestStore? (past ++ answer :: hits) = some answer := by
  have hnone : hits.filter Answer.stores = [] :=
    List.filter_eq_nil_iff.mpr fun hit hmem => Bool.eq_false_iff.mp (hhits hit hmem)
  rw [latestStore?, List.filter_append, List.filter_cons_of_pos hstores, hnone,
    List.getLast?_concat]

/-- The next count after an answer is decided by this answer. -/
theorem nextCount_concat (due lifetime : Nat) (past : List (Answer L)) (answer : Answer L)
    (now : Nat) : nextCount due lifetime (past ++ [answer]) now =
      if answer.count < due ∧ now ≤ answer.time + lifetime then answer.count + 1 else 1 := by
  rw [nextCount, List.getLast?_concat]

/-- After the query was compiled the count starts again. -/
theorem nextCount_append_of_due (past : List (Answer L)) {answers : List (Answer L)}
    (hnonempty : answers ≠ []) (hdue : ∀ answer ∈ answers, due ≤ answer.count) :
    nextCount due lifetime (past ++ answers) now = 1 := by
  -- only the last answer matters
  obtain ⟨earlier, last, rfl⟩ := List.eq_nil_or_concat answers |>.resolve_left hnonempty
  rw [List.concat_eq_append, ← List.append_assoc, nextCount_concat]
  exact if_neg fun hbelow => absurd hbelow.1 (Nat.not_lt_of_le (hdue last (by simp)))

/-- The count that an answer leaves is that of its slot. -/
theorem Answer.count_of_left {answer : Answer L} {slot : Slot (Entry L.Artifact)}
    (hleft : answer.left = some slot) : answer.count = slot.value.occurrences := by
  rw [Answer.count, hleft]
  rfl

/-- The slot that is stored, unless it has expired at a time. -/
def unexpired (stored : Option (Slot (Entry L.Artifact))) (lifetime now : Nat) :
    Option (Slot (Entry L.Artifact)) :=
  stored.filter fun slot => now ≤ slot.storedAt + lifetime

/-- What expires at an earlier time has expired at a later one. -/
theorem unexpired_unexpired (stored : Option (Slot (Entry L.Artifact))) (lifetime : Nat)
    {now now' : Nat} (h : now ≤ now') :
    unexpired (unexpired stored lifetime now) lifetime now' = unexpired stored lifetime now' := by
  rw [unexpired, unexpired, Option.filter_filter]
  congr 1
  funext slot
  exact Bool.and_eq_right_iff_imp.mpr fun hlive =>
    decide_eq_true (h.trans (of_decide_eq_true hlive))

/-- A slot does not expire before its lifetime is over. -/
theorem unexpired_of_le {time : Nat} (h : now ≤ time + lifetime) (entry : Entry L.Artifact) :
    unexpired (some ⟨entry, time⟩) lifetime now = some ⟨entry, time⟩ :=
  Option.filter_some_pos (decide_eq_true h)

/-- A slot expires when its lifetime is over. -/
theorem unexpired_of_lt {time : Nat} (h : time + lifetime < now) (entry : Entry L.Artifact) :
    unexpired (some ⟨entry, time⟩) lifetime now = none :=
  Option.filter_some_neg (by simpa using h)

/-- An entry that says nothing but how often a query has occurred. -/
structure Entry.Counts {A : Type} (entry : Entry A) (n : Nat) : Prop where
  artifact? : entry.artifact? = none
  declined : entry.declined = false
  occurrences : entry.occurrences = n

/-- What is read of a query: the artifact, if it was compiled by the latest request that has stored
    its entry and has not expired, and else one occurrence less than that of the next request. -/
theorem entry_of_epoch (h : Epoch due past stored) (lifetime now : Nat) :
    (∃ answer artifact, latestStore? past = some answer ∧
      Call.artifact? answer.calls = some artifact ∧ now ≤ answer.time + lifetime ∧
      unexpired stored lifetime now = some ⟨.compiled answer.count artifact, answer.time⟩) ∨
    (∀ answer artifact, latestStore? past = some answer →
      Call.artifact? answer.calls = some artifact → answer.time + lifetime < now) ∧
    ∃ n, nextCount due lifetime past now = n + 1 ∧
      (((unexpired stored lifetime now).map Slot.value).getD Entry.unseen).Counts n := by
  -- In each epoch it matters whether the slot has expired.
  cases h with
  | blank =>
    refine Or.inr ⟨fun answer artifact hlatest => ?_, 0, rfl, rfl, rfl, rfl⟩
    cases hlatest
  | @counted earlier answer n hstores hnone hleft hbelow =>
    refine Or.inr ⟨fun other artifact hlatest hartifact => ?_, ?_⟩
    · -- the latest answer that has stored an entry has stored a count
      rw [latestStore?_append earlier hstores (List.forall_mem_nil _)] at hlatest
      cases hlatest
      rw [hnone] at hartifact
      cases hartifact
    · rw [nextCount_concat, Answer.count_of_left hleft]
      by_cases hfresh : now ≤ answer.time + lifetime
      · exact ⟨n, if_pos ⟨hbelow, hfresh⟩, by rw [unexpired_of_le hfresh]; exact ⟨rfl, rfl, rfl⟩⟩
      · exact ⟨0, if_neg fun h => hfresh h.2, by
          rw [unexpired_of_lt (Nat.lt_of_not_le hfresh)]; exact ⟨rfl, rfl, rfl⟩⟩
  | @compiled earlier hits answer n artifact hstores hartifact hleft hdue hhits =>
    have hlatest : latestStore? (earlier ++ answer :: hits) = some answer :=
      latestStore?_append earlier hstores fun hit hmem => (hhits hit hmem).1
    have hcount : answer.count = n := Answer.count_of_left hleft
    by_cases hfresh : now ≤ answer.time + lifetime
    · exact Or.inl ⟨answer, artifact, hlatest, hartifact, hfresh, by
        rw [unexpired_of_le hfresh, hcount]⟩
    · refine Or.inr ⟨fun other _ hother _ => ?_, 0, ?_, ?_⟩
      · rw [hlatest] at hother
        cases hother
        exact Nat.lt_of_not_le hfresh
      · -- every answer of the epoch has left the count at which the query was compiled
        refine nextCount_append_of_due earlier (List.cons_ne_nil _ _)
          (List.forall_mem_cons.mpr ⟨hcount ▸ hdue, fun hit hmem => ?_⟩)
        rw [Answer.count_of_left (hhits hit hmem).2]
        exact hdue
      · rw [unexpired_of_lt (Nat.lt_of_not_le hfresh)]
        exact ⟨rfl, rfl, rfl⟩

end Epochs

/-! ## The next request -/

/-- How a request for a query goes after some answers, and the slot that it leaves. -/
inductive Course (executor : Executor L) (request : Request L) (lifetime now : Nat)
    (past : List (Answer L)) : List (Call L) → Option (Slot (Entry L.Artifact)) → Prop where
  /-- The artifact is run, and its slot stays as it was stored. -/
  | hit {answer : Answer L} {artifact : L.Artifact} (hlatest : latestStore? past = some answer)
      (hartifact : Call.artifact? answer.calls = some artifact)
      (hfresh : now ≤ answer.time + lifetime) (outcome : Outcome Diagnostic Output) :
      Course executor request lifetime now past [Executor.runs request artifact outcome]
        (some ⟨.compiled answer.count artifact, answer.time⟩)
  | counted (hstale : ∀ answer artifact, latestStore? past = some answer →
        Call.artifact? answer.calls = some artifact → answer.time + lifetime < now)
      (hbelow : nextCount executor.tiering.due lifetime past now < executor.tiering.due)
      (document : L.Document) (outcome : Outcome Diagnostic Output) :
      Course executor request lifetime now past
        (Phase.checks executor request document ++ [executor.interprets request document outcome])
        (some ⟨.seen (nextCount executor.tiering.due lifetime past now), now⟩)
  | compiled (hstale : ∀ answer artifact, latestStore? past = some answer →
        Call.artifact? answer.calls = some artifact → answer.time + lifetime < now)
      (hdue : executor.tiering.due ≤ nextCount executor.tiering.due lifetime past now)
      (document : L.Document) (artifact : L.Artifact) (outcome : Outcome Diagnostic Output) :
      Course executor request lifetime now past
        (Phase.checks executor request document ++
          [Phase.compilation executor request document (.artifact artifact),
            Executor.runs request artifact outcome])
        (some ⟨.compiled (nextCount executor.tiering.due lifetime past now) artifact, now⟩)

/-- Unless it has expired, the slot of a query is that of the epoch that its answers lead to. -/
def World.Follows (w : World L σ) (due lifetime : Nat) (key : Fingerprint)
    (past : List (Answer L)) : Prop :=
  ∃ stored, Epoch due past stored ∧
    unexpired (w.cache.slot? key) lifetime w.now = unexpired stored lifetime w.now

section Courses

variable {server : Server L σ} {request : Request L} {w : World L σ} {lifetime : Nat}
  {past : List (Answer L)}

/-- The live slot of a key is its slot, unless that has expired. -/
theorem liveSlot?_eq_unexpired (hlifetime : w.cache.lifetime = some lifetime) (key : Fingerprint) :
    w.cache.liveSlot? w.now key = unexpired (w.cache.slot? key) lifetime w.now := by
  rw [RecencyMap.liveSlot?, unexpired]
  congr 1
  funext slot
  rw [RecencyMap.isExpired, hlifetime, ← decide_not]
  exact decide_eq_decide.mpr Nat.not_lt

/-- The next request for a query takes the course that its answers lead to. -/
theorem course_of_follows (hinstant : server.engine.Instant)
    (hlifetime : w.cache.lifetime = some lifetime)
    (hsucceeds : ∀ call ∈ server.executor.calls server.engine request .arrived w,
      call.succeeds = true)
    (h : w.Follows server.executor.tiering.due lifetime (.ofText request.query) past) :
    Course server.executor request lifetime w.now past
      (server.executor.calls server.engine request .arrived w)
      ((server.executor.execute server.engine request w).2.cache.slot?
        (.ofText request.query)) := by
  obtain ⟨stored, hepoch, hslot⟩ := h
  have hlive := (liveSlot?_eq_unexpired hlifetime (.ofText request.query)).trans hslot
  have hentry := QueryCache.entry_eq_of_liveSlot? w.cache w.now request.query
  rw [hlive] at hentry
  rcases entry_of_epoch hepoch lifetime w.now with
    ⟨answer, artifact, hlatest, hartifact, hfresh, hstored⟩ | ⟨hstale, n, hnext, hcounts⟩
  · -- an artifact that has not expired is run
    have hfound : (w.cache.entry w.now request.query).artifact? = some artifact := by
      rw [hentry, hstored]
      rfl
    obtain ⟨outcome, hcalls, hleft⟩ :=
      exists_run_of_artifact? server.executor server.quiet request w hfound
    rw [hcalls, hleft, hlive, hstored]
    exact .hit hlatest hartifact hfresh outcome
  · -- without one the request is counted from the entry that is read
    rw [← hentry] at hcounts
    have hcount : (w.cache.entry w.now request.query).occurrences + 1 =
        nextCount server.executor.tiering.due lifetime past w.now := by
      rw [hcounts.occurrences, hnext]
    rcases exists_calls_of_open server.executor server.quiet hinstant request w hsucceeds
        hcounts.artifact? hcounts.declined with
      ⟨hbelow, document, outcome, hcalls, hleft⟩ |
      ⟨hdue, document, artifact, outcome, hcalls, hleft⟩
    · rw [hcount] at hbelow hleft
      rw [hcalls, hleft]
      exact .counted hstale hbelow document outcome
    · rw [hcount] at hdue hleft
      rw [hcalls, hleft]
      exact .compiled hstale hdue document artifact outcome

/-- The answer of a request that has taken its course leads on in the epoch, or to a new one. -/
theorem epoch_concat {executor : Executor L} {stored : Option (Slot (Entry L.Artifact))}
    {answer : Answer L} (h : Epoch executor.tiering.due past stored)
    (hcourse : Course executor request lifetime answer.time past answer.calls answer.left) :
    Epoch executor.tiering.due (past ++ [answer]) answer.left := by
  obtain ⟨query, time, response, calls, left⟩ := answer
  dsimp only at hcourse ⊢
  cases hcourse with
  | counted _ hbelow document outcome => exact .counted rfl rfl rfl hbelow
  | compiled _ hdue document artifact outcome =>
    exact .compiled rfl rfl rfl hdue (List.forall_mem_nil _)
  | @hit first artifact hlatest hartifact hfresh outcome =>
    -- an artifact is run only where the epoch has one
    cases h with
    | blank => cases hlatest
    | counted hstores hnone _ _ =>
      rw [latestStore?_append _ hstores (List.forall_mem_nil _)] at hlatest
      cases hlatest
      rw [hnone] at hartifact
      cases hartifact
    | @compiled earlier hits _ n _ hstores hsome hleft hdue hhits =>
      rw [latestStore?_append _ hstores fun hit hmem => (hhits hit hmem).1] at hlatest
      cases hlatest
      rw [hsome] at hartifact
      cases hartifact
      have hcount : first.count = n := Answer.count_of_left hleft
      -- one more hit, by which nothing is stored
      rw [hcount, List.append_assoc, List.cons_append]
      refine .compiled hstores hsome hleft hdue ?_
      exact List.forall_mem_append.mpr ⟨hhits, List.forall_mem_singleton.mpr ⟨rfl, rfl⟩⟩

/-! ### What a course says -/

section Readings

variable {executor : Executor L} {now : Nat} {calls : List (Call L)}
  {left : Option (Slot (Entry L.Artifact))}

/-- A query that was checked was not run at once. -/
theorem checks_append_ne_run (executor : Executor L) (request : Request L) (document : L.Document)
    (rest : List (Call L)) (artifact : L.Artifact) (outcome : Outcome Diagnostic Output) :
    Phase.checks executor request document ++ rest ≠ [Executor.runs request artifact outcome] :=
  nofun

/-- An artifact is run at once only if it was stored last and has not expired. -/
theorem fresh_of_run (h : Course executor request lifetime now past calls left)
    {artifact : L.Artifact} {outcome : Outcome Diagnostic Output}
    (hrun : calls = [Executor.runs request artifact outcome]) :
    ∃ answer, latestStore? past = some answer ∧ Call.artifact? answer.calls = some artifact ∧
      now ≤ answer.time + lifetime := by
  cases h with
  | hit hlatest hartifact hfresh outcome =>
    cases hrun
    exact ⟨_, hlatest, hartifact, hfresh⟩
  | counted _ _ document _ | compiled _ _ document _ _ =>
    exact absurd hrun (checks_append_ne_run executor request document _ _ _)

/-- An artifact that was stored last and has not expired is run, and its slot stays. -/
theorem run_of_fresh (h : Course executor request lifetime now past calls left)
    {answer : Answer L} {artifact : L.Artifact} (hlatest : latestStore? past = some answer)
    (hartifact : Call.artifact? answer.calls = some artifact)
    (hfresh : now ≤ answer.time + lifetime) :
    (∃ outcome, calls = [Executor.runs request artifact outcome]) ∧
      left = some ⟨.compiled answer.count artifact, answer.time⟩ := by
  cases h with
  | hit hlatest' hartifact' _ outcome =>
    cases hlatest.symm.trans hlatest'
    cases hartifact.symm.trans hartifact'
    exact ⟨⟨outcome, rfl⟩, rfl⟩
  | counted hstale _ _ _ | compiled hstale _ _ _ _ =>
    exact absurd hfresh (Nat.not_le_of_lt (hstale answer artifact hlatest hartifact))

/-- A request that does not run an artifact at once is counted, and the query is compiled if it is
    due. -/
theorem course_of_not_run (h : Course executor request lifetime now past calls left)
    (hslow : ¬∃ artifact outcome, calls = [Executor.runs request artifact outcome]) :
    let due := executor.tiering.due
    let n := nextCount due lifetime past now
    (Call.compiles calls = true ↔ due ≤ n) ∧
    (due ≤ n → ∃ document artifact outcome,
      calls = Phase.checks executor request document ++
        [Phase.compilation executor request document (.artifact artifact),
          Executor.runs request artifact outcome] ∧
      left = some ⟨.compiled n artifact, now⟩) ∧
    (n < due → ∃ document outcome,
      calls = Phase.checks executor request document ++
        [executor.interprets request document outcome] ∧
      left = some ⟨.seen n, now⟩) := by
  intro due n
  -- Case split on the course: a hit is excluded, and one of the other two is taken.
  cases h with
  | hit _ _ _ outcome => exact absurd ⟨_, outcome, rfl⟩ hslow
  | counted _ hbelow document outcome =>
    have hopen : ¬due ≤ n := Nat.not_le_of_lt hbelow
    exact ⟨⟨nofun, fun hdue => absurd hdue hopen⟩, fun hdue => absurd hdue hopen,
      fun _ => ⟨document, outcome, rfl, rfl⟩⟩
  | compiled _ hdue document artifact outcome =>
    exact ⟨⟨fun _ => hdue, fun _ => rfl⟩, fun _ => ⟨document, artifact, outcome, rfl, rfl⟩,
      fun hbelow => absurd hdue (Nat.not_le_of_lt hbelow)⟩

end Readings

end Courses

/-! ## Sessions -/

/-- The answers given in a session to requests for a query. -/
def Session.answersTo (key : Fingerprint) (turns : List (Turn L σ)) (w : World L σ) :
    List (Answer L) :=
  (answers turns w).filter fun answer => Fingerprint.ofText answer.query = key

section Sessions

variable {server : Server L σ} {turn : Turn L σ} {w : World L σ} {due lifetime : Nat}
  {key : Fingerprint} {past : List (Answer L)}

/-- The answers of a last turn come after those of the turns before it. -/
theorem answersTo_concat (key : Fingerprint) (turns : List (Turn L σ)) (turn : Turn L σ)
    (w : World L σ) : Session.answersTo key (turns ++ [turn]) w =
      Session.answersTo key turns w ++ Session.answersTo key [turn] (Session.run turns w) := by
  rw [Session.answersTo, Session.answers_append, List.filter_append]
  rfl

/-- A turn that does not ask for the query gives no answer to it. -/
theorem answersTo_of_ne (hkey : ∀ text, turn.query? = some text → .ofText text ≠ key)
    (w : World L σ) : Session.answersTo key [turn] w = [] := by
  cases turn with
  | serve server request =>
    exact List.filter_cons_of_neg (by simpa using hkey _ rfl)
  | advance _ | clear | purge => rfl

/-- A request for the query is answered once. -/
theorem answersTo_self (server : Server L σ) (request : Request L) (w : World L σ) :
    Session.answersTo (.ofText request.query) [.serve server request] w =
      [{ query := request.query
         time := w.now
         response := (server.executor.execute server.engine request w).1
         calls := server.executor.calls server.engine request .arrived w
         left := (server.executor.execute server.engine request w).2.cache.slot?
           (.ofText request.query) }] :=
  List.filter_cons_of_pos (decide_eq_true rfl)

/-- Turns other than requests for a query and clearing leave its epoch. -/
theorem follows_after_of_ne (hclear : turn ≠ .clear)
    (hserver : ∀ other request, turn = .serve other request → other.engine.Instant)
    {keys : Finset Fingerprint} (hkeys : ∀ text, turn.query? = some text → .ofText text ∈ keys)
    (hne : ∀ text, turn.query? = some text → .ofText text ≠ key) (hfits : w.cache.Fits keys)
    (hlifetime : w.cache.lifetime = some lifetime) (h : w.Follows due lifetime key past) :
    (turn.after w).Follows due lifetime key past := by
  obtain ⟨stored, hepoch, hslot⟩ := h
  refine ⟨stored, hepoch, ?_⟩
  cases turn with
  | serve server request =>
    rw [Turn.after, slot?_execute_of_fits server (hkeys _ rfl) hfits (hne _ rfl).symm,
      now_execute server.executor (hserver server request rfl)]
    exact hslot
  | advance nanoseconds =>
    -- what has expired stays so
    show unexpired (w.cache.slot? key) lifetime (w.now + nanoseconds) =
      unexpired stored lifetime (w.now + nanoseconds)
    rw [← unexpired_unexpired _ _ (Nat.le_add_right w.now nanoseconds), hslot,
      unexpired_unexpired _ _ (Nat.le_add_right w.now nanoseconds)]
  | clear => exact absurd rfl hclear
  | purge =>
    show unexpired ((w.cache.purge w.now).slot? key) lifetime w.now = _
    rw [RecencyMap.slot?_purge, liveSlot?_eq_unexpired hlifetime,
      unexpired_unexpired _ _ (Nat.le_refl w.now)]
    exact hslot

/-- In a session of one server without clearing, a query that is compiled without failure follows
    its epochs. -/
theorem follows_run (hinstant : server.engine.Instant) (hempty : w.cache.slots = [])
    (hlifetime : w.cache.lifetime = some lifetime) {turns : List (Turn L σ)}
    (hserver : ∀ other request, .serve other request ∈ turns → other = server)
    (hclear : .clear ∉ turns) {keys : Finset Fingerprint}
    (hkeys : ∀ text ∈ Session.texts turns, .ofText text ∈ keys) (hfits : w.cache.Fits keys)
    (hsucceeds : ∀ answer ∈ Session.answersTo key turns w, ∀ call ∈ answer.calls,
      call.succeeds = true) :
    (Session.run turns w).Follows server.executor.tiering.due lifetime key
      (Session.answersTo key turns w) := by
  -- Induction on the turns, with the last one taken off: the epoch is asked about that one.
  induction turns using List.reverseRecOn with
  | nil =>
    refine ⟨none, .blank, ?_⟩
    rw [Session.run, List.foldl_nil, RecencyMap.slot?, hempty]
    rfl
  | append_singleton turns turn ih =>
    rw [answersTo_concat] at hsucceeds ⊢
    rw [Session.run_concat]
    obtain ⟨hsucceeds, hcalls⟩ := List.forall_mem_append.mp hsucceeds
    have hkeys' : ∀ text ∈ Session.texts turns, .ofText text ∈ keys := fun text htext =>
      hkeys text ((List.sublist_append_left turns [turn]).filterMap _ |>.subset htext)
    have hmem : turn ∈ turns ++ [turn] := List.mem_append_right _ (List.mem_singleton_self turn)
    have hbefore := ih (fun other request hother =>
      hserver other request (List.mem_append_left _ hother))
      (fun hcleared => hclear (List.mem_append_left _ hcleared)) hkeys' hsucceeds
    by_cases hown : ∃ text, turn.query? = some text ∧ .ofText text = key
    · obtain ⟨text, htext, rfl⟩ := hown
      rcases turn.query?_eq_none_or with hnone | ⟨other, request, rfl⟩
      · rw [hnone] at htext
        cases htext
      · -- a request for the query takes the course that its past answers lead to
        cases htext
        obtain rfl := hserver other request hmem
        rw [answersTo_self] at hcalls ⊢
        have hcourse := course_of_follows hinstant
          ((Session.lifetime_run turns w).trans hlifetime)
          (hcalls _ (List.mem_singleton_self _)) hbefore
        obtain ⟨stored, hepoch, -⟩ := hbefore
        exact ⟨_, epoch_concat hepoch hcourse, rfl⟩
    · -- any other turn leaves the epoch as it is
      push Not at hown
      rw [answersTo_of_ne hown, List.append_nil]
      refine follows_after_of_ne (fun heq => hclear (heq ▸ hmem)) ?_ ?_ hown
        (fits_run hkeys' hfits) ((Session.lifetime_run turns w).trans hlifetime) hbefore
      · rintro other request rfl
        exact hserver other request hmem ▸ hinstant
      · exact fun text htext => hkeys text (List.mem_filterMap.mpr ⟨turn, hmem, htext⟩)

end Sessions

/-- The epochs of a query that is always parsed, found valid and compiled, in a session of one
    executor without clearing, on an empty cache with a lifetime and room for all queries. A request
    for it runs an artifact at once if and only if the latest request that has stored the entry of
    the query has stored that artifact, at most a lifetime ago; the slot stays as it was stored
    then, so running an artifact does not prolong its life. Any other request is counted: one more
    than the previous one, if that was below the threshold and at most a lifetime ago, and else as
    the first. It compiles the query if and only if its count has reached the threshold; the
    artifact, or else the count, is stored at its own time, from which on its life is counted.
    Requests are for the same query if their texts have the same key. -/
theorem query_lives_in_epochs {server : Server L σ} (hinstant : server.engine.Instant)
    {w : World L σ} (hempty : w.cache.slots = []) {lifetime : Nat}
    (hlifetime : w.cache.lifetime = some lifetime) {turns : List (Turn L σ)} {request : Request L}
    (hserver : ∀ other asked, .serve other asked ∈ turns → other = server) (hclear : .clear ∉ turns)
    (hroom : (Session.texts (turns ++ [.serve server request])).toFinset.card ≤ w.cache.capacity)
    (hsucceeds : ∀ answer ∈ Session.answersTo (.ofText request.query)
      (turns ++ [.serve server request]) w, ∀ call ∈ answer.calls, call.succeeds = true) :
    let before := Session.run turns w
    let past := Session.answersTo (.ofText request.query) turns w
    let calls := server.executor.calls server.engine request .arrived before
    let left := (server.executor.execute server.engine request before).2.cache.slot?
      (.ofText request.query)
    let due := server.executor.tiering.due
    let n := nextCount due lifetime past before.now
    ((∃ artifact outcome, calls = [Executor.runs request artifact outcome]) ↔
      ∃ answer artifact, latestStore? past = some answer ∧
        Call.artifact? answer.calls = some artifact ∧ before.now ≤ answer.time + lifetime) ∧
    (∀ answer artifact, latestStore? past = some answer →
      Call.artifact? answer.calls = some artifact → before.now ≤ answer.time + lifetime →
      (∃ outcome, calls = [Executor.runs request artifact outcome]) ∧
        left = some ⟨.compiled answer.count artifact, answer.time⟩) ∧
    ((¬∃ artifact outcome, calls = [Executor.runs request artifact outcome]) →
      (Call.compiles calls = true ↔ due ≤ n) ∧
      (due ≤ n → ∃ document artifact outcome,
        calls = Phase.checks server.executor request document ++
          [Phase.compilation server.executor request document (.artifact artifact),
            Executor.runs request artifact outcome] ∧
        left = some ⟨.compiled n artifact, before.now⟩) ∧
      (n < due → ∃ document outcome,
        calls = Phase.checks server.executor request document ++
          [server.executor.interprets request document outcome] ∧
        left = some ⟨.seen n, before.now⟩)) := by
  intro before past calls left due n
  have hkeys : ∀ text ∈ Session.texts turns,
      .ofText text ∈ Session.keys (turns ++ [.serve server request]) := fun text htext =>
    ofText_mem_keys ((List.sublist_append_left turns _).filterMap _ |>.subset htext)
  rw [answersTo_concat, answersTo_self] at hsucceeds
  obtain ⟨hpast, hcalls⟩ := List.forall_mem_append.mp hsucceeds
  have hfollows := follows_run hinstant hempty hlifetime hserver hclear hkeys
    (fits_of_empty hempty hroom) hpast
  -- what happened before decides which course the request takes
  have hcourse : Course server.executor request lifetime before.now past calls left :=
    course_of_follows hinstant ((Session.lifetime_run turns w).trans hlifetime)
      (hcalls _ (List.mem_singleton_self _)) hfollows
  refine ⟨⟨?_, ?_⟩, fun answer artifact => run_of_fresh hcourse, course_of_not_run hcourse⟩
  · rintro ⟨artifact, outcome, hrun⟩
    obtain ⟨answer, hlatest, hartifact, hfresh⟩ := fresh_of_run hcourse hrun
    exact ⟨answer, artifact, hlatest, hartifact, hfresh⟩
  · rintro ⟨answer, artifact, hlatest, hartifact, hfresh⟩
    exact ⟨artifact, (run_of_fresh hcourse hlatest hartifact hfresh).1⟩

/-- A query is compiled when its count is about to expire, and a lifetime passes. -/
def echoEpoch (server : Server echoLanguage Unit) : List (Turn echoLanguage Unit) :=
  [.serve server (echoRequest "a"), .advance 5, .serve server (echoRequest "a"), .advance 5]

/-- The artifact is run when it is about to expire itself, which does not prolong its life. -/
theorem query_lives_in_epochs_echoEpoch :
    let server := echoServer 0 { threshold := 2 }
    let before := Session.run (echoEpoch server) briefWorld
    (∃ outcome, server.executor.calls server.engine (echoRequest "a") .arrived before =
      [Executor.runs (echoRequest "a") "a" outcome]) ∧
    (server.executor.execute server.engine (echoRequest "a") before).2.cache.slot?
      (.ofText (echoRequest "a").query) = some ⟨.compiled 2 "a", 5⟩ := by
  intro server before
  have hempty : briefWorld.cache.slots = [] := rfl
  have hlifetime : briefWorld.cache.lifetime = some 5 := rfl
  have hserver : ∀ other asked, .serve other asked ∈ echoEpoch server → other = server := by
    intro other asked hmem
    simp only [echoEpoch, List.mem_cons, Turn.serve.injEq, reduceCtorEq, List.not_mem_nil, or_false,
      false_or, or_self] at hmem
    exact hmem.1
  have hclear : .clear ∉ echoEpoch server := by simp [echoEpoch]
  have hroom : (Session.texts (echoEpoch server ++ [.serve server (echoRequest "a")])).toFinset.card
      ≤ briefWorld.cache.capacity := by decide
  obtain ⟨hsucceeds, hlatest, hnow⟩ :
      (∀ answer ∈ Session.answersTo (.ofText (echoRequest "a").query)
        (echoEpoch server ++ [.serve server (echoRequest "a")]) briefWorld,
        ∀ call ∈ answer.calls, call.succeeds = true) ∧
      (latestStore? (Session.answersTo (.ofText (echoRequest "a").query) (echoEpoch server)
        briefWorld)).map (fun answer => (answer.time, answer.count, Call.artifact? answer.calls)) =
        some (5, 2, some "a") ∧
      (Session.run (echoEpoch server) briefWorld).now = 10 := by decide +kernel
  obtain ⟨answer, hlatest, hanswer⟩ := Option.map_eq_some_iff.mp hlatest
  obtain ⟨htime, hcount, hartifact⟩ : answer.time = 5 ∧ answer.count = 2 ∧
    Call.artifact? answer.calls = some "a" := by simpa using hanswer
  obtain ⟨-, hfresh, -⟩ := query_lives_in_epochs echo.engine_instant hempty hlifetime hserver hclear
    hroom hsucceeds
  rw [← hcount, ← htime]
  exact hfresh answer "a" hlatest hartifact (by rw [hnow, htime])

end TieredQuery
