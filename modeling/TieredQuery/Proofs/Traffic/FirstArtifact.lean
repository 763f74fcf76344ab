import TieredQuery.Proofs.Dispatch.PureEngine
import TieredQuery.Proofs.Traffic.Basic

/-!
# The first stored artifact wins

Several requests may compile the same query at the same time. Whatever the order of their steps,
an artifact that has been stored stays in the entry until the entry is gone or a client overwrites
it: the other requests neither replace it nor mark it as a failure, and the count of the entry
only grows. Every request that looks at the entry in the meantime runs the stored artifact, also
one that has just compiled another.

## Key results

- `rule?_compiled`: what the rules of requests do to the entry of a compiled query
- `compiled_after`, `compiled_run`: one event and a whole run
- `runsOnly_run`: a request that is to run an artifact calls nothing else
- `first_stored_artifact_wins`
-/

namespace TieredQuery

variable {L : Language} {σ : Type}

/-! ## The entry -/

/-- No rule of a request takes the artifact away, or lowers the count. -/
theorem Phase.rule?_compiled {tiering : Tiering} {phase : Phase L}
    {rule : Entry L.Artifact → Option (Entry L.Artifact)} (hrule : phase.rule? tiering = some rule)
    (occurrences : Nat) (artifact : L.Artifact) :
    ∃ n, occurrences ≤ n ∧
      (rule (.compiled occurrences artifact)).getD (.compiled occurrences artifact) =
        .compiled n artifact := by
  cases phase with
  | arrived =>
    cases hrule
    exact ⟨occurrences, Nat.le_refl _, rfl⟩
  | planning document =>
    cases hrule
    exact ⟨occurrences, Nat.le_refl _, rfl⟩
  | adopting fresh count =>
    cases hrule
    by_cases hle : count ≤ occurrences
    · exact ⟨occurrences, Nat.le_refl _, by simp [Entry.adopt, Entry.compiled, hle]⟩
    · -- the larger count is stored, with the artifact that was there
      exact ⟨count, by omega, by simp [Entry.adopt, Entry.compiled, hle]⟩
  | declining document count =>
    cases hrule
    exact ⟨occurrences, Nat.le_refl _, rfl⟩
  | _ => cases hrule

/-! ## Runs that keep an entry -/

namespace Traffic

/-- Through a run the entry of a key is never missing or expired, and no client writes it. -/
def Keeps (key : Fingerprint) (t : Traffic L σ) : List (Event L σ) → Prop
  | [] => (t.live? key).isSome
  | event :: events =>
    (t.live? key).isSome ∧ ¬event.Writes key ∧ Keeps key (t.after event) events

/-- A run that keeps an entry begins with it. -/
theorem Keeps.isSome {key : Fingerprint} {t : Traffic L σ} {events : List (Event L σ)}
    (h : t.Keeps key events) : (t.live? key).isSome := by
  cases events with
  | nil => exact h
  | cons event events => exact h.1

/-- A run that keeps an entry keeps it in its first part, and from there on. -/
theorem keeps_append {key : Fingerprint} {t : Traffic L σ} {earlier later : List (Event L σ)}
    (h : t.Keeps key (earlier ++ later)) :
    t.Keeps key earlier ∧ (t.run earlier).Keeps key later := by
  induction earlier generalizing t with
  | nil => exact ⟨Keeps.isSome h, h⟩
  | cons event earlier ih =>
    obtain ⟨hlive, hwrites, hrest⟩ := h
    exact ⟨⟨hlive, hwrites, (ih hrest).1⟩, (ih hrest).2⟩

/-- An event that no client writes by leaves the artifact of a compiled entry, if it leaves the
    entry at all. -/
theorem compiled_after {t : Traffic L σ} {key : Fingerprint} {occurrences : Nat}
    {artifact : L.Artifact} (hlive : t.live? key = some (.compiled occurrences artifact))
    {event : Event L σ} (hwrites : ¬event.Writes key) :
    (t.after event).live? key = none ∨
      ∃ n, occurrences ≤ n ∧ (t.after event).live? key = some (.compiled n artifact) := by
  by_cases haccess : ∃ text rule, t.access? event = some (text, rule) ∧ key = .ofText text
  · obtain ⟨text, rule, haccess, rfl⟩ := haccess
    have hafter := live?_after_of_accessed hlive haccess
    right
    -- a request's step is the only access that is neither a read nor a client's write
    cases event with
    | read _ =>
      cases haccess
      exact ⟨occurrences, Nat.le_refl _, hafter⟩
    | step i =>
      cases hjob : t.jobs[i]? with
      | none => simp [access?, hjob] at haccess
      | some job =>
        rw [access?_step hjob, Option.map_eq_some_iff] at haccess
        obtain ⟨_, hrule, hpair⟩ := haccess
        cases hpair
        obtain ⟨n, hn, heq⟩ := Phase.rule?_compiled hrule occurrences artifact
        exact ⟨n, hn, by rw [hafter, heq]⟩
    | write _ _ | revise _ _ =>
      cases haccess
      exact absurd rfl hwrites
    | _ => cases haccess
  · have hother : ∀ text rule, t.access? event = some (text, rule) → key ≠ .ofText text :=
      fun text rule h heq => haccess ⟨text, rule, h, heq⟩
    rcases live?_after_of_not_accessed hlive hother with hkept | hgone
    · exact Or.inr ⟨occurrences, Nat.le_refl _, hkept⟩
    · exact Or.inl hgone

/-- A run that keeps a compiled entry keeps its artifact, and its count only grows. -/
theorem compiled_run {t : Traffic L σ} {key : Fingerprint} {occurrences : Nat}
    {artifact : L.Artifact} (hlive : t.live? key = some (.compiled occurrences artifact))
    {events : List (Event L σ)} (hkeeps : t.Keeps key events) :
    ∃ n, occurrences ≤ n ∧ (t.run events).live? key = some (.compiled n artifact) := by
  -- Induction on the events: the count that one leaves is where the next starts.
  induction events generalizing t occurrences with
  | nil => exact ⟨occurrences, Nat.le_refl _, hlive⟩
  | cons event events ih =>
    obtain ⟨-, hwrites, hrest⟩ := hkeeps
    rcases compiled_after hlive hwrites with hgone | ⟨m, hm, hafter⟩
    · -- the entry cannot be gone, for the rest of the run keeps it
      have hsome := hrest.isSome
      rw [hgone] at hsome
      cases hsome
    · obtain ⟨n, hn, hrun⟩ := ih hafter hrest
      exact ⟨n, Nat.le_trans hm hn, hrun⟩

end Traffic

/-! ## The requests -/

/-- Whether the next step of a request decides by the entry of its query what it runs: the request
    asks for an artifact, plans its query, or has compiled it and stores the artifact. -/
def Phase.Decisive : Phase L → Prop
  | arrived | planning _ | adopting _ _ => True
  | _ => False

/-- Since a request was in a state, it is to run an artifact or has run it and is settled by the
    response of that run, and has called nothing else. -/
def Job.RunsOnly (job : Job L σ) (artifact : L.Artifact) (since : Job L σ) : Prop :=
  (∃ verdict, job = ⟨since.server, since.request, .running artifact verdict, since.calls⟩) ∨
    ∃ outcome phase, phase.settled? = some (Call.executed outcome) ∧
      job = ⟨since.server, since.request, phase,
        since.calls ++ [.run artifact L.noResolvers since.request.context
          since.request.variableValues outcome]⟩

namespace Job

/-- A request that has compiled its query runs the artifact of the entry, if there is one. -/
theorem runsOnly_step_of_adopting {job : Job L σ} {fresh : L.Artifact} {occurrences : Nat}
    (hphase : job.phase = .adopting fresh occurrences) (w : World L σ) :
    (job.step w).1.RunsOnly ((w.cache.entry w.now job.request.query).artifact?.getD fresh)
      job := by
  obtain ⟨server, request, phase, calls⟩ := job
  cases hphase
  left
  refine ⟨.compiled, ?_⟩
  show Job.mk server request (server.executor.step server.engine request
    (.adopting fresh occurrences) w).1 (calls ++ []) = _
  rw [server.executor.phase_adopting, List.append_nil]

/-- A request that finds an artifact when it decides is to run it. -/
theorem runsOnly_step_of_decisive {job : Job L σ} {w : World L σ} {occurrences : Nat}
    {artifact : L.Artifact}
    (hentry : w.cache.entry w.now job.request.query = .compiled occurrences artifact)
    (hdecisive : job.phase.Decisive) : (job.step w).1.RunsOnly artifact job := by
  -- Case split on the phase: each of the three looks at the entry, and finds the artifact.
  cases hphase : job.phase with
  | adopting fresh count =>
    have hruns := runsOnly_step_of_adopting hphase w
    rw [hentry] at hruns
    exact hruns
  | arrived =>
    obtain ⟨server, request, phase, calls⟩ := job
    cases hphase
    left
    refine ⟨.hit, ?_⟩
    show Job.mk server request (server.executor.step server.engine request
      .arrived w).1 (calls ++ []) = _
    rw [server.executor.phase_arrived, hentry, List.append_nil]
    rfl
  | planning document =>
    obtain ⟨server, request, phase, calls⟩ := job
    cases hphase
    left
    refine ⟨.race, ?_⟩
    show Job.mk server request (server.executor.step server.engine request
      (.planning document) w).1 (calls ++ []) = _
    rw [server.executor.phase_planning, hentry, List.append_nil]
    rfl
  | _ =>
    rw [hphase] at hdecisive
    cases hdecisive

/-- A request that is to run an artifact, or has run it, does nothing else by its next step. -/
theorem runsOnly_step {since job : Job L σ} {artifact : L.Artifact}
    (h : job.RunsOnly artifact since) (w : World L σ) :
    (job.step w).1.RunsOnly artifact since := by
  right
  rcases h with ⟨verdict, rfl⟩ | ⟨outcome, phase, hsettled, rfl⟩
  · obtain ⟨given, hended⟩ := Phase.response_ended (L := L) (.ofText since.request.query) verdict
      (since.server.engine.run artifact L.noResolvers since.request.context
        since.request.variableValues w).1
    exact ⟨_, _, rfl, congrArg (Job.mk since.server since.request · _) hended⟩
  · -- the run is over, and only its response is counted
    obtain ⟨next, hnext, hstep⟩ := Job.step_of_settled ⟨_, _, phase, _⟩ hsettled w
    exact ⟨outcome, next, hnext, hstep⟩

end Job

namespace Traffic

/-- Once a request is to run an artifact, it calls nothing else, whatever happens. -/
theorem runsOnly_run {t : Traffic L σ} {i : Nat} {since job : Job L σ} {artifact : L.Artifact}
    (hjob : t.jobs[i]? = some job) (h : job.RunsOnly artifact since)
    (events : List (Event L σ)) :
    ∃ job', (t.run events).jobs[i]? = some job' ∧ job'.RunsOnly artifact since :=
  exists_job_run (P := fun job => job.RunsOnly artifact since)
    (fun _ w hjob => Job.runsOnly_step hjob w) hjob h events

/-- An artifact stored by a request stays in the entry, as long as that is there and no client
    writes it: the artifact is the one that was there before, or else the one just compiled; the
    entry is never marked as a failure and its count only grows; and every request that decides
    by the entry meanwhile runs this artifact and calls nothing else, as does the one that stored
    it. -/
theorem first_stored_artifact_wins {t : Traffic L σ} {i : Nat} {job : Job L σ}
    {fresh : L.Artifact} {occurrences : Nat} (hjob : t.jobs[i]? = some job)
    (hphase : job.phase = .adopting fresh occurrences) {stored : Entry L.Artifact}
    (hstored : ((t.world.cache.entry t.world.now job.request.query).adopt occurrences fresh).1 =
      some stored)
    {events : List (Event L σ)} (hkeeps : (t.after (.step i)).Keeps job.key events) :
    ∃ artifact,
      artifact = (t.world.cache.entry t.world.now job.request.query).artifact?.getD fresh ∧
      (t.after (.step i)).live? job.key = some stored ∧
      stored = .compiled stored.occurrences artifact ∧ occurrences ≤ stored.occurrences ∧
      (∀ earlier later, earlier <+: later → later <+: events → ∃ m n,
        stored.occurrences ≤ m ∧ m ≤ n ∧
        ((t.after (.step i)).run earlier).live? job.key = some (.compiled m artifact) ∧
        ((t.after (.step i)).run later).live? job.key = some (.compiled n artifact)) ∧
      (∀ next, ∃ job', ((t.after (.step i)).run next).jobs[i]? = some job' ∧
        job'.RunsOnly artifact job) ∧
      ∀ earlier, earlier <+: events → ∀ j other,
        ((t.after (.step i)).run earlier).jobs[j]? = some other → other.key = job.key →
        other.phase.Decisive → ∀ next, ∃ other',
          ((t.after (.step i)).run (earlier ++ .step j :: next)).jobs[j]? = some other' ∧
          other'.RunsOnly artifact other := by
  obtain ⟨n, hn, hcompiled⟩ := Entry.adopt_eq_some hstored
  -- the entry as it was stored
  have hlive : (t.after (.step i)).live? job.key = some stored := by
    have haccess := access?_step hjob
    rw [Job.rule?, hphase] at haccess
    have hcache := t.cache_after (.step i)
    rw [haccess] at hcache
    rw [live?, hcache.1, hcache.2, Job.key, QueryCache.live?_revise_self]
    simp only [hstored, Option.some_or]
  have hlive' : (t.after (.step i)).live? job.key = some (.compiled n _) := hcompiled ▸ hlive
  refine ⟨_, rfl, hlive, by rw [hcompiled]; rfl, by rw [hcompiled]; exact hn, ?_, ?_, ?_⟩
  · rintro earlier later ⟨middle, rfl⟩ ⟨rest, rfl⟩
    have hkeeps' := (keeps_append hkeeps).1
    obtain ⟨m, hm, hearlier⟩ := compiled_run hlive' (keeps_append hkeeps').1
    obtain ⟨k, hk, hlater⟩ := compiled_run hearlier (keeps_append hkeeps').2
    refine ⟨m, k, by rw [hcompiled]; exact hm, hk, hearlier, ?_⟩
    rw [run_append]
    exact hlater
  · intro next
    exact runsOnly_run (job_after_step hjob) (Job.runsOnly_step_of_adopting hphase t.world) next
  · -- a request that decides by the entry meanwhile finds the artifact in it
    rintro earlier ⟨rest, rfl⟩ j other hother hkey hdecisive next
    obtain ⟨m, -, hfound⟩ := compiled_run hlive' (keeps_append hkeeps).1
    rw [← hkey] at hfound
    rw [run_append, run_cons]
    exact runsOnly_run (job_after_step hother)
      (Job.runsOnly_step_of_decisive (entry_of_live? hfound) hdecisive) next

/-- Two requests have compiled one query, each to an artifact of its own. -/
def echoDuel : Traffic echoLanguage Unit where
  world := echoWorld 1
  jobs := [
    ⟨echoServer 0 {}, echoRequest "a", .adopting "first" 1, []⟩,
    ⟨echoServer 1 { threshold := 3 }, echoRequest "a", .adopting "second" 3, []⟩]

/-- The request that loses the duel raises the count and runs the artifact of the other. -/
theorem first_stored_artifact_wins_echoDuel :
    (∃ n, 1 ≤ n ∧ ((echoDuel.after (.step 0)).run [.step 1]).live?
      (.ofText (echoRequest "a").query) = some (.compiled n "first")) ∧
    ∃ job, ((echoDuel.after (.step 0)).run ([] ++ [.step 1])).jobs[1]? = some job ∧
      job.RunsOnly "first"
        ⟨echoServer 1 { threshold := 3 }, echoRequest "a", .adopting "second" 3, []⟩ := by
  -- the cache is empty, so the first request stores what it has compiled
  have hentry : echoDuel.world.cache.entry echoDuel.world.now (echoRequest "a").query =
      .unseen := by
    rw [QueryCache.entry, RecencyMap.live?]
    rfl
  have hlive : ((echoDuel.after (.step 0)).live? (.ofText (echoRequest "a").query)).isSome ∧
      (((echoDuel.after (.step 0)).after (.step 1)).live?
        (.ofText (echoRequest "a").query)).isSome := by decide +kernel
  have hkeeps : (echoDuel.after (.step 0)).Keeps (.ofText (echoRequest "a").query) [.step 1] :=
    ⟨hlive.1, id, hlive.2⟩
  have hjob : echoDuel.jobs[0]? =
      some ⟨echoServer 0 {}, echoRequest "a", .adopting "first" 1, []⟩ := rfl
  have hstored : ((echoDuel.world.cache.entry echoDuel.world.now (echoRequest "a").query).adopt 1
      "first").1 = some (.compiled 1 "first") := by
    rw [hentry]
    rfl
  obtain ⟨artifact, hartifact, -, -, hle, hcount, -, hothers⟩ :=
    first_stored_artifact_wins hjob rfl hstored hkeeps
  rw [hentry] at hartifact
  obtain rfl : artifact = "first" := hartifact
  constructor
  · obtain ⟨m, n, hm, hmn, -, hlater⟩ := hcount [] [.step 1] List.nil_prefix (List.prefix_refl _)
    exact ⟨n, hle.trans (hm.trans hmn), hlater⟩
  · have hother : (echoDuel.after (.step 0)).jobs[1]? =
        some ⟨echoServer 1 { threshold := 3 }, echoRequest "a", .adopting "second" 3, []⟩ :=
      job_after_of_ne rfl fun h => by cases h
    exact hothers [] List.nil_prefix 1 _ hother rfl trivial []

end Traffic
end TieredQuery
