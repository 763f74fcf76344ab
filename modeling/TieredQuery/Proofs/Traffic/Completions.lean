import TieredQuery.Proofs.Dispatch.PureEngine
import TieredQuery.Proofs.Traffic.Basic

/-!
# Requests that finish compiling one after the other

Several requests may compile the same query at a time. Each of them finishes by storing its
artifact, or by remembering that there is none, and finds the entry as the requests before it have
left it. A `Completion` is such a finish, and `Completion.applyAll` says what any number of them
make of an entry.

The order matters for one thing, which artifact it is: the first one stays, and all requests that
have compiled one run it. It does not matter for whether there is an artifact or a remembered
failure. The count may depend on it, since a failure is not counted any more once there is an
artifact; but it is never less than what a request has stored an artifact with, and never more than
the greatest count of all (`le_occurrences_applyAll`, `occurrences_applyAll_le`).

## Key results

- `artifact?_applyAll`, `declined_applyAll`: what is left by some completions
- `occurrences_applyAll_of_uniform`: where the count does not depend on the order
- `entryAt_finishAll`: the steps of requests change the entry as the completions do
- `completions_converge`
-/

namespace TieredQuery

variable {L : Language} {σ A : Type}

/-! ## What completions make of an entry -/

/-- How a request finishes compiling its query. -/
inductive Completion (A : Type) where
  /-- It stores an artifact, compiled as the given occurrence. -/
  | adopts (artifact : A) (occurrences : Nat)
  /-- It remembers that there is no artifact. -/
  | declines (occurrences : Nat)
deriving DecidableEq

namespace Completion

/-- The occurrence for which the query was compiled. -/
def occurrences : Completion A → Nat
  | adopts _ n | declines n => n

/-- The artifact that was compiled. -/
def artifact? : Completion A → Option A
  | adopts artifact _ => some artifact
  | declines _ => none

/-- The rule by which the request revises the entry. -/
def rule : Completion A → Entry A → Option (Entry A)
  | adopts artifact n, entry => (entry.adopt n artifact).1
  | declines n, entry => entry.decline n

/-- The entry after a completion. -/
def apply (c : Completion A) (entry : Entry A) : Entry A := (c.rule entry).getD entry

/-- The entry after some completions, one after the other. -/
def applyAll (entry : Entry A) (cs : List (Completion A)) : Entry A :=
  cs.foldl (fun entry c => c.apply entry) entry

@[simp] theorem applyAll_nil (entry : Entry A) : applyAll entry [] = entry := rfl

@[simp] theorem applyAll_cons (entry : Entry A) (c : Completion A) (cs : List (Completion A)) :
    applyAll entry (c :: cs) = applyAll (c.apply entry) cs := rfl

theorem applyAll_append (entry : Entry A) (cs cs' : List (Completion A)) :
    applyAll entry (cs ++ cs') = applyAll (applyAll entry cs) cs' := List.foldl_append ..

end Completion

/-- Whether an entry does not have both an artifact and a remembered failure. -/
def Entry.Sound (entry : Entry A) : Prop := entry.artifact? = none ∨ entry.declined = false

namespace Completion

variable {entry : Entry A} {c : Completion A} {cs : List (Completion A)}

/-! ### One completion -/

/-- An artifact is stored with the greater count, unless there is one with a count as great. -/
theorem apply_adopts (h : entry.Sound) (artifact : A) (n : Nat) :
    (adopts artifact n).apply entry =
      .compiled (max n entry.occurrences) (entry.artifact?.getD artifact) := by
  obtain ⟨count, kept?, declined⟩ := entry
  -- Case split on the artifact that is there: it decides whether the new one is stored.
  cases kept? with
  | none => simp [apply, rule, Entry.adopt]
  | some kept =>
    have hdeclined : declined = false := by simpa [Entry.Sound] using h
    subst hdeclined
    by_cases hle : n ≤ count
    · simp [apply, rule, Entry.adopt, Entry.compiled, hle]
    · have hmax : max n count = n := by omega
      simp [apply, rule, Entry.adopt, Entry.compiled, hle, hmax]

/-- A failure is remembered with the greater count where there is no artifact. -/
theorem apply_declines_of_none (h : entry.artifact? = none) (n : Nat) :
    (declines n).apply entry = .notCompilable (max n entry.occurrences) := by
  simp [apply, rule, Entry.decline, Entry.isCompiled, h]

/-- A failure leaves an entry with an artifact as it is. -/
theorem apply_declines_of_some {artifact : A} (h : entry.artifact? = some artifact) (n : Nat) :
    (declines n).apply entry = entry := by
  simp [apply, rule, Entry.decline, Entry.isCompiled, h]

/-- The artifact that was there first stays. -/
theorem artifact?_apply (h : entry.Sound) : (c.apply entry).artifact? =
    entry.artifact?.or c.artifact? := by
  cases c with
  | adopts artifact n =>
    rw [apply_adopts h]
    cases entry.artifact? <;> rfl
  | declines n =>
    cases hfound : entry.artifact? with
    | none => rw [apply_declines_of_none hfound]; rfl
    | some artifact => rw [apply_declines_of_some hfound, hfound]; rfl

/-- A completion does not make an entry that has both an artifact and a remembered failure. -/
theorem sound_apply (h : entry.Sound) : (c.apply entry).Sound := by
  cases c with
  | adopts artifact n => exact Or.inr (by rw [apply_adopts h]; rfl)
  | declines n =>
    cases hfound : entry.artifact? with
    | none => exact Or.inl (by rw [apply_declines_of_none hfound]; rfl)
    | some artifact => rw [apply_declines_of_some hfound]; exact h

/-- A completion counts if it has an artifact or finds none; otherwise it leaves the entry. -/
theorem apply_eq_or (h : entry.Sound) :
    ((c.artifact?.isSome ∨ entry.artifact? = none) ∧
      (c.apply entry).occurrences = max c.occurrences entry.occurrences) ∨
    (c.artifact? = none ∧ entry.isCompiled = true ∧ c.apply entry = entry) := by
  cases c with
  | adopts artifact n => exact Or.inl ⟨Or.inl rfl, by rw [apply_adopts h]; rfl⟩
  | declines n =>
    cases hfound : entry.artifact? with
    | none => exact Or.inl ⟨Or.inr rfl, by rw [apply_declines_of_none hfound]; rfl⟩
    | some artifact =>
      exact Or.inr ⟨rfl, by rw [Entry.isCompiled, hfound]; rfl, apply_declines_of_some hfound n⟩

/-! ### Any number of completions -/

/-- Nor do any number of them. -/
theorem sound_applyAll (h : entry.Sound) : (applyAll entry cs).Sound := by
  induction cs generalizing entry with
  | nil => exact h
  | cons c cs ih => exact ih (sound_apply h)

/-- The artifact that is left was there first, or is the first that was stored. -/
theorem artifact?_applyAll (h : entry.Sound) :
    (applyAll entry cs).artifact? = entry.artifact?.or (cs.findSome? artifact?) := by
  -- Induction on the completions: the first one decides which artifact the others find.
  induction cs generalizing entry with
  | nil => simp
  | cons c cs ih =>
    rw [applyAll_cons, ih (sound_apply h), artifact?_apply h, Option.or_assoc]
    congr 1
    cases hc : c.artifact? <;> simp [hc]

/-- There is an artifact in the end if there was one or a completion has stored one. -/
theorem isCompiled_applyAll (h : entry.Sound) : (applyAll entry cs).isCompiled =
    (entry.isCompiled || cs.any fun c => c.artifact?.isSome) := by
  rw [Entry.isCompiled, artifact?_applyAll h, Option.isSome_or, List.isSome_findSome?]
  rfl

/-- A failure is remembered where no artifact is left, if there has been one. -/
theorem declined_applyAll (h : entry.Sound) : (applyAll entry cs).declined =
    (!(applyAll entry cs).isCompiled &&
      (entry.declined || cs.any fun c => c.artifact?.isNone)) := by
  induction cs generalizing entry with
  | nil =>
    rcases h with hnone | hdeclined
    · simp [Entry.isCompiled, hnone]
    · simp [hdeclined]
  | cons c cs ih =>
    rw [applyAll_cons, ih (sound_apply h)]
    -- only where no artifact is left it matters what is remembered
    cases hcompiled : (applyAll (c.apply entry) cs).isCompiled with
    | true => rfl
    | false =>
      rw [← applyAll_cons, isCompiled_applyAll h, Bool.or_eq_false_iff] at hcompiled
      obtain ⟨hopen, hnone⟩ := hcompiled
      have hfound : entry.artifact? = none := by simpa [Entry.isCompiled] using hopen
      cases c with
      | adopts artifact n => simp [artifact?] at hnone
      | declines n => simp [apply_declines_of_none hfound, Entry.notCompilable, artifact?]

/-- No completion lowers the count. -/
theorem occurrences_le_applyAll (h : entry.Sound) :
    entry.occurrences ≤ (applyAll entry cs).occurrences := by
  induction cs generalizing entry with
  | nil => exact Nat.le_refl _
  | cons c cs ih =>
    rw [applyAll_cons]
    refine Nat.le_trans ?_ (ih (sound_apply h))
    rcases apply_eq_or (c := c) h with ⟨-, hcount⟩ | ⟨-, -, hkept⟩
    · omega
    · rw [hkept]

/-- What a completion has counted stays counted. -/
theorem le_occurrences_applyAll (h : entry.Sound) {before after : List (Completion A)}
    (hcounts : c.artifact?.isSome ∨ (applyAll entry before).artifact? = none) :
    c.occurrences ≤ (applyAll entry (before ++ c :: after)).occurrences := by
  -- The count is there after the completion, and those that come later do not lower it.
  have hbefore : (applyAll entry before).Sound := sound_applyAll h
  rw [applyAll_append, applyAll_cons]
  refine Nat.le_trans ?_ (occurrences_le_applyAll (sound_apply hbefore))
  rcases apply_eq_or (c := c) hbefore with ⟨-, hcount⟩ | ⟨hnone, hcompiled, -⟩
  · omega
  · -- a failure that finds an artifact does not count
    rcases hcounts with hsome | hopen
    · simp [hnone] at hsome
    · simp [Entry.isCompiled, hopen] at hcompiled

/-- The count that is left is bounded by whatever bounds the one that was there and those of all
    completions. -/
theorem occurrences_applyAll_le (h : entry.Sound) {m : Nat} (hentry : entry.occurrences ≤ m)
    (hcs : ∀ c ∈ cs, c.occurrences ≤ m) : (applyAll entry cs).occurrences ≤ m := by
  induction cs generalizing entry with
  | nil => exact hentry
  | cons c cs ih =>
    obtain ⟨hc, hcs⟩ := List.forall_mem_cons.mp hcs
    rw [applyAll_cons]
    refine ih (sound_apply h) ?_ hcs
    rcases apply_eq_or (c := c) h with ⟨-, hcount⟩ | ⟨-, -, hkept⟩
    · omega
    · rw [hkept]; exact hentry

/-! ### The greatest count -/

/-- The greatest of a count and some others. -/
def greatest (n : Nat) (counts : List Nat) : Nat := (n :: counts).max (List.cons_ne_nil n counts)

/-- The greatest count is bounded by what bounds them all. -/
theorem greatest_le_iff {n m : Nat} {counts : List Nat} :
    greatest n counts ≤ m ↔ n ≤ m ∧ ∀ count ∈ counts, count ≤ m := by
  rw [greatest, List.max_le_iff, List.forall_mem_cons]

/-- The greatest count does not depend on the order of the counts, nor on repetitions. -/
theorem greatest_congr {n : Nat} {counts counts' : List Nat}
    (h : ∀ count, count ∈ counts ↔ count ∈ counts') : greatest n counts = greatest n counts' := by
  have hle : ∀ m, greatest n counts ≤ m ↔ greatest n counts' ≤ m := by
    intro m
    simp only [greatest_le_iff, h]
  exact Nat.le_antisymm ((hle _).mpr (Nat.le_refl _)) ((hle _).mp (Nat.le_refl _))

/-- The counts with which artifacts were stored. -/
def adoptedCounts (cs : List (Completion A)) : List Nat :=
  (cs.filter fun c => c.artifact?.isSome).map occurrences

/-- Whether all completions are alike: all have an artifact, or none has and none was there. -/
def Uniform (entry : Entry A) (cs : List (Completion A)) : Prop :=
  (∀ c ∈ cs, c.artifact?.isSome) ∨ (∀ c ∈ cs, c.artifact? = none) ∧ entry.artifact? = none

/-- The count is between the greatest of those that artifacts were stored with and the greatest of
    all. -/
theorem occurrences_applyAll_between (cs : List (Completion A)) (h : entry.Sound) :
    greatest entry.occurrences (adoptedCounts cs) ≤ (applyAll entry cs).occurrences ∧
      (applyAll entry cs).occurrences ≤ greatest entry.occurrences (cs.map occurrences) := by
  constructor
  · rw [greatest_le_iff]
    refine ⟨occurrences_le_applyAll h, fun count hcount => ?_⟩
    obtain ⟨c, hc, rfl⟩ := List.mem_map.mp hcount
    obtain ⟨hmem, hsome⟩ := List.mem_filter.mp hc
    obtain ⟨before, after, rfl⟩ := List.append_of_mem hmem
    exact le_occurrences_applyAll h (Or.inl hsome)
  · obtain ⟨hentry, hcs⟩ := greatest_le_iff.mp
      (Nat.le_refl (greatest entry.occurrences (cs.map occurrences)))
    exact occurrences_applyAll_le h hentry fun c hc => hcs _ (List.mem_map_of_mem hc)

/-- Where all completions are alike every one of them counts. -/
theorem occurrences_applyAll_of_uniform (h : entry.Sound) (huniform : Uniform entry cs) :
    (applyAll entry cs).occurrences = greatest entry.occurrences (cs.map occurrences) := by
  refine Nat.le_antisymm (occurrences_applyAll_between cs h).2 ?_
  rw [greatest_le_iff]
  refine ⟨occurrences_le_applyAll h, fun count hcount => ?_⟩
  obtain ⟨c, hmem, rfl⟩ := List.mem_map.mp hcount
  obtain ⟨before, after, rfl⟩ := List.append_of_mem hmem
  refine le_occurrences_applyAll h ?_
  rcases huniform with hall | ⟨hnone, hopen⟩
  · exact Or.inl (hall c hmem)
  · -- no completion before this one has stored an artifact
    right
    rw [artifact?_applyAll h, hopen, Option.none_or, List.findSome?_eq_none_iff]
    exact fun c' hc' => hnone c' (List.mem_append_left _ hc')

/-! ### The order of completions -/

/-- The bounds on the count do not depend on the order of completions. -/
theorem greatest_perm {n : Nat} {cs' : List (Completion A)} (hperm : cs'.Perm cs) :
    greatest n (adoptedCounts cs') = greatest n (adoptedCounts cs) ∧
      greatest n (cs'.map occurrences) = greatest n (cs.map occurrences) :=
  ⟨greatest_congr fun _ => ((hperm.filter _).map _).mem_iff,
    greatest_congr fun _ => (hperm.map _).mem_iff⟩

/-- In whatever order the completions come, it is the same whether there is an artifact or a
    remembered failure, and the same count where all completions are alike. -/
theorem applyAll_perm (h : entry.Sound) {cs' : List (Completion A)} (hperm : cs'.Perm cs) :
    (applyAll entry cs').isCompiled = (applyAll entry cs).isCompiled ∧
    (applyAll entry cs').declined = (applyAll entry cs).declined ∧
    (Uniform entry cs → (applyAll entry cs').occurrences = (applyAll entry cs).occurrences) := by
  have hcompiled : (applyAll entry cs').isCompiled = (applyAll entry cs).isCompiled := by
    rw [isCompiled_applyAll h, isCompiled_applyAll h, hperm.any_eq]
  refine ⟨hcompiled, ?_, fun huniform => ?_⟩
  · rw [declined_applyAll h, declined_applyAll h, hcompiled, hperm.any_eq]
  · have huniform' : Uniform entry cs' := by
      simpa only [Uniform, hperm.mem_iff] using huniform
    rw [occurrences_applyAll_of_uniform h huniform, occurrences_applyAll_of_uniform h huniform',
      (greatest_perm hperm).2]

end Completion

/-! ## Requests that have compiled their query -/

/-- The live entry of a key; that of a query of which nothing is known, if there is none. -/
def World.entryAt (w : World L σ) (key : Fingerprint) : Entry L.Artifact :=
  (w.cache.live? w.now key).getD .unseen

namespace Job

/-- How the next step of a request finishes compiling its query, if it does. -/
def completion? (job : Job L σ) : Option (Completion L.Artifact) :=
  match job.phase with
  | .adopting artifact n => some (.adopts artifact n)
  | .declining _ n => some (.declines n)
  | _ => none

/-- The world after requests have taken their next steps, one after the other. -/
def finishAll (jobs : List (Job L σ)) (w : World L σ) : World L σ :=
  jobs.foldl (fun w job => (job.step w).2) w

@[simp] theorem finishAll_nil (w : World L σ) : finishAll [] w = w := rfl

@[simp] theorem finishAll_cons (job : Job L σ) (jobs : List (Job L σ)) (w : World L σ) :
    finishAll (job :: jobs) w = finishAll jobs (job.step w).2 := rfl

variable {job : Job L σ} {c : Completion L.Artifact}

/-- The rule of a request that finishes is that of its completion. -/
theorem rule?_of_completion? (h : job.completion? = some c) : job.rule? = some c.rule := by
  unfold completion? at h
  unfold rule?
  split at h
  next artifact n hphase =>
    cases h
    rw [hphase]
    rfl
  next document n hphase =>
    cases h
    rw [hphase]
    rfl
  next => cases h

/-- The step by which a request finishes changes the entry as the completion does. -/
theorem entryAt_step (h : job.completion? = some c) (w : World L σ) :
    (job.step w).2.entryAt job.key = c.apply (w.entryAt job.key) := by
  have hrule := rule?_of_completion? h
  have hcache := job.step_cache w
  rw [hrule] at hcache
  have hnow : (job.step w).2.now = w.now := step_now _ _ _ hrule w
  rw [World.entryAt, hcache, hnow, key, QueryCache.live?_revise_self]
  show ((c.rule (w.entryAt job.key)).or _).getD .unseen = (c.rule (w.entryAt job.key)).getD _
  cases c.rule (w.entryAt job.key) <;> rfl

/-- Requests for a query that finish one after the other change its entry as their completions
    do. -/
theorem entryAt_finishAll {key : Fingerprint} {jobs : List (Job L σ)}
    (hjobs : ∀ job ∈ jobs, job.key = key ∧ job.completion?.isSome) (w : World L σ) :
    (finishAll jobs w).entryAt key =
      Completion.applyAll (w.entryAt key) (jobs.filterMap completion?) := by
  induction jobs generalizing w with
  | nil => rfl
  | cons job jobs ih =>
    obtain ⟨⟨rfl, hsome⟩, hjobs⟩ := List.forall_mem_cons.mp hjobs
    obtain ⟨c, hc⟩ := Option.isSome_iff_exists.mp hsome
    rw [finishAll_cons, ih hjobs, entryAt_step hc, List.filterMap_cons_some hc,
      Completion.applyAll_cons]

/-- A request that stores an artifact goes on to run the one that is in the entry then. -/
theorem phase_step_of_adopts {fresh : L.Artifact} {n : Nat}
    (h : job.completion? = some (.adopts fresh n)) (w : World L σ) :
    (job.step w).1.phase = .running ((w.entryAt job.key).artifact?.getD fresh) .compiled := by
  have hphase : job.phase = .adopting fresh n := by
    unfold completion? at h
    split at h <;> simp_all
  rw [step, hphase]
  exact job.server.executor.phase_adopting job.server.engine job.request w fresh n

/-- It is the artifact that is left when all requests have finished. -/
theorem exists_running_of_adopts {key : Fingerprint} {w : World L σ}
    (hsound : (w.entryAt key).Sound) {before later : List (Job L σ)}
    (hjobs : ∀ other ∈ before ++ job :: later, other.key = key ∧ other.completion?.isSome)
    {fresh : L.Artifact} {n : Nat} (h : job.completion? = some (.adopts fresh n)) :
    ∃ artifact, ((finishAll (before ++ job :: later) w).entryAt key).artifact? = some artifact ∧
      (job.step (finishAll before w)).1.phase = .running artifact .compiled := by
  obtain ⟨hkey, -⟩ := hjobs job (by simp)
  have hearlier : ∀ other ∈ before, other.key = key ∧ other.completion?.isSome :=
    fun other hother => hjobs other (List.mem_append_left _ hother)
  have hbefore := entryAt_finishAll hearlier w
  refine ⟨_, ?_, phase_step_of_adopts h _⟩
  rw [hkey, hbefore, entryAt_finishAll hjobs, Completion.artifact?_applyAll hsound,
    Completion.artifact?_applyAll hsound, List.filterMap_append, List.filterMap_cons_some h,
    List.findSome?_append]
  -- an artifact that was there, or one stored before this, or else the one of this request
  cases (w.entryAt key).artifact? with
  | some kept => rfl
  | none => cases (before.filterMap completion?).findSome? Completion.artifact? <;> rfl

end Job

/-! ## The order of completions -/

open Completion in
/-- Requests that have compiled a query, with an artifact or without, finish one after the other
    and find an entry that does not have both an artifact and a remembered failure. There is an
    artifact afterwards if and only if there was one or one of them has stored one: the one that was
    there, or else the first that was stored, and all requests that have stored one go on to run
    this one. A failure is remembered only where there is no artifact, and there it is if one of the
    requests has failed. The count is between the greatest of those that artifacts were stored with
    and the greatest of all, and it is the latter where all completions are alike. If the requests
    finish in another order, none of this changes but which artifact is there, and a count that is
    not of the latter kind. -/
theorem completions_converge {w : World L σ} {key : Fingerprint} (hsound : (w.entryAt key).Sound)
    {jobs : List (Job L σ)} (hjobs : ∀ job ∈ jobs, job.key = key ∧ job.completion?.isSome) :
    let entry := w.entryAt key
    let cs := jobs.filterMap Job.completion?
    let left := (Job.finishAll jobs w).entryAt key
    let least := greatest entry.occurrences (adoptedCounts cs)
    let most := greatest entry.occurrences (cs.map occurrences)
    (left.isCompiled = true ↔ entry.isCompiled = true ∨ ∃ c ∈ cs, c.artifact?.isSome) ∧
    left.artifact? = entry.artifact?.or (cs.findSome? artifact?) ∧
    (∀ before job later fresh n, jobs = before ++ job :: later →
      job.completion? = some (.adopts fresh n) → ∃ artifact, left.artifact? = some artifact ∧
        (job.step (Job.finishAll before w)).1.phase = .running artifact .compiled) ∧
    (left.isCompiled = true → left.declined = false) ∧
    (left.isCompiled = false → (∃ c ∈ cs, c.artifact? = none) → left.declined = true) ∧
    least ≤ left.occurrences ∧ left.occurrences ≤ most ∧
    (Uniform entry cs → left.occurrences = most) ∧
    ∀ jobs' : List (Job L σ), jobs'.Perm jobs →
      let left' := (Job.finishAll jobs' w).entryAt key
      left'.isCompiled = left.isCompiled ∧ left'.declined = left.declined ∧
      least ≤ left'.occurrences ∧ left'.occurrences ≤ most ∧
      (Uniform entry cs → left'.occurrences = left.occurrences) := by
  intro entry cs left least most
  -- the steps of the requests come down to the completions of one entry
  have hleft : left = applyAll entry cs := Job.entryAt_finishAll hjobs w
  obtain ⟨hleast, hmost⟩ := occurrences_applyAll_between cs hsound
  refine ⟨?_, ?_, ?_, ?_, ?_, ?_, ?_, ?_, ?_⟩
  · rw [hleft, isCompiled_applyAll hsound, Bool.or_eq_true, List.any_eq_true]
  · rw [hleft, artifact?_applyAll hsound]
  · rintro before job later fresh n rfl hadopts
    exact Job.exists_running_of_adopts hsound hjobs hadopts
  · intro h
    rw [hleft] at h ⊢
    rw [declined_applyAll hsound, h]
    rfl
  · -- a failure among them is remembered, for there is no artifact
    rintro h ⟨c, hc, hnone⟩
    have hany : (cs.any fun c => c.artifact?.isNone) = true :=
      List.any_eq_true.mpr ⟨c, hc, by rw [hnone]; rfl⟩
    rw [hleft] at h ⊢
    rw [declined_applyAll hsound, h, hany]
    simp
  · rw [hleft]; exact hleast
  · rw [hleft]; exact hmost
  · intro huniform
    rw [hleft]
    exact occurrences_applyAll_of_uniform hsound huniform
  · -- another order leaves the same completions
    intro jobs' hperm left'
    have hcs : (jobs'.filterMap Job.completion?).Perm cs := hperm.filterMap _
    have hleft' : left' = applyAll entry (jobs'.filterMap Job.completion?) :=
      Job.entryAt_finishAll (fun job hjob => hjobs job (hperm.mem_iff.mp hjob)) w
    obtain ⟨hcompiled, hdeclined, hcount⟩ := applyAll_perm hsound hcs
    -- the bounds are those of the same completions
    obtain ⟨hge, hle⟩ := occurrences_applyAll_between (jobs'.filterMap Job.completion?) hsound
    rw [(greatest_perm hcs).1] at hge
    rw [(greatest_perm hcs).2] at hle
    rw [hleft, hleft']
    exact ⟨hcompiled, hdeclined, hge, hle, hcount⟩

/-- Three requests have compiled one query: the second has failed, the others have an artifact. -/
def echoFinishers : List (Job echoLanguage Unit) := [
  ⟨echoServer 0 { onDecline := .remember }, echoRequest "a", .declining "a" 5, []⟩,
  ⟨echoServer 1 {}, echoRequest "a", .adopting "first" 1, []⟩,
  ⟨echoServer 2 {}, echoRequest "a", .adopting "second" 3, []⟩]

/-- The first of two artifacts stays, and the greater count of a failure before it. -/
theorem completions_converge_echoFinishers :
    let key := Fingerprint.ofText (echoRequest "a").query
    let left := (Job.finishAll echoFinishers (echoWorld 1)).entryAt key
    left.artifact? = some "first" ∧ left.declined = false ∧ 3 ≤ left.occurrences ∧
      left.occurrences ≤ 5 ∧
      ((Job.finishAll echoFinishers.reverse (echoWorld 1)).entryAt key).declined =
        left.declined := by
  intro key left
  have hentry : (echoWorld 1).entryAt key = .unseen := rfl
  have hsound : ((echoWorld 1).entryAt key).Sound := Or.inl (by rw [hentry]; rfl)
  have hjobs : ∀ job ∈ echoFinishers, job.key = key ∧ job.completion?.isSome := by
    simp [echoFinishers, Job.key, Job.completion?, key]
  obtain ⟨hcompiled, hartifact, -, hdeclined, -, hleast, hmost, -, horder⟩ :=
    completions_converge hsound hjobs
  rw [hentry] at hartifact hleast hmost
  have hfirst : left.artifact? = some "first" := hartifact
  refine ⟨hfirst, hdeclined (by rw [Entry.isCompiled, hfirst]; rfl), hleast, hmost, ?_⟩
  exact (horder _ (List.reverse_perm _)).2.1

end TieredQuery
