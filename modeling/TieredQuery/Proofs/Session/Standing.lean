import TieredQuery.Proofs.Dispatch.Undisturbed

/-!
# The history of a query

The history of a query text lists the calls that were made at each of its valid occurrences. As
long as its entry is neither pushed out nor changed by anyone but the requests for it, the entry is
a function of the history: `Standing` says which entry a history leads to, and every episode of the
query keeps it.

## Key results

- `compiles_of_episode`, `episode_of_artifact?`, `episode_of_compiles`, `episode_of_compiled`: the
  calls made in an episode, and the entry left
- `standing_concat`: one more valid occurrence
- `due_of_standing`: when a query is to be compiled
-/

namespace TieredQuery

variable {L : Language}

/-! ## What calls say of a query -/

namespace Call

/-- Whether the query was found valid. -/
def passes (calls : List (Call L)) : Bool :=
  calls.any fun
    | validate _ _ (.ok []) => true
    | _ => false

/-- Whether the compiler was called. -/
def compiles (calls : List (Call L)) : Bool := calls.any fun call => call.kind = .compile

/-- Whether the compiler found that there is no artifact. -/
def declines (calls : List (Call L)) : Bool :=
  calls.any fun
    | compile _ _ _ (.ok (.declined _)) => true
    | _ => false

/-- The artifact that was compiled, if any. -/
def artifact? (calls : List (Call L)) : Option L.Artifact :=
  calls.findSome? fun
    | compile _ _ _ (.ok (.artifact artifact)) => some artifact
    | _ => none

end Call

/-- The valid occurrence of a query from which on it is compiled. -/
def Tiering.due (tiering : Tiering) : Nat := max tiering.threshold.toNat 1

/-! ## The entry that a history leads to -/

/-- The entry of a query text with a history. -/
inductive Standing (tiering : Tiering) : List (List (Call L)) → Entry L.Artifact → Prop where
  /-- Neither compiled nor remembered as a failure: the count stops before the occurrence at which
      the query is due to be compiled. -/
  | counting {history : List (List (Call L))}
      (hartifacts : ∀ calls ∈ history, Call.artifact? calls = none)
      (hdeclines : tiering.remembers = true → ∀ calls ∈ history, Call.declines calls = false) :
      Standing tiering history (.seen (min history.length (tiering.due - 1)))
  /-- Remembered as a failure: every occurrence since is counted. -/
  | declined {earlier later : List (List (Call L))} {calls : List (Call L)}
      (hartifacts : ∀ calls' ∈ earlier ++ calls :: later, Call.artifact? calls' = none)
      (hremembers : tiering.remembers = true) (hdeclines : Call.declines calls = true)
      (hothers : ∀ calls' ∈ earlier ++ later, Call.declines calls' = false) :
      Standing tiering (earlier ++ calls :: later) (.notCompilable (tiering.due + later.length))
  | compiled {history : List (List (Call L))} {artifact : L.Artifact}
      (hartifacts : history.filterMap Call.artifact? = [artifact]) :
      Standing tiering history (.compiled tiering.due artifact)

/-- A query that has not occurred yet has the entry of one of which nothing is known. -/
theorem standing_nil (tiering : Tiering) : Standing (L := L) tiering [] .unseen := by
  have hcounting : Standing (L := L) tiering [] (.seen (min 0 (tiering.due - 1))) :=
    .counting (fun _ => nofun) fun _ _ => nofun
  rwa [Nat.zero_min] at hcounting

/-! ### What the calls of an episode say -/

section Calls

variable (executor : Executor L) (request : Request L) (document : L.Document)

/-- What was parsed and found valid has passed, whatever was called after that. -/
theorem passes_checks (calls : List (Call L)) :
    Call.passes (Phase.checks executor request document ++ calls) = true := rfl

/-- Parsing and validation give no artifact. -/
theorem artifact?_checks (calls : List (Call L)) :
    Call.artifact? (Phase.checks executor request document ++ calls) = Call.artifact? calls := rfl

theorem declines_checks (calls : List (Call L)) :
    Call.declines (Phase.checks executor request document ++ calls) = Call.declines calls := rfl

theorem compiles_checks (calls : List (Call L)) :
    Call.compiles (Phase.checks executor request document ++ calls) = Call.compiles calls := rfl

end Calls

/-! A failure to compile, other than word that there is no artifact, leaves no trace. -/

/-- A compiler that fails gives no artifact. -/
theorem artifact?_of_failed {outcome : Outcome Diagnostic (Compilation L.Artifact)}
    (hfails : ∀ result, outcome ≠ .ok result) (schema : L.Schema) (document : L.Document)
    (operationName : Option String) :
    Call.artifact? [.compile schema document operationName outcome] = none := by
  cases outcome with
  | ok result => exact absurd rfl (hfails result)
  | error _ | panic _ => rfl

/-- Nor does it say that there is none. -/
theorem declines_of_failed {outcome : Outcome Diagnostic (Compilation L.Artifact)}
    (hfails : ∀ result, outcome ≠ .ok result) (schema : L.Schema) (document : L.Document)
    (operationName : Option String) :
    Call.declines [.compile schema document operationName outcome] = false := by
  cases outcome with
  | ok result => exact absurd rfl (hfails result)
  | error _ | panic _ => rfl

/-- What was not found valid has not passed. -/
theorem passes_of_invalid {outcome : Outcome Empty (List Diagnostic)} (hfails : outcome ≠ .ok [])
    (source : String) (parsed : Outcome Diagnostic L.Document) (schema : L.Schema)
    (document : L.Document) :
    Call.passes [.parse source parsed, .validate schema document outcome] = false := by
  cases outcome with
  | ok errors =>
    cases errors with
    | nil => exact absurd rfl hfails
    | cons error errors => rfl
  | error impossible => exact nomatch impossible
  | panic payload => rfl

section Episodes

variable {executor : Executor L} {request : Request L} {entry left : Entry L.Artifact}
  {calls : List (Call L)}

/-- The threshold is reached by an occurrence if and only if the query is due at it. -/
theorem due_le_succ_iff (tiering : Tiering) (n : Nat) :
    tiering.due ≤ n + 1 ↔ tiering.threshold.toNat ≤ n + 1 := by
  unfold Tiering.due
  omega

/-- A query without an artifact is compiled at every valid occurrence from the one on at which it
    is due, unless a remembered failure is heeded. -/
theorem compiles_of_episode (h : Episode executor request entry calls left)
    (hnone : entry.artifact? = none) :
    Call.compiles calls = true ↔ Call.passes calls = true ∧
      (executor.tiering.remembers && entry.declined) = false ∧
      executor.tiering.due ≤ entry.occurrences + 1 := by
  rw [due_le_succ_iff]
  -- Case split on the course of the request: only a query that is promoted is compiled.
  cases h with
  | hit hartifact outcome =>
    rw [hartifact] at hnone
    cases hnone
  | unparsed _ outcome _ => simp [Call.compiles, Call.kind, Call.passes]
  | invalid _ document outcome hfails =>
    rw [passes_of_invalid hfails]
    simp [Call.compiles, Call.kind]
  | heeded _ hheeds document outcome =>
    rw [compiles_checks, hheeds]
    simp [Call.compiles, Call.kind, Executor.interprets]
  | counted _ hopen hbelow document outcome =>
    rw [compiles_checks, hopen]
    simp [Call.compiles, Call.kind, Executor.interprets, hbelow]
  | promoted _ hopen hdue document hpromotion =>
    rw [compiles_checks, passes_checks]
    simp only [hopen, hdue, and_self, iff_true]
    cases hpromotion <;> rfl

/-- An artifact is stored with the number of its occurrence as soon as it is compiled, and is run
    at once. -/
theorem episode_of_artifact? (h : Episode executor request entry calls left)
    {artifact : L.Artifact}
    (hartifact : Call.artifact? calls = some artifact) :
    left = .compiled (entry.occurrences + 1) artifact ∧ ∃ document outcome,
      calls = Phase.checks executor request document ++
        [Phase.compilation executor request document (.artifact artifact),
          Executor.runs request artifact outcome] := by
  -- only the compiler gives an artifact, and then that is stored and run
  cases h with
  | promoted _ _ _ document hpromotion =>
    rw [artifact?_checks] at hartifact
    cases hpromotion with
    | failed outcome hfails =>
      rw [artifact?_of_failed hfails] at hartifact
      cases hartifact
    | compiled artifact' outcome =>
      cases hartifact
      exact ⟨rfl, document, outcome, rfl⟩
    | remembered _ reason outcome | retried _ reason outcome => cases hartifact
  | _ => cases hartifact

/-- A failure to compile leaves the entry as it is, unless it is remembered. -/
theorem episode_of_compiles (h : Episode executor request entry calls left)
    (hcompiles : Call.compiles calls = true) (hartifact : Call.artifact? calls = none) :
    if executor.tiering.remembers && Call.declines calls then
      left = .notCompilable (entry.occurrences + 1) else left = entry := by
  -- a request that was not promoted has not called the compiler
  cases h with
  | promoted _ _ _ document hpromotion =>
    rw [artifact?_checks] at hartifact
    rw [declines_checks]
    cases hpromotion with
    | failed outcome hfails =>
      rw [declines_of_failed hfails, Bool.and_false, if_neg Bool.false_ne_true]
    | compiled artifact' outcome => cases hartifact
    | remembered hremembers reason outcome =>
      rw [hremembers]
      rfl
    | retried hremembers reason outcome =>
      rw [hremembers]
      rfl
  | _ => cases hcompiles

/-- A compiled query is run and left as it is. -/
theorem episode_of_compiled {occurrences : Nat} {artifact : L.Artifact}
    (h : Episode executor request (.compiled occurrences artifact) calls left) :
    ∃ outcome, calls = [Executor.runs request artifact outcome] ∧
      left = .compiled occurrences artifact := by
  cases h with
  | hit hartifact outcome =>
    cases hartifact
    exact ⟨outcome, rfl, rfl⟩
  | unparsed hnone _ _ | invalid hnone _ _ _ | heeded hnone _ _ _ | counted hnone _ _ _ _
  | promoted hnone _ _ _ _ => cases hnone

/-- Only a valid occurrence changes the entry. -/
theorem left_of_not_passes (h : Episode executor request entry calls left)
    (hpasses : Call.passes calls = false) : left = entry := by
  cases h with
  | hit _ _ | unparsed _ _ _ | invalid _ _ _ _ => rfl
  | heeded _ _ _ _ | counted _ _ _ _ _ | promoted _ _ _ _ _ =>
    rw [passes_checks] at hpasses
    cases hpasses

/-! ### One more valid occurrence -/

/-- A valid occurrence of a query that is still counted. -/
theorem standing_concat_of_counting {history : List (List (Call L))}
    (hartifacts : ∀ calls ∈ history, Call.artifact? calls = none)
    (hdeclines : executor.tiering.remembers = true →
      ∀ calls ∈ history, Call.declines calls = false)
    (h : Episode executor request (.seen (min history.length (executor.tiering.due - 1))) calls
      left)
    (hpasses : Call.passes calls = true) :
    Standing executor.tiering (history ++ [calls]) left := by
  -- an occurrence that gives neither an artifact nor word that there is none leaves the count
  -- below the one at which the query is due
  have hcounting : Call.artifact? calls = none →
      (executor.tiering.remembers = true → Call.declines calls = false) →
      Standing executor.tiering (history ++ [calls])
        (.seen (min (history ++ [calls]).length (executor.tiering.due - 1))) :=
    fun hartifact hdecline => .counting
      (List.forall_mem_append.mpr ⟨hartifacts, List.forall_mem_singleton.mpr hartifact⟩)
      fun hremembers => List.forall_mem_append.mpr
        ⟨hdeclines hremembers, List.forall_mem_singleton.mpr (hdecline hremembers)⟩
  rw [List.length_append, List.length_singleton] at hcounting
  cases h with
  | hit _ _ | unparsed _ _ _ => cases hpasses
  | invalid _ document outcome hfails =>
    rw [passes_of_invalid hfails] at hpasses
    cases hpasses
  | heeded _ hheeds _ _ =>
    -- no failure is remembered yet
    simp [Entry.seen] at hheeds
  | counted _ _ hbelow document outcome =>
    -- below the threshold every occurrence has been counted
    have hcount : min history.length (executor.tiering.due - 1) + 1 =
        min (history.length + 1) (executor.tiering.due - 1) := by
      simp only [Entry.seen, Tiering.due] at hbelow ⊢
      omega
    have hnext := hcounting rfl fun _ => rfl
    rw [← hcount] at hnext
    exact hnext
  | promoted _ _ hdue document hpromotion =>
    -- the count has stopped just before the occurrence at which the query is due
    have hcount : min history.length (executor.tiering.due - 1) + 1 = executor.tiering.due ∧
        min (history.length + 1) (executor.tiering.due - 1) =
          min history.length (executor.tiering.due - 1) := by
      simp only [Entry.seen, Tiering.due] at hdue ⊢
      omega
    rw [hcount.2] at hcounting
    simp only [Entry.seen, hcount.1] at hpromotion
    cases hpromotion with
    | failed outcome hfails =>
      refine hcounting ?_ fun _ => ?_
      · rw [artifact?_checks, artifact?_of_failed hfails]
      · rw [declines_checks, declines_of_failed hfails]
    | compiled artifact outcome =>
      refine .compiled ?_
      rw [List.filterMap_append, List.filterMap_eq_nil_iff.mpr hartifacts]
      rfl
    | remembered hremembers reason outcome =>
      have hothers : ∀ calls ∈ history ++ [], Call.declines calls = false := by
        rw [List.append_nil]
        exact hdeclines hremembers
      have hall : ∀ calls ∈ history ++ [Phase.checks executor request document ++
          [Phase.compilation executor request document (.declined reason),
            executor.interprets request document outcome]], Call.artifact? calls = none :=
        List.forall_mem_append.mpr ⟨hartifacts, List.forall_mem_singleton.mpr rfl⟩
      exact .declined hall hremembers rfl hothers
    | retried hremembers reason outcome =>
      refine hcounting rfl fun hremembers' => ?_
      rw [hremembers] at hremembers'
      cases hremembers'

/-- A valid occurrence of a query whose failure to be compiled is remembered. -/
theorem standing_concat_of_declined {earlier later : List (List (Call L))}
    {declining : List (Call L)}
    (hartifacts : ∀ calls ∈ earlier ++ declining :: later, Call.artifact? calls = none)
    (hremembers : executor.tiering.remembers = true) (hdeclines : Call.declines declining = true)
    (hothers : ∀ calls ∈ earlier ++ later, Call.declines calls = false)
    (h : Episode executor request (.notCompilable (executor.tiering.due + later.length)) calls
      left)
    (hpasses : Call.passes calls = true) :
    Standing executor.tiering (earlier ++ declining :: later ++ [calls]) left := by
  cases h with
  | hit _ _ | unparsed _ _ _ => cases hpasses
  | invalid _ document outcome hfails =>
    rw [passes_of_invalid hfails] at hpasses
    cases hpasses
  | heeded _ _ document outcome =>
    -- the occurrence is one of those since the failure
    have hnext : Standing executor.tiering (earlier ++ declining :: (later ++
        [Phase.checks executor request document ++ [executor.interprets request document outcome]]))
        (.notCompilable (executor.tiering.due + (later ++ [Phase.checks executor request document ++
          [executor.interprets request document outcome]]).length)) := by
      refine .declined ?_ hremembers hdeclines ?_
      · rw [← List.cons_append, ← List.append_assoc]
        exact List.forall_mem_append.mpr ⟨hartifacts, List.forall_mem_singleton.mpr rfl⟩
      · rw [← List.append_assoc]
        exact List.forall_mem_append.mpr ⟨hothers, List.forall_mem_singleton.mpr rfl⟩
    rw [List.length_append, List.length_singleton, ← List.cons_append, ← List.append_assoc] at hnext
    exact hnext
  | counted _ hopen _ _ _ | promoted _ hopen _ _ _ =>
    -- the failure is remembered, so the occurrence is not counted anew
    rw [hremembers] at hopen
    cases hopen

/-- A valid occurrence is added to the history. -/
theorem standing_concat {history : List (List (Call L))}
    (hstanding : Standing executor.tiering history entry)
    (h : Episode executor request entry calls left) (hpasses : Call.passes calls = true) :
    Standing executor.tiering (history ++ [calls]) left := by
  cases hstanding with
  | counting hartifacts hdeclines =>
    exact standing_concat_of_counting hartifacts hdeclines h hpasses
  | declined hartifacts hremembers hdeclines hothers =>
    exact standing_concat_of_declined hartifacts hremembers hdeclines hothers h hpasses
  | compiled hartifacts =>
    -- a compiled query is not validated again
    obtain ⟨outcome, rfl, -⟩ := episode_of_compiled h
    cases hpasses

end Episodes

/-! ### What a standing says -/

section Standings

variable {tiering : Tiering} {history : List (List (Call L))} {entry : Entry L.Artifact}

/-- A history without artifacts is not that of a compiled query. -/
theorem filterMap_artifact?_ne (hartifacts : ∀ calls ∈ history, Call.artifact? calls = none)
    (artifact : L.Artifact) : history.filterMap Call.artifact? ≠ [artifact] := by
  rw [List.filterMap_eq_nil_iff.mpr hartifacts]
  exact (List.cons_ne_nil _ _).symm

/-- A history in which the compiler found that there is no artifact. -/
theorem not_forall_declines {earlier later : List (List (Call L))} {declining : List (Call L)}
    (hdeclines : Call.declines declining = true) :
    ¬∀ calls ∈ earlier ++ declining :: later, Call.declines calls = false := by
  intro hnone
  have hfalse := hnone declining (List.mem_append_right _ List.mem_cons_self)
  rw [hdeclines] at hfalse
  cases hfalse

/-- A history without artifacts leads to an entry without one. -/
theorem artifact?_of_standing (h : Standing tiering history entry)
    (hartifacts : ∀ calls ∈ history, Call.artifact? calls = none) : entry.artifact? = none := by
  cases h with
  | counting _ _ | declined _ _ _ _ => rfl
  | compiled hcompiled => exact absurd hcompiled (filterMap_artifact?_ne hartifacts _)

/-- A history without artifacts and without failures that are remembered is counted, as far as the
    occurrence before the one that is due. -/
theorem entry_of_counting (h : Standing tiering history entry)
    (hartifacts : ∀ calls ∈ history, Call.artifact? calls = none)
    (hdeclines : tiering.remembers = true → ∀ calls ∈ history, Call.declines calls = false) :
    entry = .seen (min history.length (tiering.due - 1)) := by
  cases h with
  | counting _ _ => rfl
  | declined _ hremembers hdeclined _ =>
    exact absurd (hdeclines hremembers) (not_forall_declines hdeclined)
  | compiled hcompiled => exact absurd hcompiled (filterMap_artifact?_ne hartifacts _)

/-- A history with a remembered failure leads to its count: that of the occurrence that was due, and
    one for every valid occurrence since. -/
theorem entry_of_declined {earlier later : List (List (Call L))} {declining : List (Call L)}
    (h : Standing tiering (earlier ++ declining :: later) entry)
    (hartifacts : ∀ calls ∈ earlier ++ declining :: later, Call.artifact? calls = none)
    (hremembers : tiering.remembers = true) (hdeclines : Call.declines declining = true) :
    entry = .notCompilable (tiering.due + later.length) := by
  -- the standing splits the history at an occurrence of its own
  generalize hhistory : earlier ++ declining :: later = history at h hartifacts
  cases h with
  | counting _ hnone =>
    subst hhistory
    exact absurd (hnone hremembers) (not_forall_declines hdeclines)
  | @declined earlier' later' declining' _ _ _ hothers =>
    -- the two are the same occurrence, for no other finds that there is no artifact
    have hother : ∀ calls ∈ earlier' ++ later', calls ≠ declining := by
      rintro calls hmem rfl
      rw [hothers calls hmem] at hdeclines
      cases hdeclines
    rcases List.append_eq_append_iff.mp hhistory with ⟨middle, rfl, heq⟩ | ⟨middle, rfl, heq⟩
    · cases middle with
      | nil =>
        cases heq
        rfl
      | cons first middle =>
        cases heq
        exact absurd rfl (hother declining (by simp))
    · cases middle with
      | nil =>
        cases heq
        rfl
      | cons first middle =>
        cases heq
        exact absurd rfl (hother declining (by simp))
  | compiled hcompiled => exact absurd hcompiled (filterMap_artifact?_ne hartifacts _)

/-- A history with an artifact leads to the entry that holds it. -/
theorem entry_of_compiled (h : Standing tiering history entry) {calls : List (Call L)}
    (hmem : calls ∈ history) {artifact : L.Artifact}
    (hartifact : Call.artifact? calls = some artifact) :
    entry = .compiled tiering.due artifact := by
  cases h with
  | counting hartifacts _ | declined hartifacts _ _ _ =>
    rw [hartifacts calls hmem] at hartifact
    cases hartifact
  | compiled hcompiled =>
    -- there is one artifact in the history, so it is that of the entry
    have hfound := List.mem_filterMap.mpr ⟨calls, hmem, hartifact⟩
    rw [hcompiled, List.mem_singleton] at hfound
    rw [hfound]

/-- A query without an artifact is due from one of its valid occurrences on, until a failure to
    compile it is remembered. -/
theorem due_of_standing (h : Standing tiering history entry)
    (hartifacts : ∀ calls ∈ history, Call.artifact? calls = none) :
    (tiering.remembers && entry.declined) = false ∧ tiering.due ≤ entry.occurrences + 1 ↔
      tiering.due ≤ history.length + 1 ∧
        (tiering.remembers = true → ∀ calls ∈ history, Call.declines calls = false) := by
  cases h with
  | counting _ hdeclines =>
    -- the count stops before the occurrence that is due, which this does not change
    have hmin : tiering.due ≤ min history.length (tiering.due - 1) + 1 ↔
        tiering.due ≤ history.length + 1 := by omega
    simp only [Entry.seen, Bool.and_false, true_and, hmin]
    exact ⟨fun hdue => ⟨hdue, hdeclines⟩, fun hdue => hdue.1⟩
  | declined _ hremembers hdeclines _ =>
    constructor
    · rintro ⟨hopen, -⟩
      rw [hremembers] at hopen
      cases hopen
    · rintro ⟨-, hnone⟩
      exact absurd (hnone hremembers) (not_forall_declines hdeclines)
  | compiled hcompiled => exact absurd hcompiled (filterMap_artifact?_ne hartifacts _)

/-- Whenever the query is compiled, the occurrences counted are one less than is due. -/
theorem entry_of_compiles {executor : Executor L} {request : Request L} {calls : List (Call L)}
    {left : Entry L.Artifact} (h : Standing executor.tiering history entry)
    (hartifacts : ∀ calls ∈ history, Call.artifact? calls = none)
    (hepisode : Episode executor request entry calls left)
    (hcompiles : Call.compiles calls = true) : entry = .seen (executor.tiering.due - 1) := by
  have hnone := artifact?_of_standing h hartifacts
  obtain ⟨-, hdue⟩ := (compiles_of_episode hepisode hnone).mp hcompiles
  obtain ⟨hlength, hdeclines⟩ := (due_of_standing h hartifacts).mp hdue
  rw [entry_of_counting h hartifacts hdeclines, Nat.min_eq_right (by omega)]

end Standings

end TieredQuery
