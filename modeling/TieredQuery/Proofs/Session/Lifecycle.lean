import Mathlib.Data.Finset.Image
import TieredQuery.Proofs.Dispatch.PureEngine
import TieredQuery.Proofs.Session.Standing

/-!
# The life of a query

One executor answers requests one after the other, from an empty cache in which nothing expires.
If a query text comes back before as many other texts as fit into the cache have been asked for,
its entry is never pushed out: requests for other texts only make it older
(`lasts_execute_of_ne`), and requests for the text itself are episodes of its entry. So what is
known of it follows from its history.

## Key results

- `standing_serve`: the entry of a text after any requests
- `execute_follows_lifecycle`: what is known of a query when it is asked for, and which calls are
  made for it
-/

namespace TieredQuery

variable {L : Language} {σ : Type}

/-! ## Sessions -/

namespace Executor

/-- Answers requests one after the other. -/
def serve (executor : Executor L) (engine : Engine L σ) :
    List (Request L) → World L σ → World L σ
  | [], w => w
  | request :: requests, w =>
    executor.serve engine requests (executor.execute engine request w).2

/-- The calls made at each valid occurrence of a query text, while requests are answered. -/
def validOccurrences (executor : Executor L) (engine : Engine L σ) (text : String) :
    List (Request L) → World L σ → List (List (Call L))
  | [], _ => []
  | request :: requests, w =>
    let calls := executor.calls engine request .arrived w
    let later := executor.validOccurrences engine text requests
      (executor.execute engine request w).2
    if request.query = text ∧ Call.passes calls = true then calls :: later else later

/-- The last request is answered in the world that the others have left. -/
theorem serve_concat (executor : Executor L) (engine : Engine L σ) (requests : List (Request L))
    (request : Request L) (w : World L σ) :
    executor.serve engine (requests ++ [request]) w =
      (executor.execute engine request (executor.serve engine requests w)).2 := by
  induction requests generalizing w with
  | nil => rfl
  | cons first requests ih => exact ih _

/-- The last request adds its calls to the history if it is a valid occurrence of the text. -/
theorem validOccurrences_concat (executor : Executor L) (engine : Engine L σ) (text : String)
    (requests : List (Request L)) (request : Request L) (w : World L σ) :
    executor.validOccurrences engine text (requests ++ [request]) w =
      executor.validOccurrences engine text requests w ++
        (let calls := executor.calls engine request .arrived (executor.serve engine requests w)
        if request.query = text ∧ Call.passes calls = true then [calls] else []) := by
  induction requests generalizing w with
  | nil => rfl
  | cons first requests ih =>
    rw [List.cons_append, validOccurrences, validOccurrences, serve, ih]
    dsimp only
    split
    · rw [List.cons_append]
    · rfl

/-- Requests do not change the capacity of the cache. -/
theorem capacity_serve (executor : Executor L) {engine : Engine L σ} (hquiet : engine.Quiet)
    (requests : List (Request L)) (w : World L σ) :
    (executor.serve engine requests w).cache.capacity = w.cache.capacity := by
  induction requests generalizing w with
  | nil => rfl
  | cons request requests ih =>
    rw [serve, ih]
    exact executor.capacity_finish hquiet request .arrived w

/-- Requests do not change the lifetime of entries. -/
theorem lifetime_serve (executor : Executor L) {engine : Engine L σ} (hquiet : engine.Quiet)
    (requests : List (Request L)) (w : World L σ) :
    (executor.serve engine requests w).cache.lifetime = w.cache.lifetime := by
  induction requests generalizing w with
  | nil => rfl
  | cons request requests ih =>
    rw [serve, ih]
    exact executor.lifetime_finish hquiet request .arrived w

end Executor

/-! ## Texts that come back in time -/

/-- Whenever a text comes back, fewer other texts than a number have come in between. -/
def Recurs (capacity : Nat) (text : String) (texts : List String) : Prop :=
  ∀ before between after, texts = before ++ text :: between ++ text :: after →
    text ∉ between → between.toFinset.card < capacity

/-- A text that comes back in time has done so all along. -/
theorem recurs_of_append {capacity : Nat} {text : String} {texts texts' : List String}
    (h : Recurs capacity text (texts ++ texts')) : Recurs capacity text texts := by
  intro before between after htexts hbetween
  exact h before between (after ++ texts') (by rw [htexts]; simp) hbetween

/-- What is known of a text after some texts were asked for: it has no slot yet, or its entry lasts
    as long as the others asked for since it was asked for itself do not fill the cache. -/
def Lasts (cache : QueryCache L.Artifact) (text : String) (texts : List String)
    (entry : Entry L.Artifact) : Prop :=
  (cache.slot? (.ofText text) = none ∧ entry = .unseen) ∨
    ∃ before between, texts = before ++ text :: between ∧ text ∉ between ∧
      (between.toFinset.card < cache.capacity →
        cache.Retains text entry (between.toFinset.image Fingerprint.ofText))

/-- A text that comes back in time finds its entry. -/
theorem retains_of_lasts {cache : QueryCache L.Artifact} {text : String} {texts : List String}
    {entry : Entry L.Artifact} (h : Lasts cache text texts entry)
    (hrecurs : Recurs cache.capacity text (texts ++ [text])) :
    ∃ recent, cache.Retains text entry recent := by
  rcases h with habsent | ⟨before, between, rfl, hbetween, hretains⟩
  · exact ⟨∅, Or.inl habsent⟩
  · exact ⟨_, hretains (hrecurs before between [] rfl hbetween)⟩

/-- A request for another text can only make the entry older. -/
theorem lasts_execute_of_ne (executor : Executor L) {engine : Engine L σ}
    (hquiet : engine.Quiet) {request : Request L} {w : World L σ} {text : String}
    {texts : List String} {entry : Entry L.Artifact}
    (hne : Fingerprint.ofText text ≠ .ofText request.query)
    (h : Lasts w.cache text texts entry) :
    Lasts (executor.execute engine request w).2.cache text (texts ++ [request.query]) entry := by
  rcases h with ⟨habsent, rfl⟩ | ⟨before, between, rfl, hbetween, hretains⟩
  · left
    -- a key without a slot is not stored by a request for another one
    refine ⟨?_, rfl⟩
    refine executor.finish_cache_of_revise hquiet request
      (P := fun cache => cache.slot? (.ofText text) = none) ?_ .arrived w habsent
    intro cache now rule hslot
    rcases QueryCache.slot?_revise_of_ne hne cache now rule with hkept | hgone
    · rw [hkept, hslot]
    · exact hgone
  · right
    refine ⟨before, between ++ [request.query], by simp, ?_, fun hcard => ?_⟩
    · rw [List.mem_append, List.mem_singleton, not_or]
      exact ⟨hbetween, fun heq => hne (heq ▸ rfl)⟩
    rw [Executor.execute, executor.capacity_finish hquiet] at hcard
    -- the request adds its own text to those since the last occurrence
    have hunion : (between ++ [request.query]).toFinset =
        between.toFinset ∪ {request.query} := by simp
    have himage : (between ++ [request.query]).toFinset.image Fingerprint.ofText =
        between.toFinset.image Fingerprint.ofText ∪ {.ofText request.query} := by
      rw [hunion, Finset.image_union, Finset.image_singleton]
    have hless : between.toFinset.card < w.cache.capacity :=
      Nat.lt_of_le_of_lt (Finset.card_le_card (hunion ▸ Finset.subset_union_left)) hcard
    -- there are no more keys than texts
    have hroom : (between.toFinset.image Fingerprint.ofText ∪
        {Fingerprint.ofText request.query}).card < w.cache.capacity :=
      himage ▸ Nat.lt_of_le_of_lt Finset.card_image_le hcard
    rw [himage]
    exact executor.retains_finish_of_ne hquiet request .arrived hne (hretains hless) hroom

/-- A request for the text itself makes its entry the youngest. -/
theorem lasts_execute_self {executor : Executor L} {engine : Engine L σ} {request : Request L}
    {w : World L σ} {left : Entry L.Artifact} (texts : List String)
    (h : (executor.execute engine request w).2.Knows request.query left) :
    Lasts (executor.execute engine request w).2.cache request.query (texts ++ [request.query])
      left :=
  Or.inr ⟨texts, [], rfl, List.not_mem_nil, fun _ => h.retains⟩

/-! ## What is known of a text during a session -/

section Sessions

variable (executor : Executor L) {engine : Engine L σ} {w : World L σ} {text : String}

/-- After any requests the entry of a text is the one that its history leads to. -/
theorem standing_serve (hquiet : engine.Quiet) (hempty : w.cache.slots = [])
    (hlifetime : w.cache.lifetime = none) {requests : List (Request L)}
    (hdistinct : ∀ request ∈ requests,
      Fingerprint.ofText request.query = .ofText text → request.query = text)
    (hrecurs : Recurs w.cache.capacity text (requests.map Request.query)) :
    ∃ entry, Standing executor.tiering (executor.validOccurrences engine text requests w) entry ∧
      Lasts (executor.serve engine requests w).cache text (requests.map Request.query) entry := by
  -- Induction on the requests, with the last one taken off: it finds what the others have left.
  induction requests using List.reverseRecOn with
  | nil =>
    refine ⟨.unseen, standing_nil executor.tiering, Or.inl ⟨?_, rfl⟩⟩
    rw [Executor.serve, RecencyMap.slot?, hempty]
    rfl
  | append_singleton requests request ih =>
    rw [List.map_append, List.map_singleton] at hrecurs ⊢
    obtain ⟨entry, hstanding, hlasts⟩ := ih
      (fun other hmem => hdistinct other (List.mem_append_left _ hmem)) (recurs_of_append hrecurs)
    rw [executor.serve_concat, executor.validOccurrences_concat]
    by_cases hown : request.query = text
    · subst hown
      -- the text has come back in time, so the request is an episode of the entry it has left
      rw [← executor.capacity_serve hquiet requests w] at hrecurs
      obtain ⟨recent, hretains⟩ := retains_of_lasts hlasts hrecurs
      obtain ⟨left, hepisode, hknows⟩ := executor.exists_episode hquiet
        ((executor.lifetime_serve hquiet requests w).trans hlifetime) hretains
      refine ⟨left, ?_, lasts_execute_self _ hknows⟩
      simp only [true_and]
      split
      next hpasses => exact standing_concat hstanding hepisode hpasses
      next hpasses =>
        -- an occurrence that is not valid is not part of the history
        rw [List.append_nil, left_of_not_passes hepisode (Bool.eq_false_iff.mpr hpasses)]
        exact hstanding
    · have hne : Fingerprint.ofText text ≠ .ofText request.query := fun heq =>
        hown (hdistinct request (List.mem_append_right _ List.mem_cons_self) heq.symm)
      refine ⟨entry, ?_, lasts_execute_of_ne executor hquiet hne hlasts⟩
      simp only [hown, false_and, if_false, List.append_nil]
      exact hstanding

/-- The life of a query whose text comes back in time, when it is asked for after any requests.
    Until it has been compiled, its valid occurrences are counted up to the one at which it is due,
    and it is compiled at this and every later one; a failure to compile leaves the count, unless
    the failure is remembered, whereupon the query is not compiled again and every valid
    occurrence is counted. Once it has been compiled, every request for it runs the artifact and
    does nothing else, and the count stays. -/
theorem execute_follows_lifecycle (hquiet : engine.Quiet) (hempty : w.cache.slots = [])
    (hlifetime : w.cache.lifetime = none) {requests : List (Request L)} {request : Request L}
    (hdistinct : ∀ other ∈ requests,
      Fingerprint.ofText other.query = .ofText request.query → other.query = request.query)
    (hrecurs : Recurs w.cache.capacity request.query
      ((requests ++ [request]).map Request.query)) :
    let before := executor.serve engine requests w
    let after := (executor.execute engine request before).2
    let history := executor.validOccurrences engine request.query requests w
    let calls := executor.calls engine request .arrived before
    let entry := before.cache.entry before.now request.query
    let left := after.cache.entry after.now request.query
    let due := executor.tiering.due
    ((∀ past ∈ history, Call.artifact? past = none) →
      ((executor.tiering.remembers = true → ∀ past ∈ history, Call.declines past = false) →
        entry = .seen (min history.length (due - 1))) ∧
      (∀ earlier declining later, history = earlier ++ declining :: later →
        executor.tiering.remembers = true → Call.declines declining = true →
        entry = .notCompilable (due + (history.length - (earlier.length + 1)))) ∧
      (Call.compiles calls = true ↔ Call.passes calls = true ∧ due ≤ history.length + 1 ∧
        (executor.tiering.remembers = true → ∀ past ∈ history, Call.declines past = false)) ∧
      (Call.compiles calls = true → Call.artifact? calls = none →
        left = if executor.tiering.remembers && Call.declines calls then .notCompilable due
          else .seen (due - 1)) ∧
      ∀ artifact, Call.artifact? calls = some artifact →
        left = .compiled due artifact ∧ ∃ document outcome,
          calls = Phase.checks executor request document ++
            [Phase.compilation executor request document (.artifact artifact),
              Executor.runs request artifact outcome]) ∧
    ∀ past ∈ history, ∀ artifact, Call.artifact? past = some artifact →
      entry = .compiled due artifact ∧ left = .compiled due artifact ∧
      ∃ outcome, calls = [Executor.runs request artifact outcome] := by
  intro before after history calls entry left due
  rw [List.map_append, List.map_singleton] at hrecurs
  obtain ⟨found, hstanding, hlasts⟩ :=
    standing_serve executor hquiet hempty hlifetime hdistinct (recurs_of_append hrecurs)
  rw [← executor.capacity_serve hquiet requests w] at hrecurs
  obtain ⟨recent, hretains⟩ := retains_of_lasts hlasts hrecurs
  have hlifetime' : before.cache.lifetime = none :=
    (executor.lifetime_serve hquiet requests w).trans hlifetime
  obtain ⟨kept, hepisode, hknows⟩ := executor.exists_episode hquiet hlifetime' hretains
  -- the entries that are read before and after are those of the standing and the episode
  obtain rfl : found = entry := (QueryCache.entry_of_retains hlifetime' hretains before.now).symm
  obtain rfl : kept = left := hknows.entry.symm
  constructor
  · intro hartifacts
    have hnone := artifact?_of_standing hstanding hartifacts
    -- the occurrence at which the query is compiled is stored as the one at which it is due
    have hcounted : Call.compiles calls = true → entry.occurrences + 1 = due := by
      intro hcompiles
      rw [entry_of_compiles hstanding hartifacts hepisode hcompiles]
      show executor.tiering.due - 1 + 1 = executor.tiering.due
      unfold Tiering.due
      omega
    refine ⟨entry_of_counting hstanding hartifacts, ?_, ?_, ?_, ?_⟩
    · intro earlier declining later hhistory hremembers hdeclines
      have hlater : history.length - (earlier.length + 1) = later.length := by
        rw [hhistory, List.length_append, List.length_cons]
        omega
      rw [hlater]
      exact entry_of_declined (hhistory ▸ hstanding) (hhistory ▸ hartifacts) hremembers hdeclines
    · rw [compiles_of_episode hepisode hnone, due_of_standing hstanding hartifacts]
    · intro hcompiles hartifact
      have hleft := episode_of_compiles hepisode hcompiles hartifact
      rw [hcounted hcompiles] at hleft
      split at hleft
      next hremembered => rw [if_pos hremembered, hleft]
      next hforgotten =>
        rw [if_neg hforgotten, hleft]
        exact entry_of_compiles hstanding hartifacts hepisode hcompiles
    · intro artifact hartifact
      obtain ⟨hleft, document, outcome, hcalls⟩ := episode_of_artifact? hepisode hartifact
      have hcompiles : Call.compiles calls = true := by
        rw [show calls = _ from hcalls]
        rfl
      rw [hcounted hcompiles] at hleft
      exact ⟨hleft, document, outcome, hcalls⟩
  · intro past hmem artifact hartifact
    have hentry : entry = .compiled due artifact := entry_of_compiled hstanding hmem hartifact
    obtain ⟨outcome, hcalls, hleft⟩ := episode_of_compiled (hentry ▸ hepisode)
    exact ⟨hentry, hleft, outcome, hcalls⟩

end Sessions

/-- An executor of echoes that compiles a query when it occurs for the second time. -/
def echoTwice : Executor echoLanguage := ⟨0, (), { threshold := 2 }⟩

/-- The third request for a query finds what the second has compiled. -/
theorem execute_follows_lifecycle_echoTwice :
    let served := echoTwice.serve echo.engine
      [echoRequest "a", echoRequest "b", echoRequest "a"] (echoWorld 3)
    served.cache.entry served.now (echoRequest "a").query = .compiled 2 "a" ∧
    ∃ outcome, echoTwice.calls echo.engine (echoRequest "a") .arrived served =
      [Executor.runs (echoRequest "a") "a" outcome] := by
  intro served
  -- there are at most two texts between two of four
  have hrecurs : Recurs 3 "a" ["a", "b", "a", "a"] := by
    intro before between after htexts _
    have hlength := congrArg List.length htexts
    simp only [List.length_append, List.length_cons, List.length_nil] at hlength
    have hcard := between.toFinset_card_le
    omega
  obtain ⟨hdistinct, hcompiled⟩ :
      (∀ other ∈ [echoRequest "a", echoRequest "b", echoRequest "a"],
        Fingerprint.ofText other.query = .ofText (echoRequest "a").query →
          other.query = (echoRequest "a").query) ∧
      (echoTwice.validOccurrences echo.engine (echoRequest "a").query
        [echoRequest "a", echoRequest "b", echoRequest "a"] (echoWorld 3)).filterMap
        Call.artifact? = ["a"] := by decide +kernel
  -- the artifact was compiled by the one valid occurrence before
  obtain ⟨past, hmem, hartifact⟩ := List.mem_filterMap.mp (hcompiled ▸ List.mem_singleton_self "a")
  obtain ⟨hentry, -, hcalls⟩ := (execute_follows_lifecycle echoTwice echo.engine_quiet rfl rfl
    hdistinct hrecurs).2 past hmem "a" hartifact
  exact ⟨hentry, hcalls⟩

end TieredQuery
