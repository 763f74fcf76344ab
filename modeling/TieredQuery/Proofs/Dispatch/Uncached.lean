import TieredQuery.OneShot
import TieredQuery.Proofs.Dispatch.PureEngine

/-!
# Cached and uncached execution

A valid query that is due to be compiled is answered as if its document were run once without a
cache. To say so of the calls of the engine as well as of the response, the calls are listed where
they are made: a `PrivateEngine` answers from a state of its own, and its `recorder` is an engine
that lists the calls made of it. Both ways of running a document are given the same recorder.

`Ahead` relates the two worlds. A call keeps it, since the outcome depends on nothing but the state
of the engine; accesses of the cache do not touch the engine at all. Since calls may take time, the
entry of the query may expire on the way, which does no harm: a query without a live artifact gets
none by waiting (`World.Lacks`).

## Key results

- `entry_touch_of_le`: reading an entry does not change what is read of it later
- `execute_eq_finish_compiling`: a query that is due comes to the compiler
- `finish_compiling_ahead`: from there on both ways are the same
- `execute_agrees_with_runOnce`: the two put together
-/

namespace TieredQuery

variable {L : Language} {τ σ A : Type}

/-! ## Engines with a state of their own -/

/-- The functions of an engine that keeps a state of its own. Their answers depend on nothing else
    in the world. -/
structure PrivateEngine (L : Language) (τ : Type) where
  parse (source : String) : StateM τ (Outcome Diagnostic L.Document)
  validate (schema : L.Schema) (document : L.Document) : StateM τ (Outcome Empty (List Diagnostic))
  compile (schema : L.Schema) (document : L.Document) (operationName : Option String) :
    StateM τ (Outcome Diagnostic (Compilation L.Artifact))
  interpret (interpretation : Interpretation L) : StateM τ (Outcome Diagnostic Output)
  run (artifact : L.Artifact) (resolvers : L.Resolvers) (context : L.Context)
    (variableValues : Dictionary Json.Value) : StateM τ (Outcome Diagnostic Output)
  /-- How long a call takes that is made in a state, in nanoseconds. -/
  lasts (state : τ) (call : Call L) : Nat

/-- A pure engine has nothing to keep in a state, and its calls take no time. -/
def PureEngine.toPrivate (functions : PureEngine L) : PrivateEngine L Unit where
  parse source := return functions.parse source
  validate schema document := return functions.validate schema document
  compile schema document operationName := return functions.compile schema document operationName
  interpret interpretation := return functions.interpret interpretation
  run artifact resolvers context variableValues :=
    return functions.run artifact resolvers context variableValues
  lasts _ _ := 0

namespace PrivateEngine

variable (functions : PrivateEngine L τ)

/-- Makes a call, adds it to the list of those made before, and lets its time pass. -/
def record {α : Type} (answer : StateM τ α) (call : α → Call L) :
    StateM (World L (List (Call L) × τ)) α := fun w =>
  let p := answer w.engine.2
  (p.1, { w with
    now := w.now + functions.lasts w.engine.2 (call p.1)
    engine := (w.engine.1 ++ [call p.1], p.2) })

/-- The engine that answers by these functions and lists the calls made of it. -/
def recorder : Engine L (List (Call L) × τ) where
  parse source := functions.record (functions.parse source) (.parse source)
  validate schema document :=
    functions.record (functions.validate schema document) (.validate schema document)
  compile schema document operationName :=
    functions.record (functions.compile schema document operationName)
      (.compile schema document operationName)
  interpret interpretation :=
    functions.record (functions.interpret interpretation) (.interpret interpretation)
  run artifact resolvers context variableValues :=
    functions.record (functions.run artifact resolvers context variableValues)
      (.run artifact resolvers context variableValues)

/-- A call does the same wherever it is made in the same state at the same time. -/
theorem record_of_same {α : Type} {answer : StateM τ α} {call : α → Call L} {outcome : α}
    {w w₁ v : World L (List (Call L) × τ)} (h : functions.record answer call w = (outcome, w₁))
    (hengine : v.engine = w.engine) (hnow : v.now = w.now) :
    functions.record answer call v = (outcome, { v with now := w₁.now, engine := w₁.engine }) := by
  cases h
  unfold record
  rw [hengine, hnow]

/-- A call is listed after those made before. -/
theorem calls_record {α : Type} {answer : StateM τ α} {call : α → Call L} {outcome : α}
    {w w₁ : World L (List (Call L) × τ)} (h : functions.record answer call w = (outcome, w₁)) :
    w₁.engine.1 = w.engine.1 ++ [call outcome] := by
  cases h
  rfl

/-- A call takes its time, if any. -/
theorem now_le_record {α : Type} {answer : StateM τ α} {call : α → Call L} {outcome : α}
    {w w₁ : World L (List (Call L) × τ)} (h : functions.record answer call w = (outcome, w₁)) :
    w.now ≤ w₁.now := by
  cases h
  exact Nat.le_add_right _ _

/-- Listing its calls an engine leaves the cache alone. -/
theorem recorder_quiet : functions.recorder.Quiet :=
  ⟨fun _ _ => rfl, fun _ _ _ => rfl, fun _ _ _ _ => rfl, fun _ _ => rfl, fun _ _ _ _ _ => rfl⟩

end PrivateEngine

/-! ## Waiting for an entry -/

namespace RecencyMap

variable {κ β : Type} [DecidableEq κ]

/-- Reading a key now does not change whether it is live later. -/
theorem live?_touch_of_le (m : RecencyMap κ β) {now time : Nat} (hle : now ≤ time) (key : κ) :
    (m.touch now key).live? time key = m.live? time key := by
  rw [live?_eq_map_liveSlot?, live?_eq_map_liveSlot?, liveSlot?, liveSlot?, slot?_touch_self,
    Option.filter_filter]
  congr 2
  funext slot
  rw [isExpired_touch]
  -- a slot that is live later is live now
  cases hlater : m.isExpired time slot with
  | true => exact Bool.and_false _
  | false => rw [isExpired_of_le rfl hle hlater]; rfl

end RecencyMap

namespace QueryCache

/-- Reading an entry does not change what is read of it later. -/
theorem entry_touch_of_le (cache : QueryCache A) {now time : Nat} (hle : now ≤ time)
    (text : String) : entry (cache.touch now (.ofText text)) time text = entry cache time text := by
  rw [entry, entry, RecencyMap.live?_touch_of_le cache hle]

/-- An entry that is read later is the one that is read now, unless it has expired. -/
theorem entry_of_le (cache : QueryCache A) {now time : Nat} (hle : now ≤ time) (text : String) :
    entry cache time text = .unseen ∨ entry cache time text = entry cache now text := by
  -- what is live later has not expired by then, so it is live now
  cases hlater : cache.live? time (.ofText text) with
  | none => exact Or.inl (by rw [entry, hlater]; rfl)
  | some value =>
    obtain ⟨slot, hslot, hfresh, hvalue⟩ := RecencyMap.live?_eq_some_iff.mp hlater
    have hnow : cache.live? now (.ofText text) = some value :=
      RecencyMap.live?_eq_some_iff.mpr
        ⟨slot, hslot, RecencyMap.isExpired_of_le rfl hle hfresh, hvalue⟩
    exact Or.inr (by rw [entry, entry, hlater, hnow])

end QueryCache

/-- A query text has no live artifact, now or later. -/
def World.Lacks (w : World L σ) (text : String) : Prop :=
  ∀ time, w.now ≤ time → (w.cache.entry time text).artifact? = none

/-- A query that has no live artifact now gets none by waiting. -/
theorem World.lacks_of_entry {w : World L σ} {text : String}
    (h : (w.cache.entry w.now text).artifact? = none) : w.Lacks text := by
  intro time hle
  rcases w.cache.entry_of_le hle text with hunseen | hsame
  · rw [hunseen]
    rfl
  · rw [hsame, h]

/-- A query without an artifact is due when the settings would have its next occurrence
    compiled. -/
structure Entry.IsDue (tiering : Tiering) (entry : Entry A) : Prop where
  notCompiled : entry.artifact? = none
  /-- It is not known that it cannot be compiled, or this is not heeded. -/
  notDeclined : tiering.remembers = true → entry.declined = false
  reached : tiering.threshold.toNat ≤ entry.occurrences + 1

/-- A query that is due is compiled, and nothing is stored before that. -/
theorem Entry.plan_of_isDue {tiering : Tiering} {entry : Entry A} (h : entry.IsDue tiering) :
    entry.plan tiering = (none, .compile (entry.occurrences + 1)) := by
  -- of the three plans the first is excluded by what is heeded, the last by the threshold
  rcases Entry.plan_of_artifact?_eq_none tiering h.notCompiled with
    ⟨hremembers, hdeclined, -⟩ | ⟨-, hplan⟩ | ⟨hbelow, -⟩
  · rw [h.notDeclined hremembers] at hdeclined
    cases hdeclined
  · exact hplan
  · have hreached := h.reached
    omega

/-! ## Answers -/

/-- The response that reports the outcome of running a document once. -/
def Response.ofOutcome : Outcome Failure Output → Response
  | .ok output => .executed output
  | .error failure => .ofFailure failure
  | .panic payload => .failed [.ofMessage ("internal error: " ++ payload.message)]

/-- A failure of the query is reported like an outcome of the engine. -/
theorem Response.ofOutcome_asFailure (outcome : Outcome Diagnostic Output) :
    Response.ofOutcome outcome.asFailure = Call.executed outcome := by
  cases outcome <;> rfl

namespace Executor

variable (executor : Executor L) (request : Request L)

/-! ## The last phases of a request -/

/-- The move that ends a request leads to the response of its execution, and calls nothing more. -/
theorem finish_ended (engine : Engine L σ) (key : Fingerprint) (verdict : Verdict)
    (outcome : Outcome Diagnostic Output) (w : World L σ) :
    let p := (Move.ended key verdict outcome).make executor.id w
    (executor.finish engine request p.1 p.2).1 = Call.executed outcome ∧
    (executor.finish engine request p.1 p.2).2.engine = w.engine := by
  intro p
  obtain ⟨given, hphase⟩ := Phase.response_ended (L := L) key verdict outcome
  have hfinish : executor.finish engine request p.1 p.2 = _ :=
    (congrArg (executor.finish engine request · p.2) hphase).trans
      (executor.finish_of_settled engine request given (Call.executed outcome) p.2)
  -- raising the counters does not touch the engine
  rw [hfinish]
  exact ⟨rfl, rfl⟩

/-- A request that is to run an artifact makes that one call. -/
theorem finish_running (engine : Engine L σ) (artifact : L.Artifact) (verdict : Verdict)
    (w : World L σ) :
    let p := engine.run artifact L.noResolvers request.context request.variableValues w
    (executor.finish engine request (.running artifact verdict) w).1 = Call.executed p.1 ∧
    (executor.finish engine request (.running artifact verdict) w).2.engine = p.2.engine := by
  rw [executor.finish_of_unanswered engine request w rfl, step_running]
  exact executor.finish_ended request engine _ verdict _ _

/-- A request that is to interpret its query makes that one call. -/
theorem finish_interpreting (engine : Engine L σ) (document : L.Document) (w : World L σ) :
    let p := engine.interpret (executor.interpretation request document)
      (World.notify (.interpreting (.ofText request.query)) w).2
    (executor.finish engine request (.interpreting document) w).1 = Call.executed p.1 ∧
    (executor.finish engine request (.interpreting document) w).2.engine = p.2.engine := by
  rw [executor.finish_of_unanswered engine request w rfl, step_interpreting]
  exact executor.finish_ended request engine _ .interpreted _ _

/-- A request that finds no artifact has its query parsed. -/
theorem finish_arrived (engine : Engine L σ) {w : World L σ}
    (hopen : (w.cache.entry w.now request.query).artifact? = none) :
    executor.finish engine request .arrived w =
      executor.finish engine request .parsing (executor.step engine request .arrived w).2 := by
  have hphase : (executor.step engine request .arrived w).1 = .parsing := by
    rw [executor.phase_arrived, Move.found, hopen]
  rw [executor.finish_of_unanswered engine request w rfl, hphase]

/-- A query that could be parsed is validated, in a world that differs by notices and counters. -/
theorem finish_parsing (engine : Engine L σ) {document : L.Document} {w w₁ : World L σ}
    (h : engine.parse request.query w = (.ok document, w₁)) :
    ∃ v : World L σ, v.cache = w₁.cache ∧ v.now = w₁.now ∧ v.engine = w₁.engine ∧
      executor.finish engine request .parsing w =
        executor.finish engine request (.validating document) v := by
  rw [executor.finish_of_unanswered engine request w rfl, step_parsing, h]
  exact ⟨((Move.parsed (.ofText request.query) (.ok document)).make executor.id w₁).2,
    rfl, rfl, rfl, rfl⟩

/-- A valid query is planned, in such a world too. -/
theorem finish_validating (engine : Engine L σ) {document : L.Document} {w w₁ : World L σ}
    (h : engine.validate executor.schema document w = (.ok [], w₁)) :
    ∃ v : World L σ, v.cache = w₁.cache ∧ v.now = w₁.now ∧ v.engine = w₁.engine ∧
      executor.finish engine request (.validating document) w =
        executor.finish engine request (.planning document) v := by
  rw [executor.finish_of_unanswered engine request w rfl, step_validating, h]
  exact ⟨((Move.validated (.ofText request.query) document (.ok [])).make executor.id w₁).2,
    rfl, rfl, rfl, rfl⟩

/-- A query that is due is compiled. -/
theorem finish_planning (engine : Engine L σ) (document : L.Document) {w : World L σ}
    (hdue : (w.cache.entry w.now request.query).IsDue executor.tiering) :
    executor.finish engine request (.planning document) w =
      executor.finish engine request
        (.compiling document ((w.cache.entry w.now request.query).occurrences + 1))
        (executor.step engine request (.planning document) w).2 := by
  have hphase : (executor.step engine request (.planning document) w).1 =
      .compiling document ((w.cache.entry w.now request.query).occurrences + 1) := by
    rw [executor.phase_planning, Entry.plan_of_isDue hdue]
    rfl
  rw [executor.finish_of_unanswered engine request w rfl, hphase]

/-- A request that has compiled its query runs that artifact, unless there is one already. -/
theorem step_adopting (engine : Engine L σ) (artifact : L.Artifact) (occurrences : Nat)
    {w : World L σ} (hopen : (w.cache.entry w.now request.query).artifact? = none) :
    (executor.step engine request (.adopting artifact occurrences) w).1 =
      .running artifact .compiled := by
  rw [executor.phase_adopting, hopen]
  rfl

end Executor

/-! ## Running a document once -/

namespace Engine

variable (engine : Engine L σ) (given : Interpretation L) (resolvers : L.Resolvers)

/-- A document that was compiled is run. -/
theorem runOnce_of_artifact {artifact : L.Artifact} {w w₁ : World L σ}
    (h : engine.compile given.schema given.document given.operationName w =
      (.ok (.artifact artifact), w₁)) :
    engine.runOnce given resolvers w =
      let p := engine.run artifact resolvers given.context given.variableValues w₁
      (p.1.asFailure, p.2) := by
  simp only [runOnce, bind, StateT.bind, h]
  rfl

/-- A document that cannot be compiled is interpreted, after a notice. -/
theorem runOnce_of_declined {reason : String} {w w₁ : World L σ}
    (h : engine.compile given.schema given.document given.operationName w =
      (.ok (.declined reason), w₁)) :
    engine.runOnce given resolvers w =
      let p := engine.interpret given (World.notify (.documentDeclined reason) w₁).2
      (p.1.asFailure, p.2) := by
  simp only [runOnce, bind, StateT.bind, h]
  rfl

/-- An error of the compiler ends the matter. -/
theorem runOnce_of_error {diagnostic : Diagnostic} {w w₁ : World L σ}
    (h : engine.compile given.schema given.document given.operationName w =
      (.error diagnostic, w₁)) :
    engine.runOnce given resolvers w = (.error (.query diagnostic), w₁) := by
  simp only [runOnce, bind, StateT.bind, h]
  rfl

/-- And so does a panic. -/
theorem runOnce_of_panic {payload : Payload} {w w₁ : World L σ}
    (h : engine.compile given.schema given.document given.operationName w = (.panic payload, w₁)) :
    engine.runOnce given resolvers w = (.panic payload, w₁) := by
  simp only [runOnce, bind, StateT.bind, h]
  rfl

end Engine

/-! ## The two ways compared -/

/-- Two worlds in which the engine has come to the same state by the same calls, but for some
    earlier ones that were made in the first only. -/
def Ahead (earlier : List (Call L)) (w w' : World L (List (Call L) × τ)) : Prop :=
  w.engine = (earlier ++ w'.engine.1, w'.engine.2)

/-- A call has the same outcome in both worlds and keeps them so. -/
theorem PrivateEngine.record_ahead (functions : PrivateEngine L τ) {α : Type}
    (answer : StateM τ α) (call : α → Call L) {earlier : List (Call L)}
    {w w' : World L (List (Call L) × τ)} (h : Ahead earlier w w') :
    (functions.record answer call w).1 = (functions.record answer call w').1 ∧
      Ahead earlier (functions.record answer call w).2 (functions.record answer call w').2 := by
  have hengine : w.engine = (earlier ++ w'.engine.1, w'.engine.2) := h
  unfold Ahead PrivateEngine.record
  dsimp only
  -- the states are the same, and the earlier calls stay in front
  rw [hengine, List.append_assoc]
  exact ⟨rfl, rfl⟩

namespace Executor

variable (executor : Executor L) (functions : PrivateEngine L τ) (request : Request L)
  {earlier : List (Call L)} {w w' : World L (List (Call L) × τ)}

/-- Running an artifact ends a request as it ends running its document once. -/
theorem finish_running_ahead (artifact : L.Artifact) (verdict : Verdict)
    (h : Ahead earlier w w') :
    let answered := executor.finish functions.recorder request (.running artifact verdict) w
    let p := functions.recorder.run artifact L.noResolvers request.context request.variableValues w'
    answered.1 = .ofOutcome p.1.asFailure ∧ Ahead earlier answered.2 p.2 := by
  intro answered p
  obtain ⟨hresponse, hengine⟩ :=
    executor.finish_running request functions.recorder artifact verdict w
  obtain ⟨houtcome, hahead⟩ := functions.record_ahead
    (functions.run artifact L.noResolvers request.context request.variableValues)
    (.run artifact L.noResolvers request.context request.variableValues) h
  constructor
  · rw [Response.ofOutcome_asFailure]
    exact hresponse.trans (congrArg Call.executed houtcome)
  · exact hengine.trans hahead

/-- Interpreting a query ends a request as it ends running its document once. -/
theorem finish_interpreting_ahead (document : L.Document) (h : Ahead earlier w w') :
    let answered := executor.finish functions.recorder request (.interpreting document) w
    let p := functions.recorder.interpret (executor.interpretation request document) w'
    answered.1 = .ofOutcome p.1.asFailure ∧ Ahead earlier answered.2 p.2 := by
  intro answered p
  obtain ⟨hresponse, hengine⟩ :=
    executor.finish_interpreting request functions.recorder document w
  -- the notice that is given before the call does not touch the engine
  obtain ⟨houtcome, hahead⟩ := functions.record_ahead
    (w := (World.notify (.interpreting (.ofText request.query)) w).2)
    (functions.interpret (executor.interpretation request document))
    (.interpret (executor.interpretation request document)) h
  constructor
  · rw [Response.ofOutcome_asFailure]
    exact hresponse.trans (congrArg Call.executed houtcome)
  · exact hengine.trans hahead

/-- Whatever the compiler has said, a request goes on as running its document once does, if no
    artifact of the query has been stored. -/
theorem finish_compiled_ahead {document : L.Document} (occurrences : Nat)
    {outcome : Outcome Diagnostic (Compilation L.Artifact)}
    {w₁ w₁' : World L (List (Call L) × τ)} (hlacks : w₁.Lacks request.query)
    (h : Ahead earlier w₁ w₁')
    (hcompile : functions.recorder.compile executor.schema document request.operationName w' =
      (outcome, w₁')) :
    let p := (Move.compiled (.ofText request.query) executor.tiering document occurrences
      outcome).make executor.id w₁
    let answered := executor.finish functions.recorder request p.1 p.2
    let once := functions.recorder.runOnce (executor.interpretation request document)
      L.noResolvers w'
    answered.1 = .ofOutcome once.1 ∧ Ahead earlier answered.2 once.2 := by
  intro p answered once
  cases outcome with
  | ok result =>
    cases result with
    | artifact artifact =>
      -- no artifact was stored meanwhile, so the one just compiled is run
      have honce : once = _ := functions.recorder.runOnce_of_artifact
        (executor.interpretation request document) L.noResolvers hcompile
      have hanswered : answered = _ :=
        executor.finish_of_unanswered functions.recorder request p.2 rfl
      have hrunning : (executor.step functions.recorder request p.1 p.2).1 = _ :=
        executor.step_adopting request functions.recorder artifact occurrences
          (hlacks w₁.now (Nat.le_refl _))
      rw [honce, hanswered, hrunning]
      exact executor.finish_running_ahead functions request artifact .compiled h
    | declined reason =>
      have honce : once = _ := functions.recorder.runOnce_of_declined
        (executor.interpretation request document) L.noResolvers hcompile
      -- the failure to compile may be stored first, which does not touch the engine
      have hinterpreting : ∃ v : World L (List (Call L) × τ), v.engine = w₁.engine ∧
          answered = executor.finish functions.recorder request (.interpreting document) v := by
        by_cases hremembers : executor.tiering.remembers = true
        · have hphase : p.1 = .declining document occurrences := if_pos hremembers
          have hanswered : answered = _ :=
            executor.finish_of_unanswered functions.recorder request p.2 (by rw [hphase]; rfl)
          rw [hphase] at hanswered
          exact ⟨(executor.step functions.recorder request (.declining document occurrences) p.2).2,
            rfl, hanswered⟩
        · have hphase : p.1 = .interpreting document := if_neg hremembers
          exact ⟨p.2, rfl, by rw [← hphase]⟩
      obtain ⟨v, hv, hanswered⟩ := hinterpreting
      rw [honce, hanswered]
      exact executor.finish_interpreting_ahead functions request document (hv.trans h)
  | error diagnostic =>
    -- a failed compilation ends both ways, and is reported alike
    have honce : once = _ := functions.recorder.runOnce_of_error
      (executor.interpretation request document) L.noResolvers hcompile
    have hanswered : answered = _ :=
      executor.finish_of_settled functions.recorder request .failed _ p.2
    rw [honce, hanswered]
    exact ⟨rfl, h⟩
  | panic payload =>
    have honce : once = _ := functions.recorder.runOnce_of_panic
      (executor.interpretation request document) L.noResolvers hcompile
    have hanswered : answered = _ :=
      executor.finish_of_settled functions.recorder request .failed _ p.2
    rw [honce, hanswered]
    exact ⟨rfl, h⟩

/-- A request whose query is to be compiled is answered as its document is run once. -/
theorem finish_compiling_ahead (document : L.Document) (occurrences : Nat)
    (hlacks : w.Lacks request.query) (h : Ahead earlier w w') :
    let answered :=
      executor.finish functions.recorder request (.compiling document occurrences) w
    let once := functions.recorder.runOnce (executor.interpretation request document)
      L.noResolvers w'
    answered.1 = .ofOutcome once.1 ∧ Ahead earlier answered.2 once.2 := by
  intro answered once
  obtain ⟨houtcome, hahead⟩ :
      (functions.recorder.compile executor.schema document request.operationName w).1 =
        (functions.recorder.compile executor.schema document request.operationName w').1 ∧
      Ahead earlier
        (functions.recorder.compile executor.schema document request.operationName w).2
        (functions.recorder.compile executor.schema document request.operationName w').2 :=
    functions.record_ahead _ _ h
  -- both compilers are asked the same in the same state
  have hanswered : answered = _ := executor.finish_of_unanswered functions.recorder request w rfl
  rw [hanswered, step_compiling]
  refine executor.finish_compiled_ahead functions request occurrences ?_ hahead
    (Prod.ext houtcome.symm rfl)
  -- compiling takes its time, but leaves the cache alone
  exact fun time hle => hlacks time (Nat.le_trans (Nat.le_add_right _ _) hle)

/-- A query that is due is sent to the compiler after it was parsed and found valid. -/
theorem execute_eq_finish_compiling {document : L.Document} {w₁ w₂ : World L (List (Call L) × τ)}
    (hopen : (w.cache.entry w.now request.query).artifact? = none)
    (hparse : functions.recorder.parse request.query w = (.ok document, w₁))
    (hvalidate : functions.recorder.validate executor.schema document w₁ = (.ok [], w₂))
    (hdue : (w.cache.entry w₂.now request.query).IsDue executor.tiering) :
    ∃ occurrences, ∃ v : World L (List (Call L) × τ),
      v.engine = w₂.engine ∧ v.Lacks request.query ∧
      executor.execute functions.recorder request w =
        executor.finish functions.recorder request (.compiling document occurrences) v := by
  have hnow : w.now ≤ w₂.now :=
    Nat.le_trans (functions.now_le_record hparse) (functions.now_le_record hvalidate)
  -- the two calls are made after the entry was read, but in the same state of the engine
  let v₁ := (executor.step functions.recorder request .arrived w).2
  obtain ⟨v₂, hcache₂, hnow₂, hengine₂, hparsing⟩ := executor.finish_parsing request
    functions.recorder (functions.record_of_same (v := v₁) hparse rfl rfl)
  obtain ⟨v₃, hcache₃, hnow₃, hengine₃, hvalidating⟩ := executor.finish_validating request
    functions.recorder (functions.record_of_same (v := v₂) hvalidate hengine₂ hnow₂)
  -- reading the entry leaves it as it is until the query is planned
  have hentry : ∀ time, w.now ≤ time →
      v₃.cache.entry time request.query = w.cache.entry time request.query := by
    intro time hle
    rw [hcache₃.trans hcache₂]
    exact w.cache.entry_touch_of_le hle request.query
  have hdue₃ : (v₃.cache.entry v₃.now request.query).IsDue executor.tiering := by
    rw [hnow₃, hentry _ hnow]
    exact hdue
  refine ⟨_, (executor.step functions.recorder request (.planning document) v₃).2, hengine₃, ?_,
    (executor.finish_arrived request functions.recorder hopen).trans (hparsing.trans
      (hvalidating.trans (executor.finish_planning request functions.recorder document hdue₃)))⟩
  -- planning stored nothing, so there is still no artifact
  intro time hle
  have hplanned : (executor.step functions.recorder request (.planning document) v₃).2.cache =
      v₃.cache.touch v₃.now (.ofText request.query) := by
    rw [step_cache executor functions.recorder_quiet]
    exact QueryCache.revise_of_none (congrArg Prod.fst (Entry.plan_of_isDue hdue₃))
  have hle₃ : v₃.now ≤ time := hle
  have hle₂ : w.now ≤ time := Nat.le_trans hnow (hnow₃ ▸ hle₃)
  rw [hplanned, v₃.cache.entry_touch_of_le hle₃, hentry time hle₂]
  exact World.lacks_of_entry hopen time hle₂

/-- A valid query without a live artifact that is due to be compiled is answered as if there were
    no cache. After the two calls that check the query, the engine is called as it is for running
    the document once, without resolvers of the caller's, from the state in which it has been left:
    the same calls in the same order, with the same outcomes. The response reports the outcome of
    that. -/
theorem execute_agrees_with_runOnce {document : L.Document}
    {w₁ w₂ : World L (List (Call L) × τ)}
    (hopen : (w.cache.entry w.now request.query).artifact? = none)
    (hparse : functions.recorder.parse request.query w = (.ok document, w₁))
    (hvalidate : functions.recorder.validate executor.schema document w₁ = (.ok [], w₂))
    (hdue : (w.cache.entry w₂.now request.query).IsDue executor.tiering)
    (hfresh : w'.engine = ([], w₂.engine.2)) :
    let answered := executor.execute functions.recorder request w
    let once := functions.recorder.runOnce (executor.interpretation request document)
      L.noResolvers w'
    answered.2.engine.1 =
      w.engine.1 ++ Phase.checks executor request document ++ once.2.engine.1 ∧
    answered.2.engine.2 = once.2.engine.2 ∧
    answered.1 = .ofOutcome once.1 := by
  intro answered once
  -- the calls up to the compiler are the two checks
  have hchecks : w₂.engine.1 = w.engine.1 ++ Phase.checks executor request document := by
    rw [functions.calls_record hvalidate, functions.calls_record hparse, List.append_assoc]
    rfl
  have hahead : Ahead w₂.engine.1 w₂ w' := by
    unfold Ahead
    rw [hfresh, List.append_nil]
  obtain ⟨occurrences, v, hengine, hlacks, hexecute⟩ := executor.execute_eq_finish_compiling
    functions request hopen hparse hvalidate hdue
  -- from there on the compiler is asked the same, with the same record kept before
  obtain ⟨hresponse, hcalls⟩ := executor.finish_compiling_ahead functions request document
    occurrences hlacks (hengine.trans hahead)
  rw [← hexecute] at hresponse hcalls
  have hanswered : answered.2.engine = (w₂.engine.1 ++ once.2.engine.1, once.2.engine.2) := hcalls
  rw [hanswered, ← hchecks]
  exact ⟨rfl, rfl, hresponse⟩

end Executor

/-- A cache that has seen a query once, and an engine of which no calls have been made. -/
def onceSeenWorld (query : String) : World echoLanguage (List (Call echoLanguage) × Unit) :=
  { cache := (QueryCache.withCapacity 2 none).insert 0 (.ofText query) (.seen 1)
    engine := ([], ()) }

/-- The second occurrence of a comment, which cannot be compiled: it is interpreted with a cache as
    it is without one. -/
theorem execute_agrees_with_runOnce_echoComment :
    let executor := (echoServer 0 { threshold := 2 }).executor
    let answered :=
      executor.execute echo.toPrivate.recorder (echoRequest "#") (onceSeenWorld "#")
    answered.2.engine.1.map Call.kind = [.parse, .validate, .compile, .interpret] ∧
    answered.1.isExecuted = true := by
  intro executor answered
  have hparse : echo.toPrivate.recorder.parse "#" (onceSeenWorld "#") = (.ok "#", _) := rfl
  obtain ⟨hcalls, -, hresponse⟩ := executor.execute_agrees_with_runOnce echo.toPrivate
    (echoRequest "#") (by decide +kernel) hparse rfl
    ⟨by decide +kernel, by decide +kernel, by decide +kernel⟩
    (show (onceSeenWorld "#").engine = ([], _) from rfl)
  rw [hcalls, hresponse]
  decide +kernel

end TieredQuery
