import TieredQuery.Proofs.Cache.Revision
import TieredQuery.Proofs.Dispatch.Calls

/-!
# How a request goes on

`LeadsTo` lists the ways in which a step can send a request on from one phase to another, each
with what the step has found in the cache or been answered by the engine. `leadsTo_step` says that
there are no others. What holds of every step is then a case split on the ways, and the steps that
do not matter to it need not be opened.
-/

namespace TieredQuery

variable {L : Language} {σ : Type}

namespace Executor

/-- The ways in which a step sends a request on. -/
inductive LeadsTo (executor : Executor L) (engine : Engine L σ) (request : Request L)
    (w : World L σ) : Phase L → Phase L → Prop where
  /-- The cache has an artifact when the request arrives. -/
  | hit {artifact : L.Artifact}
      (hentry : (w.cache.entry w.now request.query).artifact? = some artifact) :
      LeadsTo executor engine request w .arrived (.running artifact .hit)
  | miss (hentry : (w.cache.entry w.now request.query).artifact? = none) :
      LeadsTo executor engine request w .arrived .parsing
  | parsed {document : L.Document}
      (houtcome : (engine.parse request.query w).1 = .ok document) :
      LeadsTo executor engine request w .parsing (.validating document)
  | validated {document : L.Document}
      (houtcome : (engine.validate executor.schema document w).1 = .ok []) :
      LeadsTo executor engine request w (.validating document) (.planning document)
  /-- Another request has stored an artifact since this one has arrived. -/
  | race {document : L.Document} {artifact : L.Artifact}
      (hentry : (w.cache.entry w.now request.query).artifact? = some artifact) :
      LeadsTo executor engine request w (.planning document) (.running artifact .race)
  | due {document : L.Document} {occurrences : Nat}
      (hplan : ((w.cache.entry w.now request.query).plan executor.tiering).2 =
        .compile occurrences) :
      LeadsTo executor engine request w (.planning document) (.compiling document occurrences)
  | notDue {document : L.Document}
      (hplan : ((w.cache.entry w.now request.query).plan executor.tiering).2 = .interpret) :
      LeadsTo executor engine request w (.planning document) (.interpreting document)
  | compiled {document : L.Document} {occurrences : Nat} {artifact : L.Artifact}
      (houtcome : (engine.compile executor.schema document request.operationName w).1 =
        .ok (.artifact artifact)) :
      LeadsTo executor engine request w (.compiling document occurrences)
        (.adopting artifact occurrences)
  /-- The query could not be compiled, and the executor remembers that. -/
  | declined {document : L.Document} {occurrences : Nat} {reason : String}
      (houtcome : (engine.compile executor.schema document request.operationName w).1 =
        .ok (.declined reason)) (hremembers : executor.tiering.remembers = true) :
      LeadsTo executor engine request w (.compiling document occurrences)
        (.declining document occurrences)
  /-- The query could not be compiled, and will be tried again. -/
  | passedOver {document : L.Document} {occurrences : Nat} {reason : String}
      (houtcome : (engine.compile executor.schema document request.operationName w).1 =
        .ok (.declined reason)) (hremembers : ¬executor.tiering.remembers = true) :
      LeadsTo executor engine request w (.compiling document occurrences)
        (.interpreting document)
  /-- Another request has stored an artifact since this one has planned to compile. -/
  | kept {fresh artifact : L.Artifact} {occurrences : Nat}
      (hentry : (w.cache.entry w.now request.query).artifact? = some artifact) :
      LeadsTo executor engine request w (.adopting fresh occurrences)
        (.running artifact .compiled)
  | adopted {fresh : L.Artifact} {occurrences : Nat}
      (hentry : (w.cache.entry w.now request.query).artifact? = none) :
      LeadsTo executor engine request w (.adopting fresh occurrences) (.running fresh .compiled)
  | remembered {document : L.Document} {occurrences : Nat} :
      LeadsTo executor engine request w (.declining document occurrences)
        (.interpreting document)
  /-- The call of the engine decides the response. -/
  | settles {phase : Phase L} {call : Call L} {w' : World L σ} {verdict : Verdict}
      {response : Response} (hcall : executor.call engine request phase w = some (call, w'))
      (hresponse : call.response? = some response) :
      LeadsTo executor engine request w phase (.settled false verdict response)
  /-- The request is counted. -/
  | counted {verdict : Verdict} {response : Response} :
      LeadsTo executor engine request w (.settled false verdict response)
        (.settled true verdict response)
  /-- The verdict is counted. -/
  | answered {verdict : Verdict} {response : Response} :
      LeadsTo executor engine request w (.settled true verdict response) (.done verdict response)
  | stays {verdict : Verdict} {response : Response} :
      LeadsTo executor engine request w (.done verdict response) (.done verdict response)

/-- However a query was executed, the request is settled by that call. -/
theorem leadsTo_ended {executor : Executor L} {engine : Engine L σ} {request : Request L}
    {w w' : World L σ} {phase : Phase L} {call : Call L} {outcome : Outcome Diagnostic Output}
    (hcall : executor.call engine request phase w = some (call, w'))
    (hresponse : call.response? = some (Call.executed outcome)) (key : Fingerprint)
    (verdict : Verdict) :
    executor.LeadsTo engine request w phase (Move.ended key verdict outcome).phase := by
  obtain ⟨given, hended⟩ := Phase.response_ended (L := L) key verdict outcome
  rw [hended]
  exact .settles hcall hresponse

/-- Every step sends its request on in one of these ways. -/
theorem leadsTo_step (executor : Executor L) (engine : Engine L σ) (request : Request L)
    (phase : Phase L) (w : World L σ) :
    executor.LeadsTo engine request w phase (executor.step engine request phase w).1 := by
  -- Case split on the phase, and then on what the step reads in the cache or is answered.
  cases phase with
  | arrived =>
    rw [executor.phase_arrived, Move.found]
    split
    next artifact hentry => exact .hit hentry
    next hentry => exact .miss hentry
  | parsing =>
    rw [executor.phase_parsing]
    cases houtcome : (engine.parse request.query w).1 with
    | ok document => exact .parsed houtcome
    | error diagnostic => exact .settles rfl (congrArg Call.failure? houtcome)
    | panic payload => exact .settles rfl (congrArg Call.failure? houtcome)
  | validating document =>
    rw [executor.phase_validating]
    cases houtcome : (engine.validate executor.schema document w).1 with
    | ok errors =>
      cases errors with
      | nil => exact .validated houtcome
      | cons error errors =>
        exact .settles rfl (by rw [houtcome]; rfl)
    | error impossible => cases impossible
    | panic payload =>
      exact .settles rfl (by rw [houtcome]; rfl)
  | planning document =>
    rw [executor.phase_planning]
    cases hentry : (w.cache.entry w.now request.query).artifact? with
    | some artifact =>
      rw [Entry.plan_of_artifact? executor.tiering hentry]
      exact .race hentry
    | none =>
      -- a remembered failure, the threshold reached, and the threshold not reached
      rcases Entry.plan_of_artifact?_eq_none executor.tiering hentry with
        ⟨-, -, hplan⟩ | ⟨-, hplan⟩ | ⟨-, hplan⟩ <;> rw [hplan]
      · exact .notDue (congrArg Prod.snd hplan)
      · exact .due (congrArg Prod.snd hplan)
      · exact .notDue (congrArg Prod.snd hplan)
  | compiling document occurrences =>
    rw [executor.phase_compiling]
    cases houtcome : (engine.compile executor.schema document request.operationName w).1 with
    | ok result =>
      cases result with
      | artifact artifact => exact .compiled houtcome
      | declined reason =>
        unfold Move.compiled
        dsimp only
        split
        next hremembers => exact .declined houtcome hremembers
        next hremembers => exact .passedOver houtcome hremembers
    | error diagnostic => exact .settles rfl (congrArg Call.failure? houtcome)
    | panic payload => exact .settles rfl (congrArg Call.failure? houtcome)
  | adopting fresh occurrences =>
    rw [executor.phase_adopting]
    cases hentry : (w.cache.entry w.now request.query).artifact? with
    | some artifact => exact .kept hentry
    | none => exact .adopted hentry
  | declining document occurrences => exact .remembered
  | interpreting document => exact leadsTo_ended rfl rfl _ _
  | running artifact verdict => exact leadsTo_ended rfl rfl _ _
  | settled counted verdict response =>
    cases counted with
    | false => exact .counted
    | true => exact .answered
  | done verdict response => exact .stays

end Executor
end TieredQuery
