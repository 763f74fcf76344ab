import TieredQuery.Dispatch.Phase
import TieredQuery.Engine

/-!
# Executors

An executor answers requests against one schema, with settings of its own and counters of its own;
the cache and the engine may be shared. `step` does the one thing that a request's phase names,
and `execute` steps until the request is answered. Steps of several requests may be taken in any
order; one call of `execute` takes its own without a pause.

`rank_step_lt` says that every step comes nearer to the answer; `finish_of_answered` and
`finish_of_unanswered` say how a request goes on.

Occurrences are counted without a limit. `stepWith`, `finishWith` and `executeWith` are the same for
any other counting.
-/

namespace TieredQuery

variable {L : Language} {σ : Type}

/-- Who answers requests. -/
structure Executor (L : Language) where
  /-- The number under which its counters are kept. -/
  id : Nat
  schema : L.Schema
  tiering : Tiering := {}

namespace Executor

/-- Takes an executor into service. -/
def create (executor : Executor L) : StateM (World L σ) Unit := do
  World.notify (.executorCreated executor.tiering (← get).cache.capacity)

/-- What the interpreter is given for a request. -/
def interpretation (executor : Executor L) (request : Request L) (document : L.Document) :
    Interpretation L :=
  ⟨executor.schema, document, request.variableValues, request.context, request.operationName⟩

/-- Takes one step of a request: one access of the cache, or one call of the engine, and the move
    that follows from it. A settled request raises one counter by each of its last two steps. -/
def step (executor : Executor L) (engine : Engine L σ) (request : Request L) :
    Phase L → StateM (World L σ) (Phase L)
  | .arrived => do
    let entry ← World.lookUp request.query
    (Move.found (.ofText request.query) entry).make executor.id
  | .parsing => do
    let outcome ← engine.parse request.query
    (Move.parsed (.ofText request.query) outcome).make executor.id
  | .validating document => do
    let outcome ← engine.validate executor.schema document
    (Move.validated (.ofText request.query) document outcome).make executor.id
  | .planning document => do
    -- the entry is read, the occurrence counted and the plan made in one access of the cache
    let plan ← World.update request.query (Entry.plan executor.tiering)
    (Move.planned (.ofText request.query) document plan).make executor.id
  | .compiling document occurrences => do
    let outcome ← engine.compile executor.schema document request.operationName
    (Move.compiled (.ofText request.query) executor.tiering document occurrences outcome).make
      executor.id
  | .adopting artifact occurrences => do
    -- the artifact that goes on to run may have been stored by another request meanwhile
    let kept ← World.update request.query (Entry.adopt occurrences artifact)
    return .running kept .compiled
  | .declining document occurrences => do
    World.update request.query fun entry => (entry.decline occurrences, ())
    return .interpreting document
  | .interpreting document => do
    World.notify (.interpreting (.ofText request.query))
    let outcome ← engine.interpret (executor.interpretation request document)
    (Move.ended (.ofText request.query) .interpreted outcome).make executor.id
  | .running artifact verdict => do
    let outcome ← engine.run artifact L.noResolvers request.context request.variableValues
    (Move.ended (.ofText request.query) verdict outcome).make executor.id
  | .settled false verdict response => do
    -- others may see the counters before the next step, with no verdict on this request
    World.count executor.id Counters.countRequest
    return .settled true verdict response
  | .settled true verdict response => do
    World.count executor.id fun c => c.countVerdict verdict
    return .done verdict response
  | .done verdict response => return .done verdict response

/-- Every step of a request that is not answered comes nearer to the answer. -/
theorem rank_step_lt (executor : Executor L) (engine : Engine L σ) (request : Request L)
    (phase : Phase L) (w : World L σ) (h : phase.response? = none) :
    (executor.step engine request phase w).1.rank < phase.rank := by
  -- Case split on the phase: where its move leads has a lower rank.
  cases phase with
  | arrived => exact Nat.lt_succ_of_le (Move.rank_found _ _)
  | parsing => exact Nat.lt_succ_of_le (Move.rank_parsed _ _)
  | validating document => exact Nat.lt_succ_of_le (Move.rank_validated _ _ _)
  | planning document => exact Nat.lt_succ_of_le (Move.rank_planned _ _ _)
  | compiling document occurrences => exact Nat.lt_succ_of_le (Move.rank_compiled _ _ _ _ _)
  | adopting artifact occurrences => exact (by decide : 3 < 5)
  | declining document occurrences => exact (by decide : 3 < 4)
  | interpreting document => exact Nat.lt_succ_of_le (Nat.le_of_eq (Move.rank_ended _ _ _))
  | running artifact verdict => exact Nat.lt_succ_of_le (Nat.le_of_eq (Move.rank_ended _ _ _))
  | settled counted verdict response => cases counted <;> exact Nat.lt_succ_self _
  | done verdict response => cases h

/-- The response of a settled request stays. -/
theorem settled?_step (executor : Executor L) (engine : Engine L σ) (request : Request L)
    {phase : Phase L} {response : Response} (h : phase.settled? = some response) (w : World L σ) :
    (executor.step engine request phase w).1.settled? = some response := by
  cases phase with
  | settled counted verdict settled => cases counted <;> exact h
  | done verdict settled => exact h
  | _ => cases h

/-! ## Any counting -/

/-- Takes one step of a request where occurrences are counted in some way. -/
def stepWith (counting : Counting) (executor : Executor L) (engine : Engine L σ)
    (request : Request L) : Phase L → StateM (World L σ) (Phase L)
  | .planning document => do
    -- planning alone adds to a count, and by `Entry.planWith` nothing is stored if that panics
    let plan? ← World.update request.query (Entry.planWith counting executor.tiering)
    (Move.plannedOr (.ofText request.query) document plan?).make executor.id
  | phase => executor.step engine request phase

/-- Where the counting gives the next number, the step is the one that is taken without a limit. -/
theorem stepWith_of_next {counting : Counting} {executor : Executor L} {engine : Engine L σ}
    {request : Request L} {phase : Phase L} {w : World L σ}
    (h : counting (w.cache.entry w.now request.query).occurrences =
      Counting.unbounded (w.cache.entry w.now request.query).occurrences) :
    executor.stepWith counting engine request phase w = executor.step engine request phase w := by
  cases phase with
  | planning document =>
    have hstep : executor.stepWith counting engine request (.planning document) w =
        (Move.plannedOr (.ofText request.query) document (w.cache.update w.now request.query
          (Entry.planWith counting executor.tiering)).1).make executor.id
          (w.visited (w.cache.update w.now request.query
            (Entry.planWith counting executor.tiering)).2) := rfl
    -- the two rules store the same, and the plan of one is the other's
    rw [hstep, QueryCache.update_eq_of_answer (Entry.planWith_of_next h executor.tiering)]
    rfl
  | _ => rfl

/-- Every step comes nearer to the answer, however occurrences are counted. -/
theorem rank_stepWith_lt (counting : Counting) (executor : Executor L) (engine : Engine L σ)
    (request : Request L) (phase : Phase L) (w : World L σ) (h : phase.response? = none) :
    (executor.stepWith counting engine request phase w).1.rank < phase.rank := by
  cases phase with
  | planning document => exact Nat.lt_succ_of_le (Move.rank_plannedOr _ _ _)
  | _ => exact executor.rank_step_lt engine request _ w h

/-- Steps on until the request is answered. -/
def finishWith (counting : Counting) (executor : Executor L) (engine : Engine L σ)
    (request : Request L) (phase : Phase L) (w : World L σ) : Response × World L σ :=
  match _h : phase.response? with
  | some response => (response, w)
  | none =>
    let next := executor.stepWith counting engine request phase w
    executor.finishWith counting engine request next.1 next.2
termination_by phase.rank
decreasing_by exact executor.rank_stepWith_lt counting engine request phase w _h

/-- An answered request is left as it is. -/
theorem finishWith_of_answered (counting : Counting) (executor : Executor L) (engine : Engine L σ)
    (request : Request L) {phase : Phase L} {response : Response} (w : World L σ)
    (h : phase.response? = some response) :
    executor.finishWith counting engine request phase w = (response, w) := by
  rw [finishWith]; split <;> simp_all

/-- A request that is not answered takes a step and goes on from there. -/
theorem finishWith_of_unanswered (counting : Counting) (executor : Executor L)
    (engine : Engine L σ) (request : Request L) {phase : Phase L} (w : World L σ)
    (h : phase.response? = none) :
    executor.finishWith counting engine request phase w =
      executor.finishWith counting engine request
        (executor.stepWith counting engine request phase w).1
        (executor.stepWith counting engine request phase w).2 := by
  rw [finishWith]; split <;> simp_all

/-! ## Counting without a limit -/

/-- Steps on until the request is answered. -/
def finish (executor : Executor L) (engine : Engine L σ) (request : Request L) :
    Phase L → World L σ → Response × World L σ :=
  executor.finishWith .unbounded engine request

/-- Answers a request. -/
def execute (executor : Executor L) (engine : Engine L σ) (request : Request L) :
    StateM (World L σ) Response := executor.finish engine request .arrived

/-- An answered request is left as it is. -/
theorem finish_of_answered (executor : Executor L) (engine : Engine L σ) (request : Request L)
    {phase : Phase L} {response : Response} (w : World L σ) (h : phase.response? = some response) :
    executor.finish engine request phase w = (response, w) :=
  executor.finishWith_of_answered .unbounded engine request w h

/-- A request that is not answered takes a step and goes on from there. -/
theorem finish_of_unanswered (executor : Executor L) (engine : Engine L σ) (request : Request L)
    {phase : Phase L} (w : World L σ) (h : phase.response? = none) :
    executor.finish engine request phase w =
      executor.finish engine request (executor.step engine request phase w).1
        (executor.step engine request phase w).2 := by
  rw [finish, finishWith_of_unanswered _ _ _ _ _ h, stepWith_of_next rfl]

/-- A settled request that is not disturbed raises its two counters and is answered. -/
theorem finish_of_settled (executor : Executor L) (engine : Engine L σ) (request : Request L)
    (verdict : Verdict) (response : Response) (w : World L σ) :
    executor.finish engine request (.settled false verdict response) w =
      (response, (World.count executor.id (fun c => c.record verdict) w).2) := by
  rw [finish_of_unanswered _ _ _ _ rfl, finish_of_unanswered _ _ _ _ rfl,
    finish_of_answered _ _ _ _ rfl]
  exact congrArg (fun p => (response, p.2)) (World.count_count executor.id Counters.countRequest
    (fun c => c.countVerdict verdict) w)

end Executor
end TieredQuery
