import Mathlib.Algebra.GroupWithZero.Nat
import Mathlib.Algebra.Order.BigOperators.Group.List
import Mathlib.Algebra.Order.Group.Nat
import TieredQuery.Proofs.Dispatch.PureEngine
import TieredQuery.Proofs.Traffic.Basic

/-!
# What the counters of an executor count

The counters of an executor are raised by the requests that it answers: once when a compilation is
declined, and twice at the end, first the count of requests and then that of the verdict. So each
counter is a sum over the requests made to the executor (`Traffic.total`), of what each of them has
contributed so far (`Accounts`). Between the last two additions a request is counted and has no
verdict yet (`Job.underway`), and by the number of such requests the count of requests is ahead. How
the counters compare with the calls of the engine is then a question about one request
(`Phase.Billed`): what its verdict says of the calls that were made for it.

The engine does not raise counters during its calls (`Engine.LeavesCounters`). A request that is
made during a call is one more request in the traffic, and raises the counters by its own steps.

## Key results

- `counters_step`: a step makes one addition at most
- `billed_step`: what is known of the number of calls in a phase
- `accounts_run`: each counter is a sum over the requests
- `counters_account_for_requests`
- `request_counted_before_verdict`: where the two additions for a request can be told apart
-/

namespace TieredQuery

variable {L : Language} {σ : Type}

/-! ## One request -/

/-- An engine whose calls leave the counters to the requests. -/
structure Engine.LeavesCounters (engine : Engine L σ) : Prop where
  parse : ∀ source w, (engine.parse source w).2.counters = w.counters
  validate : ∀ schema document w, (engine.validate schema document w).2.counters = w.counters
  compile : ∀ schema document operationName w,
    (engine.compile schema document operationName w).2.counters = w.counters
  interpret : ∀ interpretation w, (engine.interpret interpretation w).2.counters = w.counters
  run : ∀ artifact resolvers context variableValues w,
    (engine.run artifact resolvers context variableValues w).2.counters = w.counters

/-- A pure engine leaves the whole world as it is. -/
theorem PureEngine.engine_leavesCounters (functions : PureEngine L) :
    (functions.engine : Engine L σ).LeavesCounters :=
  ⟨fun _ _ => rfl, fun _ _ _ => rfl, fun _ _ _ _ => rfl, fun _ _ => rfl, fun _ _ _ _ _ => rfl⟩

namespace Counters

/-- The counter of a verdict. -/
def answered (c : Counters) : Verdict → Nat
  | .hit => c.compiledHits
  | .race => c.compiledRaces
  | .compiled => c.compilations
  | .interpreted => c.interpreted
  | .rejected => c.validationFailures
  | .failed => c.failures

/-- One addition to one of the counters. -/
inductive Addition where
  /-- A query could not be compiled. -/
  | decline
  /-- There was a request. -/
  | request
  | verdict (verdict : Verdict)
deriving DecidableEq

/-- Makes an addition, if there is one. -/
def add (c : Counters) : Option Addition → Counters
  | none => c
  | some .decline => c.decline
  | some .request => c.countRequest
  | some (.verdict verdict) => c.countVerdict verdict

variable (c : Counters) (addition? : Option Addition)

/-- The count of requests goes up with the first addition for a request. -/
theorem requests_add :
    (c.add addition?).requests = c.requests + if addition? = some .request then 1 else 0 := by
  rcases addition? with _ | _ | _ | _ | _ <;> rfl

/-- The count of failures to compile goes up with a declined compilation. -/
theorem compileFailures_add :
    (c.add addition?).compileFailures =
      c.compileFailures + if addition? = some .decline then 1 else 0 := by
  rcases addition? with _ | _ | _ | _ | _ <;> rfl

/-- The counter of a verdict goes up with the second one. -/
theorem answered_add (verdict : Verdict) :
    (c.add addition?).answered verdict =
      c.answered verdict + if addition? = some (.verdict verdict) then 1 else 0 := by
  rcases addition? with _ | _ | _ | given
  case some.verdict => cases given <;> cases verdict <;> rfl
  all_goals cases verdict <;> rfl

end Counters

/-- Whether a call has found that a query cannot be compiled. -/
def Call.isDeclined : Call L → Bool
  | compile _ _ _ (.ok (.declined _)) => true
  | _ => false

namespace Phase

/-- Whether a request has been counted. -/
def isCounted : Phase L → Bool
  | settled true _ _ | done _ _ => true
  | _ => false

/-- The verdict on a request, once it is answered. -/
def verdict? : Phase L → Option Verdict
  | done verdict _ => some verdict
  | _ => none

/-- A request has a verdict only after it was counted. -/
theorem verdict?_of_not_counted {phase : Phase L} (h : phase.isCounted = false) :
    phase.verdict? = none := by
  cases phase <;> first | rfl | cases h

/-- The addition that the next step makes for a request for which some calls are made by it. -/
def addition? (made : List (Call L)) : Phase L → Option Counters.Addition
  | settled false _ _ => some .request
  | settled true verdict _ => some (.verdict verdict)
  | _ => if made.any Call.isDeclined then some .decline else none

/-- Until a request is settled, nothing is added for it but a declined compilation. -/
theorem addition?_of_unsettled {phase : Phase L} (h : phase.settled? = none)
    (made : List (Call L)) :
    phase.addition? made = if made.any Call.isDeclined then some .decline else none := by
  cases phase <;> first | rfl | cases h

end Phase

namespace Move

/-- Whether a move counts what has happened before a request is settled: that compiling was
    declined, if it was. -/
structure Charges (move : Move L) (declined : Bool) : Prop where
  count : ∀ c, move.count c = c.add (if declined then some .decline else none)
  notCounted : move.phase.isCounted = false

/-- A move that raises no counter. -/
theorem charges_of_id {move : Move L} (hcount : move.count = id)
    (hphase : move.phase.isCounted = false) : move.Charges false :=
  ⟨fun c => congrFun hcount c, hphase⟩

/-- Looking for an artifact counts nothing. -/
theorem charges_found (key : Fingerprint) (entry : Entry L.Artifact) :
    (found key entry).Charges false := by
  unfold found
  split <;> exact charges_of_id rfl rfl

/-- Parsing counts nothing. -/
theorem charges_parsed (key : Fingerprint) (outcome : Outcome Diagnostic L.Document) :
    (parsed key outcome).Charges false := by
  cases outcome <;> exact charges_of_id rfl rfl

/-- Validating counts nothing. -/
theorem charges_validated (key : Fingerprint) (document : L.Document)
    (outcome : Outcome Empty (List Diagnostic)) :
    (validated key document outcome).Charges false := by
  unfold validated
  split <;> exact charges_of_id rfl rfl

/-- Planning counts nothing. -/
theorem charges_planned (key : Fingerprint) (document : L.Document) (plan : Plan L.Artifact) :
    (planned key document plan).Charges false := by
  cases plan <;> exact charges_of_id rfl rfl

/-- Compiling counts a failure if and only if the call has declined. -/
theorem charges_compiled (key : Fingerprint) (tiering : Tiering) (document : L.Document)
    (occurrences : Nat) (schema : L.Schema) (operationName : Option String)
    (outcome : Outcome Diagnostic (Compilation L.Artifact)) :
    (compiled key tiering document occurrences outcome).Charges
      (Call.compile schema document operationName outcome).isDeclined := by
  cases outcome with
  | ok result =>
    cases result with
    | artifact artifact => exact charges_of_id rfl rfl
    | declined reason =>
      -- the request goes on by one of two phases, neither of them settled
      unfold compiled
      dsimp only
      split <;> exact ⟨fun _ => rfl, rfl⟩
  | error diagnostic => exact charges_of_id rfl rfl
  | panic payload => exact charges_of_id rfl rfl

/-- An execution that is over has settled the request, which is counted by the steps after it. -/
theorem charges_ended (key : Fingerprint) (verdict : Verdict)
    (outcome : Outcome Diagnostic Output) : (ended (L := L) key verdict outcome).Charges false := by
  cases outcome <;> exact charges_of_id rfl rfl

/-- Making a move makes its addition for the executor, and counts no request. -/
theorem counters_make {move : Move L} {declined : Bool} (h : move.Charges declined) {id : Nat}
    {w w' : World L σ} (hcounters : w'.counters = w.counters) :
    (move.make id w').1.isCounted = false ∧ ∀ other, (move.make id w').2.counters other =
      if other = id then (w.counters id).add (if declined then some .decline else none)
      else w.counters other := by
  refine ⟨h.notCounted, fun other => ?_⟩
  show (if other = id then move.count (w'.counters id) else w'.counters other) = _
  rw [h.count, hcounters]

end Move

namespace Executor

/-- Until a request is settled, a step counts a declined compilation and nothing else. -/
theorem counters_step_of_unsettled (executor : Executor L) {engine : Engine L σ}
    (hleaves : engine.LeavesCounters) (request : Request L) {phase : Phase L}
    (hphase : phase.settled? = none) (w : World L σ) :
    (executor.step engine request phase w).1.isCounted = false ∧
    ∀ id, (executor.step engine request phase w).2.counters id =
      if id = executor.id then
        (w.counters executor.id).add
          (if (executor.made engine request phase w).any Call.isDeclined then some .decline
            else none)
      else w.counters id := by
  -- a step that makes no move leaves the counters
  have hsame : ∀ id, (if id = executor.id then w.counters executor.id else w.counters id) =
      w.counters id := by
    intro id
    split
    next heq => rw [heq]
    next => rfl
  -- Case split on the phase: the engine leaves the counters, and the move makes its addition.
  cases phase with
  | arrived => exact Move.counters_make (Move.charges_found _ _) rfl
  | parsing => exact Move.counters_make (Move.charges_parsed _ _) (hleaves.parse _ w)
  | validating document =>
    exact Move.counters_make (Move.charges_validated _ document _) (hleaves.validate _ _ w)
  | planning document => exact Move.counters_make (Move.charges_planned _ document _) rfl
  | compiling document occurrences =>
    have hmade : (executor.made engine request (.compiling document occurrences) w).any
        Call.isDeclined = (Call.compile executor.schema document request.operationName
          (engine.compile executor.schema document request.operationName w).1).isDeclined :=
      Bool.or_false _
    rw [hmade]
    exact Move.counters_make
      (Move.charges_compiled _ _ document occurrences executor.schema request.operationName _)
      (hleaves.compile _ _ _ w)
  | adopting artifact occurrences => exact ⟨rfl, fun id => (hsame id).symm⟩
  | declining document occurrences => exact ⟨rfl, fun id => (hsame id).symm⟩
  | interpreting document =>
    exact Move.counters_make (Move.charges_ended _ _ _) (hleaves.interpret _ _)
  | running artifact verdict =>
    exact Move.counters_make (Move.charges_ended _ _ _) (hleaves.run _ _ _ _ w)
  | settled counted verdict response => cases hphase
  | done verdict response => cases hphase

end Executor

/-- A step of a request that is not answered makes one addition for its executor, if any, and none
    for another. -/
theorem counters_step (executor : Executor L) {engine : Engine L σ}
    (hleaves : engine.LeavesCounters) (request : Request L) {phase : Phase L}
    (hphase : phase.response? = none) (w : World L σ) (id : Nat) :
    (executor.step engine request phase w).2.counters id =
      if id = executor.id then
        (w.counters executor.id).add (phase.addition? (executor.made engine request phase w))
      else w.counters id := by
  cases phase with
  | settled counted verdict response => cases counted <;> rfl
  | done verdict response => cases hphase
  | _ => exact (executor.counters_step_of_unsettled hleaves request rfl w).2 id

/-! ## The calls made for a request -/

/-- The numbers of calls to parse and to compile, and of compilations that were declined. -/
structure Bill where
  parses : Nat
  compiles : Nat
  declines : Nat

namespace Bill

/-- The bill for some calls. -/
def of (calls : List (Call L)) : Bill where
  parses := calls.countP fun call => call.kind = .parse
  compiles := calls.countP fun call => call.kind = .compile
  declines := calls.countP Call.isDeclined

/-- Two bills in one. -/
def add (bill bill' : Bill) : Bill where
  parses := bill.parses + bill'.parses
  compiles := bill.compiles + bill'.compiles
  declines := bill.declines + bill'.declines

/-- The bill for more calls is the sum of the bills. -/
theorem of_append (calls calls' : List (Call L)) :
    of (calls ++ calls') = (of calls).add (of calls') := by
  simp [of, add]

end Bill

namespace Phase

/-- What the phase of a request, and the verdict if it is answered, say of the calls made for it. -/
def Billed (bill : Bill) : Phase L → Prop
  | arrived | parsing | running _ .hit | settled _ .hit _ | done .hit _ => bill = ⟨0, 0, 0⟩
  | validating _ | planning _ | compiling _ _ => bill = ⟨1, 0, 0⟩
  | running _ .race | settled _ .race _ | done .race _ => bill = ⟨1, 0, 0⟩
  | settled _ .rejected _ | done .rejected _ => bill = ⟨1, 0, 0⟩
  | adopting _ _ | running _ .compiled | settled _ .compiled _ | done .compiled _ =>
    bill = ⟨1, 1, 0⟩
  | declining _ _ => bill = ⟨1, 1, 1⟩
  | interpreting _ | settled _ .interpreted _ | done .interpreted _ =>
    bill.parses = 1 ∧ bill.compiles = bill.declines ∧ bill.declines ≤ 1
  | settled _ .failed _ | done .failed _ =>
    bill.parses ≤ 1 ∧ bill.declines ≤ bill.compiles ∧ bill.compiles ≤ 1
  | running _ _ => False

variable {bill : Bill}

/-- Executing the query may fail, whatever the verdict would have been. -/
theorem billed_ended {verdict : Verdict} (response : Response) (key : Fingerprint)
    (outcome : Outcome Diagnostic Output)
    (h : Billed bill (.done verdict response : Phase L)) :
    Billed bill (Move.ended (L := L) key verdict outcome).phase := by
  -- whatever was called, a failure says no more of the bill than this
  have hfailed : bill.parses ≤ 1 ∧ bill.declines ≤ bill.compiles ∧ bill.compiles ≤ 1 := by
    cases verdict with
    | hit | race | compiled | rejected => cases h; decide
    | interpreted =>
      obtain ⟨hparses, hcompiles, hdeclines⟩ := h
      omega
    | failed => exact h
  cases outcome with
  | ok output => cases verdict <;> exact h
  | error diagnostic => exact hfailed
  | panic payload => exact hfailed

/-- Looking for an artifact calls nothing. -/
theorem billed_found (key : Fingerprint) (entry : Entry L.Artifact) :
    Billed ⟨0, 0, 0⟩ (Move.found key entry).phase := by
  unfold Move.found
  split <;> exact rfl

/-- The bill for parsing. -/
theorem billed_parsed (key : Fingerprint) (outcome : Outcome Diagnostic L.Document) :
    Billed ⟨1, 0, 0⟩ (Move.parsed key outcome).phase := by
  cases outcome <;> first | exact rfl | exact ⟨Nat.le_refl 1, Nat.zero_le _, Nat.zero_le 1⟩

/-- The bill for parsing and validating. -/
theorem billed_validated (key : Fingerprint) (document : L.Document)
    (outcome : Outcome Empty (List Diagnostic)) :
    Billed ⟨1, 0, 0⟩ (Move.validated key document outcome).phase := by
  unfold Move.validated
  split <;> first | exact rfl | exact ⟨Nat.le_refl 1, Nat.zero_le _, Nat.zero_le 1⟩

/-- Planning calls nothing. -/
theorem billed_planned (key : Fingerprint) (document : L.Document) (plan : Plan L.Artifact) :
    Billed ⟨1, 0, 0⟩ (Move.planned key document plan).phase := by
  cases plan <;> first | exact rfl | exact ⟨rfl, rfl, Nat.zero_le 1⟩

/-- The bill for compiling, as its outcome says. -/
theorem billed_compiled (key : Fingerprint) (tiering : Tiering) (document : L.Document)
    (occurrences : Nat) (schema : L.Schema) (operationName : Option String)
    (outcome : Outcome Diagnostic (Compilation L.Artifact)) :
    Billed (.add ⟨1, 0, 0⟩ (.of [Call.compile schema document operationName outcome]))
      (Move.compiled key tiering document occurrences outcome).phase := by
  cases outcome with
  | ok result =>
    cases result with
    | artifact artifact => exact rfl
    | declined reason =>
      unfold Move.compiled
      dsimp only
      split
      · exact rfl
      · exact ⟨rfl, rfl, Nat.le_refl 1⟩
  | error diagnostic => exact ⟨Nat.le_refl 1, Nat.zero_le 1, Nat.le_refl 1⟩
  | panic payload => exact ⟨Nat.le_refl 1, Nat.zero_le 1, Nat.le_refl 1⟩

end Phase

/-- A step adds its call to the bill. -/
theorem billed_step (executor : Executor L) (engine : Engine L σ) (request : Request L)
    {phase : Phase L} {calls : List (Call L)} (w : World L σ) (h : phase.Billed (.of calls)) :
    (executor.step engine request phase w).1.Billed
      (.of (calls ++ executor.made engine request phase w)) := by
  rw [Bill.of_append]
  -- Case split on the phase: the bill so far is known from it, and the call is added.
  cases phase with
  | arrived =>
    rw [show Bill.of calls = _ from h]
    exact Phase.billed_found _ _
  | parsing =>
    rw [show Bill.of calls = _ from h]
    exact Phase.billed_parsed _ _
  | validating document =>
    rw [show Bill.of calls = _ from h]
    exact Phase.billed_validated _ document _
  | planning document =>
    rw [show Bill.of calls = _ from h]
    exact Phase.billed_planned _ document _
  | compiling document occurrences =>
    rw [show Bill.of calls = _ from h]
    exact Phase.billed_compiled _ _ document occurrences _ _ _
  | adopting artifact occurrences => exact h
  | declining document occurrences =>
    rw [show Bill.of calls = _ from h]
    exact ⟨rfl, rfl, Nat.le_refl 1⟩
  | interpreting document => exact Phase.billed_ended (.failed []) _ _ h
  | running artifact verdict =>
    cases verdict with
    | hit | race | compiled => exact Phase.billed_ended (.failed []) _ _ h
    | interpreted | rejected | failed => exact h.elim
  | settled counted verdict response =>
    -- nothing is called any more, and the verdict stays
    cases counted <;> cases verdict <;> exact h
  | done verdict response => exact h

/-! ## Sums over the requests to an executor -/

namespace Job

/-- The bill of a request. -/
def bill (job : Job L σ) : Bill := .of job.calls

/-! Facts about a request, each as a number that can be added up. -/

/-- One for a request that is not answered yet. -/
def inFlight (job : Job L σ) : Nat := if job.phase.verdict? = none then 1 else 0

/-- One for a request that has been counted. -/
def counted (job : Job L σ) : Nat := if job.phase.isCounted then 1 else 0

/-- Whether a request has been counted and its verdict not yet. -/
def underway (job : Job L σ) : Nat :=
  if job.phase.isCounted ∧ job.phase.verdict? = none then 1 else 0

/-- One for a request that has been answered. -/
def answered (job : Job L σ) : Nat := if job.phase.verdict?.isSome then 1 else 0

/-- One for a request that has been answered with a verdict. -/
def answeredAs (verdict : Verdict) (job : Job L σ) : Nat :=
  if job.phase.verdict? = some verdict then 1 else 0

/-- What has been counted is answered, or is being counted. -/
theorem counted_eq (job : Job L σ) : job.counted = job.answered + job.underway := by
  unfold counted answered underway
  cases job.phase with
  | settled counted verdict response => cases counted <;> rfl
  | _ => rfl

/-- A request between its two additions is in flight. -/
theorem underway_le_inFlight (job : Job L σ) : job.underway ≤ job.inFlight := by
  unfold underway inFlight
  split
  next h => rw [if_pos h.2]
  next => exact Nat.zero_le _

/-- The addition that the next step of a request makes. -/
def addition? (job : Job L σ) (w : World L σ) : Option Counters.Addition :=
  job.phase.addition? (job.server.executor.made job.server.engine job.request job.phase w)

/-- How a request that is not answered is moved by a step, and what the step adds: it is settled
    neither before nor counted after, or it is counted, or its verdict is. -/
inductive Counts (job : Job L σ) (w : World L σ) : Prop where
  | open (hphase : job.phase.isCounted = false) (hnext : (job.step w).1.phase.isCounted = false)
      (hadds : job.addition? w = none ∨ job.addition? w = some .decline)
  | request (hphase : job.phase.isCounted = false)
      (hnext : (job.step w).1.phase.isCounted = true)
      (hverdict : (job.step w).1.phase.verdict? = none) (hadds : job.addition? w = some .request)
  | verdict (verdict : Verdict) (hphase : job.phase.isCounted = true)
      (hopen : job.phase.verdict? = none)
      (hnext : (job.step w).1.phase.isCounted = true)
      (hverdict : (job.step w).1.phase.verdict? = some verdict)
      (hadds : job.addition? w = some (.verdict verdict))

/-- A step of a request that is not answered counts in one of these ways. -/
theorem counts_step {job : Job L σ} (hleaves : job.server.engine.LeavesCounters)
    (hphase : job.phase.response? = none) (w : World L σ) : job.Counts w := by
  obtain ⟨server, request, phase, calls⟩ := job
  -- Case split on the phase: only a settled request makes one of its two additions.
  cases phase with
  | settled counted verdict response =>
    cases counted with
    | false => exact .request rfl rfl rfl rfl
    | true => exact .verdict verdict rfl rfl rfl rfl rfl
  | done verdict response => cases hphase
  | _ =>
    refine .open rfl (server.executor.counters_step_of_unsettled hleaves request rfl w).1 ?_
    rw [addition?, Phase.addition?_of_unsettled rfl]
    split
    · exact Or.inr rfl
    · exact Or.inl rfl

/-- An answered request does not move. -/
theorem step_of_answered (job : Job L σ) {w : World L σ} {response : Response}
    (h : job.phase.response? = some response) : job.step w = (job, w) := by
  obtain ⟨server, request, phase, calls⟩ := job
  cases phase with
  | done verdict response =>
    show (({ server, request, phase := .done verdict response, calls := calls ++ [] } : Job L σ), w)
      = _
    rw [List.append_nil]
  | _ => cases h

/-- What a request contributes to a sum over those to an executor. -/
def share (id : Nat) (measure : Job L σ → Nat) (job : Job L σ) : Nat :=
  if job.server.executor.id = id then measure job else 0

end Job

/-- A sum changes with one of its terms. -/
theorem sum_map_set {α : Type} (f : α → Nat) {l : List α} {i : Nat} {a : α} (h : l[i]? = some a)
    (b : α) : ((l.set i b).map f).sum + f a = (l.map f).sum + f b := by
  -- on the list, with the term in its head or in the rest
  induction l generalizing i with
  | nil => simp at h
  | cons head rest ih =>
    cases i with
    | zero =>
      obtain rfl : head = a := by simpa using h
      simp only [List.set_cons_zero, List.map_cons, List.sum_cons]
      omega
    | succ i =>
      have hrest := ih (by simpa using h)
      simp only [List.set_cons_succ, List.map_cons, List.sum_cons]
      omega

namespace Traffic

/-- A sum over the requests to an executor. -/
def total (t : Traffic L σ) (id : Nat) (measure : Job L σ → Nat) : Nat :=
  (t.jobs.map (Job.share id measure)).sum

variable {t : Traffic L σ} {id : Nat}

/-- Sums over the requests to an executor are added term by term. -/
theorem total_add (t : Traffic L σ) (id : Nat) (f g : Job L σ → Nat) :
    t.total id (fun job => f job + g job) = t.total id f + t.total id g := by
  rw [total, total, total, ← List.sum_map_add]
  refine congrArg List.sum (List.map_congr_left fun job _ => ?_)
  unfold Job.share
  split <;> rfl

/-- Sums over the requests to an executor are compared term by term. -/
theorem total_le_total (id : Nat) {f g : Job L σ → Nat} (h : ∀ job ∈ t.jobs, f job ≤ g job) :
    t.total id f ≤ t.total id g := by
  refine List.sum_le_sum fun job hjob => ?_
  unfold Job.share
  split
  · exact h job hjob
  · exact Nat.le_refl 0

/-- Whether a counter of an executor goes up as a sum over its requests does, with every step. -/
def Totals (σ : Type) (id : Nat) (read : Counters → Nat) (measure : Job L σ → Nat) : Prop :=
  (∀ server request, measure { server, request } = 0) ∧
  ∀ (job : Job L σ) (w : World L σ), job.server.engine.LeavesCounters →
    read ((job.step w).2.counters id) + job.share id measure =
      read (w.counters id) + (job.step w).1.share id measure

/-- It does if both go up by the same with every addition. -/
theorem totals_of_gain {read : Counters → Nat} {measure : Job L σ → Nat}
    (gain : Option Counters.Addition → Nat)
    (hread : ∀ c addition?, read (Counters.add c addition?) = read c + gain addition?)
    (hnew : ∀ server request, measure { server, request } = 0)
    (hmeasure : ∀ (job : Job L σ) w, job.server.engine.LeavesCounters →
      job.phase.response? = none →
      measure (job.step w).1 = measure job + gain (job.addition? w)) :
    Totals σ id read measure := by
  refine ⟨hnew, fun job w hleaves => ?_⟩
  -- an answered request adds nothing, and one to another executor has no share
  cases hphase : job.phase.response? with
  | some response => rw [job.step_of_answered hphase]
  | none =>
    have hcounters := counters_step job.server.executor hleaves job.request hphase w id
    change (job.step w).2.counters id = _ at hcounters
    have hshare : (job.step w).1.share id measure =
        if job.server.executor.id = id then measure (job.step w).1 else 0 := rfl
    rw [hcounters, hshare, Job.share, hmeasure job w hleaves hphase]
    by_cases hown : job.server.executor.id = id
    · rw [if_pos hown, if_pos hown.symm, if_pos hown, hread, hown]
      rw [Nat.add_right_comm, Nat.add_assoc]
      rfl
    · rw [if_neg hown, if_neg (Ne.symm hown), if_neg hown]

/-- The count of requests is the number of those that have been counted. -/
theorem totals_counted (id : Nat) : Totals (L := L) σ id Counters.requests Job.counted := by
  refine totals_of_gain (fun addition? => if addition? = some .request then 1 else 0)
    Counters.requests_add (fun _ _ => rfl) fun job w hleaves hunanswered => ?_
  unfold Job.counted
  -- Case split on what the step counts: only the first addition changes either side.
  cases Job.counts_step hleaves hunanswered w with
  | «open» hphase hnext hadds =>
    rw [hphase, hnext]
    rcases hadds with hadds | hadds <;> rw [hadds] <;> rfl
  | request hphase hnext hverdict hadds =>
    rw [hphase, hnext, hadds]
    rfl
  | verdict verdict hphase hopen hnext hverdict hadds =>
    rw [hphase, hnext, hadds]
    rfl

/-- The counter of a verdict is the number of requests answered with it. -/
theorem totals_answeredAs (id : Nat) (verdict : Verdict) :
    Totals (L := L) σ id (Counters.answered · verdict) (Job.answeredAs verdict) := by
  refine totals_of_gain (fun addition? => if addition? = some (.verdict verdict) then 1 else 0)
    (Counters.answered_add · · verdict) (fun _ _ => rfl) fun job w hleaves hunanswered => ?_
  unfold Job.answeredAs
  -- Case split on what the step counts: only the second addition changes either side.
  cases Job.counts_step hleaves hunanswered w with
  | «open» hphase hnext hadds =>
    rw [Phase.verdict?_of_not_counted hphase, Phase.verdict?_of_not_counted hnext]
    rcases hadds with hadds | hadds <;> rw [hadds] <;> rfl
  | request hphase hnext hverdict hadds =>
    rw [Phase.verdict?_of_not_counted hphase, hverdict, hadds]
    rfl
  | verdict given hphase hopen hnext hverdict hadds =>
    rw [hopen, hverdict, hadds]
    simp

/-- A step makes one call at most, so it is declined at most once. -/
theorem declines_made (executor : Executor L) (engine : Engine L σ) (request : Request L)
    (phase : Phase L) (w : World L σ) :
    (Bill.of (executor.made engine request phase w)).declines =
      if (if (executor.made engine request phase w).any Call.isDeclined then
          some Counters.Addition.decline else none) = some .decline then 1 else 0 := by
  rw [Executor.made_eq_call]
  cases executor.call engine request phase w with
  | none => rfl
  | some p =>
    simp only [Bill.of, Option.map_some, Option.toList_some, List.countP_singleton, List.any_cons,
      List.any_nil, Bool.or_false]
    cases p.1.isDeclined <;> rfl

/-- The counter of declined compilations is the number of calls that have declined. -/
theorem totals_declines (id : Nat) :
    Totals (L := L) σ id Counters.compileFailures fun job => job.bill.declines := by
  refine totals_of_gain (fun addition? => if addition? = some .decline then 1 else 0)
    Counters.compileFailures_add (fun _ _ => rfl) fun job w hleaves hunanswered => ?_
  have hbill : (job.step w).1.bill = job.bill.add
      (.of (job.server.executor.made job.server.engine job.request job.phase w)) :=
    Bill.of_append ..
  rw [hbill]
  refine congrArg (job.bill.declines + ·) ?_
  unfold Job.addition?
  cases hphase : job.phase with
  | settled counted verdict response =>
    -- nothing is called when one of the other counters is raised
    cases counted <;> rfl
  | done verdict response => rfl
  | _ =>
    rw [Phase.addition?_of_unsettled rfl]
    exact declines_made ..

/-- An event keeps a counter equal to a sum that goes up as it does. -/
theorem totals_after {read : Counters → Nat} {measure : Job L σ → Nat}
    (htotals : Totals σ id read measure)
    (hleaves : ∀ job ∈ t.jobs, job.server.engine.LeavesCounters)
    (h : read (t.world.counters id) = t.total id measure) (event : Event L σ) :
    read ((t.after event).world.counters id) = (t.after event).total id measure := by
  cases event with
  | arrive server request =>
    -- a new request has no share in any sum
    let job : Job L σ := { server, request }
    have hshare : job.share id measure = 0 := by
      rw [Job.share, htotals.1]
      exact ite_self 0
    show read (t.world.counters id) = ((t.jobs ++ [job]).map (Job.share id measure)).sum
    rw [h, List.map_append, List.sum_append, List.map_singleton, List.sum_singleton, hshare]
    rfl
  | step i =>
    cases hjob : t.jobs[i]? with
    | none => rw [after_step_of_none hjob, h]
    | some job =>
      -- one counter and one term of the sum go up by the same
      have hmoved := htotals.2 job t.world (hleaves job (List.mem_of_getElem? hjob))
      have hset := sum_map_set (Job.share id measure) hjob (job.step t.world).1
      rw [after_step hjob]
      show read ((job.step t.world).2.counters id) =
        ((t.jobs.set i (job.step t.world).1).map (Job.share id measure)).sum
      change read (t.world.counters id) = (t.jobs.map (Job.share id measure)).sum at h
      omega
  | _ => exact h

/-- What the counters of an executor are, and what is known of the requests in flight. -/
structure Accounts (t : Traffic L σ) (id : Nat) : Prop where
  leaves : ∀ job ∈ t.jobs, job.server.engine.LeavesCounters
  billed : ∀ job ∈ t.jobs, job.phase.Billed job.bill
  requests : (t.world.counters id).requests = t.total id Job.counted
  answered : ∀ verdict,
    (t.world.counters id).answered verdict = t.total id (Job.answeredAs verdict)
  declines : (t.world.counters id).compileFailures = t.total id fun job => job.bill.declines

/-- One event keeps the accounts. -/
theorem accounts_after (h : t.Accounts id) {event : Event L σ}
    (hleaves : ∀ server request, event = .arrive server request →
      server.engine.LeavesCounters) : (t.after event).Accounts id where
  leaves := forall_jobs_after h.leaves (fun server request heq => hleaves server request heq)
    fun _ job _ hjob => h.leaves job (List.mem_of_getElem? hjob)
  billed := forall_jobs_after h.billed (fun _ _ _ => rfl) fun _ job _ hjob =>
    billed_step _ _ _ t.world (h.billed job (List.mem_of_getElem? hjob))
  requests := totals_after (totals_counted id) h.leaves h.requests event
  answered verdict :=
    totals_after (totals_answeredAs id verdict) h.leaves (h.answered verdict) event
  declines := totals_after (totals_declines id) h.leaves h.declines event

/-- A run keeps the accounts. -/
theorem accounts_run (h : t.Accounts id) {events : List (Event L σ)}
    (hleaves : ∀ server request, .arrive server request ∈ events →
      server.engine.LeavesCounters) : (t.run events).Accounts id := by
  induction events generalizing t with
  | nil => exact h
  | cons event events ih =>
    refine ih (accounts_after h fun server request heq => ?_) fun server request hmem =>
      hleaves server request (List.mem_cons_of_mem _ hmem)
    exact hleaves server request (heq ▸ List.mem_cons_self)

/-! ## How the counters compare -/

/-- What the phase of a request and the verdict say of its bill, as the sums are to be compared. -/
theorem bounds_of_billed {job : Job L σ} (h : job.phase.Billed job.bill) :
    job.bill.declines ≤ job.answeredAs .interpreted + job.answeredAs .failed + job.inFlight ∧
    job.answered ≤ job.bill.parses + job.answeredAs .hit + job.answeredAs .failed ∧
    job.bill.parses + job.answeredAs .hit ≤ job.answered + job.inFlight ∧
    job.answeredAs .compiled + job.bill.declines ≤ job.bill.compiles ∧
    job.bill.compiles ≤
      job.answeredAs .compiled + job.bill.declines + job.answeredAs .failed + job.inFlight := by
  unfold Job.inFlight Job.answered Job.answeredAs
  generalize job.bill = bill at h ⊢
  obtain ⟨parses, compiles, declines⟩ := bill
  -- Case split on the phase, and on the verdict where there is one: each bill is known from it.
  cases hphase : job.phase with
  | done verdict response =>
    rw [hphase] at h
    cases verdict <;> simp [Phase.Billed, Phase.verdict?] at h ⊢ <;> omega
  | settled counted verdict response =>
    rw [hphase] at h
    cases verdict <;> simp [Phase.Billed, Phase.verdict?] at h ⊢ <;> omega
  | running artifact verdict =>
    rw [hphase] at h
    cases verdict <;> simp [Phase.Billed, Phase.verdict?] at h ⊢ <;> omega
  | _ =>
    rw [hphase] at h
    simp [Phase.Billed, Phase.verdict?] at h ⊢
    omega

/-- A request has one verdict. -/
theorem answered_eq_sum (job : Job L σ) :
    job.answered = job.answeredAs .hit + job.answeredAs .race + job.answeredAs .compiled +
      job.answeredAs .interpreted + job.answeredAs .rejected + job.answeredAs .failed := by
  unfold Job.answered Job.answeredAs
  rcases job.phase.verdict? with _ | _ | _ <;> rfl

/-- What holds of each request is added up over all of them. -/
theorem bounds_of_accounts (h : t.Accounts id) :
    (t.world.counters id).compileFailures ≤ (t.world.counters id).interpreted +
      (t.world.counters id).failures + t.total id Job.inFlight ∧
    t.total id Job.answered ≤ t.total id (·.bill.parses) +
      (t.world.counters id).compiledHits + (t.world.counters id).failures ∧
    t.total id (·.bill.parses) + (t.world.counters id).compiledHits ≤
      t.total id Job.answered + t.total id Job.inFlight ∧
    (t.world.counters id).compilations + (t.world.counters id).compileFailures ≤
      t.total id (·.bill.compiles) ∧
    t.total id (·.bill.compiles) ≤ (t.world.counters id).compilations +
      (t.world.counters id).compileFailures + (t.world.counters id).failures +
      t.total id Job.inFlight := by
  -- Each of the bounds on a request is summed up, and the sums of verdicts are counters.
  have hbounds := fun job hjob => bounds_of_billed (h.billed job hjob)
  have hdeclined := total_le_total id fun job hjob => (hbounds job hjob).1
  have hanswered := total_le_total id fun job hjob => (hbounds job hjob).2.1
  have hparses := total_le_total id fun job hjob => (hbounds job hjob).2.2.1
  have hcompiled := total_le_total id fun job hjob => (hbounds job hjob).2.2.2.1
  have hcompiles := total_le_total id fun job hjob => (hbounds job hjob).2.2.2.2
  simp only [total_add, ← h.answered, ← h.declines]
    at hdeclined hanswered hparses hcompiled hcompiles
  exact ⟨hdeclined, hanswered, hparses, hcompiled, hcompiles⟩

/-- Every answered request has one verdict, so the counters of the verdicts add up to them. -/
theorem answered_of_accounts (h : t.Accounts id) :
    t.total id Job.answered = (t.world.counters id).compiledHits +
      (t.world.counters id).compiledRaces + (t.world.counters id).compilations +
      (t.world.counters id).interpreted + (t.world.counters id).validationFailures +
      (t.world.counters id).failures := by
  have hsum := congrArg (t.total id) (funext answered_eq_sum)
  simp only [total_add, ← h.answered] at hsum
  exact hsum

/-- The count of requests is ahead of the answers by the requests between their two additions. -/
theorem requests_of_accounts (h : t.Accounts id) :
    (t.world.counters id).requests = t.total id Job.answered + t.total id Job.underway := by
  rw [h.requests, ← total_add]
  exact congrArg (t.total id) (funext Job.counted_eq)

/-- Nothing has been counted of requests that are still to be made. -/
theorem accounts_of_nil (hjobs : t.jobs = []) (hzero : t.world.counters id = {}) :
    t.Accounts id := by
  have hnone : ∀ job, job ∉ t.jobs := fun job => hjobs ▸ List.not_mem_nil
  have htotal : ∀ measure, t.total id measure = 0 := fun measure => by rw [total, hjobs]; rfl
  refine ⟨fun job hjob => (hnone job hjob).elim, fun job hjob => (hnone job hjob).elim, ?_, ?_, ?_⟩
  · rw [hzero, htotal]
  · intro verdict
    rw [hzero, htotal]
    cases verdict <;> rfl
  · rw [hzero, htotal]

/-- The counters of an executor at any point of a run in which they started at zero. Every answered
    request has raised the counter of its verdict, no other of these, and the count of requests,
    which is ahead of the verdicts by the requests that stand between their two additions; where
    there are none it is the sum of the counters of the verdicts and the number of the requests
    answered. Compilations are declined only by requests that were interpreted, have failed or are
    in flight. When none is in flight, the calls to parse and to compile that were made for the
    executor are known from the counters up to the failures. -/
theorem counters_account_for_requests {t : Traffic L σ} {id : Nat} (hjobs : t.jobs = [])
    (hzero : t.world.counters id = {}) {events : List (Event L σ)}
    (hleaves : ∀ server request, .arrive server request ∈ events →
      server.engine.LeavesCounters) :
    let later := t.run events
    let c := later.world.counters id
    let underway := later.total id Job.underway
    let inFlight := later.total id Job.inFlight
    let parses := later.total id (·.bill.parses)
    let compiles := later.total id (·.bill.compiles)
    c.requests = c.compiledHits + c.compiledRaces + c.compilations + c.interpreted +
      c.validationFailures + c.failures + underway ∧
    c.requests = later.total id Job.answered + underway ∧
    underway ≤ inFlight ∧
    (∀ verdict, c.answered verdict = later.total id (Job.answeredAs verdict)) ∧
    c.compileFailures ≤ c.interpreted + c.failures + inFlight ∧
    (inFlight = 0 →
      c.requests ≤ parses + c.compiledHits + c.failures ∧
      parses + c.compiledHits ≤ c.requests ∧
      c.compilations + c.compileFailures ≤ compiles ∧
      compiles ≤ c.compilations + c.compileFailures + c.failures) := by
  intro later c underway inFlight parses compiles
  have hlater := accounts_run (accounts_of_nil hjobs hzero) hleaves
  have hrequests : c.requests = later.total id Job.answered + underway :=
    requests_of_accounts hlater
  have hunderway : underway ≤ inFlight :=
    total_le_total id fun job _ => job.underway_le_inFlight
  obtain ⟨hdeclined, hanswered, hparses, hcompiled, hcompiles⟩ := bounds_of_accounts hlater
  -- what holds of each request was summed up, and the sums are the counters
  refine ⟨?_, hrequests, hunderway, hlater.answered, hdeclined, fun hnone => ?_⟩
  · rw [hrequests, answered_of_accounts hlater]
  · -- nothing is under way either, so the requests are those that were answered
    have hsettled : c.requests = later.total id Job.answered := by omega
    refine ⟨hsettled ▸ hanswered, ?_, hcompiled, ?_⟩
    · rw [hsettled]
      exact (hnone ▸ hparses : parses + c.compiledHits ≤ later.total id Job.answered + 0)
    · exact (hnone ▸ hcompiles :
        compiles ≤ c.compilations + c.compileFailures + c.failures + 0)

/-- A query that cannot be parsed, and the steps up to the first addition for it. -/
def echoHalfCounted : List (Event echoLanguage Unit) :=
  [.arrive (echoServer 0 {}) (echoRequest ""), .step 0, .step 0, .step 0]

/-- Between its two additions a request is counted, but has no verdict and is not answered. -/
theorem request_counted_before_verdict :
    let later := (⟨echoWorld 2, []⟩ : Traffic echoLanguage Unit).run echoHalfCounted
    let c := later.world.counters 0
    c.requests ≠ c.compiledHits + c.compiledRaces + c.compilations + c.interpreted +
      c.validationFailures + c.failures ∧
    c.requests ≠ later.total 0 Job.answered ∧
    later.total 0 Job.underway = 1 := by
  decide +kernel

/-- Three requests in turns: the first cannot be compiled, the second not be parsed, and the third
    is compiled. -/
def echoTurns : List (Event echoLanguage Unit) :=
  [.arrive (echoServer 0 {}) (echoRequest "#"), .arrive (echoServer 0 {}) (echoRequest ""),
    .arrive (echoServer 0 {}) (echoRequest "a")] ++ (List.range 30).map fun n => .step (n % 3)

/-- All three are answered, so the calls to compile are known up to the one failure. -/
theorem counters_account_for_requests_echoTurns :
    let later := (⟨echoWorld 2, []⟩ : Traffic echoLanguage Unit).run echoTurns
    later.total 0 Job.answered = 3 ∧
    2 ≤ later.total 0 (·.bill.compiles) ∧ later.total 0 (·.bill.compiles) ≤ 3 := by
  intro later
  obtain ⟨hcounters, hnone⟩ :
      later.world.counters 0 =
        { requests := 3, compilations := 1, compileFailures := 1, interpreted := 1,
          failures := 1 } ∧
      later.total 0 Job.inFlight = 0 := by decide +kernel
  have hleaves : ∀ server request, Event.arrive server request ∈ echoTurns →
      server.engine.LeavesCounters := by
    intro server request hmem
    have hserver : server = echoServer 0 {} := by
      rcases List.mem_append.mp hmem with harrives | hsteps
      · simp only [List.mem_cons, Event.arrive.injEq, List.not_mem_nil, or_false] at harrives
        rcases harrives with ⟨rfl, -⟩ | ⟨rfl, -⟩ | ⟨rfl, -⟩ <;> rfl
      · obtain ⟨n, -, hstep⟩ := List.mem_map.mp hsteps
        cases hstep
    exact hserver ▸ echo.engine_leavesCounters
  have hjobs : (⟨echoWorld 2, []⟩ : Traffic echoLanguage Unit).jobs = [] := rfl
  have hzero : (echoWorld 2).counters 0 = {} := rfl
  obtain ⟨-, hanswered, hunderway, -, -, hcalls⟩ :=
    counters_account_for_requests hjobs hzero hleaves
  obtain ⟨-, -, hless, hmore⟩ := hcalls hnone
  change (later.world.counters 0).requests = _ at hanswered
  change _ ≤ later.total 0 Job.inFlight at hunderway
  change (later.world.counters 0).compilations + (later.world.counters 0).compileFailures ≤ _
    at hless
  change _ ≤ (later.world.counters 0).compilations + (later.world.counters 0).compileFailures +
    (later.world.counters 0).failures at hmore
  rw [hcounters] at hanswered hless hmore
  rw [hnone, Nat.le_zero] at hunderway
  rw [hunderway] at hanswered
  exact ⟨hanswered.symm, hless, hmore⟩

end Traffic
end TieredQuery
