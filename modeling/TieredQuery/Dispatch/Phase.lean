import TieredQuery.World

/-!
# The phases of a request

A request goes through phases. Each phase names the one thing that is done next: an access of the
cache, a call of the engine, or the raising of a counter. `rank` falls with every step, so a request
takes at most ten.

A `Move` is what follows from the outcome of that one thing: the next phase, the notices given on
the way and the counters raised. Moves are plain values; they do not touch the cache and call no
engine.
-/

namespace TieredQuery

variable {L : Language}

/-- How far a request has come. -/
inductive Phase (L : Language) where
  /-- The cache is to be asked for an artifact. -/
  | arrived
  | parsing
  | validating (document : L.Document)
  /-- The occurrence of a valid query is to be counted. -/
  | planning (document : L.Document)
  | compiling (document : L.Document) (occurrences : Nat)
  /-- An artifact was compiled and is to be stored. -/
  | adopting (artifact : L.Artifact) (occurrences : Nat)
  /-- The query could not be compiled, which is to be remembered. -/
  | declining (document : L.Document) (occurrences : Nat)
  | interpreting (document : L.Document)
  /-- An artifact is to be run; if that succeeds, the request gets the verdict. -/
  | running (artifact : L.Artifact) (verdict : Verdict)
  /-- The verdict and the response are known and the counters are to be raised: first that of the
      requests, if it has not been yet, and then that of the verdict. -/
  | settled (counted : Bool) (verdict : Verdict) (response : Response)
  | done (verdict : Verdict) (response : Response)

namespace Phase

/-- A bound on the steps that are left. -/
def rank : Phase L → Nat
  | arrived => 10
  | parsing => 9
  | validating _ => 8
  | planning _ => 7
  | compiling .. => 6
  | adopting .. => 5
  | declining .. => 4
  | interpreting _ => 3
  | running .. => 3
  | settled false .. => 2
  | settled true .. => 1
  | done .. => 0

/-- The response, once the request is answered. A settled request is not yet. -/
def response? : Phase L → Option Response
  | done _ response => some response
  | _ => none

/-- The response, once it is known, whether or not the counters have been raised. -/
def settled? : Phase L → Option Response
  | settled _ _ response | done _ response => some response
  | _ => none

end Phase

/-- What follows from the outcome of a step. -/
structure Move (L : Language) where
  phase : Phase L
  notices : List Notice := []
  count : Counters → Counters := id

namespace Move

/-- The request is settled. Its counters are raised by steps of their own. -/
def answer (verdict : Verdict) (response : Response) (notices : List Notice := []) : Move L :=
  ⟨.settled false verdict response, notices, id⟩

/-- The request has failed. -/
def fail (key : Fingerprint) (failure : Failure) : Move L :=
  answer .failed (.ofFailure failure) [.failed key failure.message]

/-- The engine has panicked. -/
def panic (key : Fingerprint) (payload : Payload) : Move L :=
  answer .failed (.ofFailure (.internal payload.message)) [.panicked key payload.message]

/-- After the cache was asked. -/
def found (key : Fingerprint) (entry : Entry L.Artifact) : Move L :=
  match entry.artifact? with
  | some artifact => ⟨.running artifact .hit, [.runningCached key entry.occurrences], id⟩
  | none => ⟨.parsing, [], id⟩

/-- After parsing. -/
def parsed (key : Fingerprint) : Outcome Diagnostic L.Document → Move L
  | .ok document => ⟨.validating document, [], id⟩
  | .error diagnostic => fail key (.query diagnostic)
  | .panic payload => panic key payload

/-- After validation. -/
def validated (key : Fingerprint) (document : L.Document) :
    Outcome Empty (List Diagnostic) → Move L
  | .ok [] => ⟨.planning document, [], id⟩
  | .ok errors => answer .rejected (.rejected errors) [.rejected key errors.length]
  | .panic payload => panic key payload

/-- After the occurrence was counted. -/
def planned (key : Fingerprint) (document : L.Document) : Plan L.Artifact → Move L
  | .run artifact => ⟨.running artifact .race, [.runningConcurrent key], id⟩
  | .compile occurrences => ⟨.compiling document occurrences, [], id⟩
  | .interpret => ⟨.interpreting document, [], id⟩

/-- After the occurrence was to be counted: the addition may have panicked. -/
def plannedOr (key : Fingerprint) (document : L.Document) : Option (Plan L.Artifact) → Move L
  | some plan => planned key document plan
  | none => panic key (.text Counting.overflow)

/-- After compiling. A query that could not be compiled is counted, and remembered if the settings
    say so. That the call ends and that it is counted are one step: in between, others see no more
    of the request than before the call. -/
def compiled (key : Fingerprint) (tiering : Tiering) (document : L.Document) (occurrences : Nat) :
    Outcome Diagnostic (Compilation L.Artifact) → Move L
  | .ok (.artifact artifact) =>
    ⟨.adopting artifact occurrences, [.compiled key occurrences], id⟩
  | .ok (.declined reason) =>
    ⟨if tiering.remembers then .declining document occurrences else .interpreting document,
      [.declined key reason], Counters.decline⟩
  | .error diagnostic => fail key (.query diagnostic)
  | .panic payload => panic key payload

/-- After the artifact or the interpreter has run. -/
def ended (key : Fingerprint) (verdict : Verdict) : Outcome Diagnostic Output → Move L
  | .ok output => answer verdict (.executed output)
  | .error diagnostic => fail key (.query diagnostic)
  | .panic payload => panic key payload

/-- Makes a move of a request to an executor. -/
def make {σ : Type} (move : Move L) (executor : Nat) : StateM (World L σ) (Phase L) := do
  modify fun w => { w with notices := w.notices ++ move.notices }
  World.count executor move.count
  return move.phase

/-- Asking the cache is one step. -/
theorem rank_found (key : Fingerprint) (entry : Entry L.Artifact) :
    (found key entry).phase.rank ≤ 9 := by
  unfold found; split <;> simp [Phase.rank]

/-- Parsing is one step. -/
theorem rank_parsed (key : Fingerprint) (o : Outcome Diagnostic L.Document) :
    (parsed key o).phase.rank ≤ 8 := by
  cases o <;> simp [parsed, fail, panic, answer, Phase.rank]

/-- Validation is one step. -/
theorem rank_validated (key : Fingerprint) (document : L.Document)
    (o : Outcome Empty (List Diagnostic)) : (validated key document o).phase.rank ≤ 7 := by
  unfold validated; split <;> simp [panic, answer, Phase.rank]

/-- Planning is one step, and leads no later than to compiling. -/
theorem rank_planned (key : Fingerprint) (document : L.Document) (plan : Plan L.Artifact) :
    (planned key document plan).phase.rank ≤ 6 := by
  cases plan <;> simp [planned, Phase.rank]

/-- A panic of the addition ends the request sooner still. -/
theorem rank_plannedOr (key : Fingerprint) (document : L.Document)
    (plan? : Option (Plan L.Artifact)) : (plannedOr key document plan?).phase.rank ≤ 6 := by
  cases plan? with
  | some plan => exact rank_planned key document plan
  | none => exact (by decide : 2 ≤ 6)

/-- Compiling is one step, and leads no later than to storing the artifact. -/
theorem rank_compiled (key : Fingerprint) (tiering : Tiering) (document : L.Document)
    (occurrences : Nat) (o : Outcome Diagnostic (Compilation L.Artifact)) :
    (compiled key tiering document occurrences o).phase.rank ≤ 5 := by
  unfold compiled; split
  · simp [Phase.rank]
  · dsimp only; split <;> simp [Phase.rank]
  · simp [fail, answer, Phase.rank]
  · simp [panic, answer, Phase.rank]

/-- Once the query was executed, only the two counters are left to be raised. -/
theorem rank_ended (key : Fingerprint) (verdict : Verdict) (o : Outcome Diagnostic Output) :
    (ended (L := L) key verdict o).phase.rank = 2 := by
  cases o <;> rfl

end Move
end TieredQuery
