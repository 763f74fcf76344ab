import TieredQuery.Proofs.Dictionary
import TieredQuery.Proofs.Dispatch.PureEngine
import TieredQuery.Proofs.Gateway.Body

/-!
# Handling events

A handler asks its executor once if the body of an event can be decoded, and not at all otherwise.
`Reply.Answers` says which status and which body go with a response; a reply answers one response
only, up to absent data (`Reply.answers_iff`). The headers are those of the handler's own and the
content type, which they may replace.

Finiteness is no condition on engines: a JSON value holds no infinite double, so every response has
it.

## Key results

- `Executor.eq_singleton_of_failed`: a request that fails as a whole has one error
- `Handler.handle_faithful`: what a handler does with any event
-/

namespace TieredQuery

variable {L : Language} {σ : Type}

/-! ## Failed requests -/

/-- A call that fails the request as a whole does so with one error. -/
theorem Call.eq_singleton_of_failed {call : Call L} {errors : List Diagnostic}
    (h : call.response? = some (.failed errors)) : ∃ error, errors = [error] := by
  -- only an error and a panic fail the request as a whole, and each of them with one error
  cases call with
  | parse source outcome => cases outcome <;> cases h <;> exact ⟨_, rfl⟩
  | validate schema document outcome =>
    cases outcome with
    | ok found => cases found <;> cases h
    | error impossible => exact nomatch impossible
    | panic payload => cases h; exact ⟨_, rfl⟩
  | compile schema document operationName outcome => cases outcome <;> cases h <;> exact ⟨_, rfl⟩
  | interpret interpretation outcome => cases outcome <;> cases h <;> exact ⟨_, rfl⟩
  | run artifact resolvers context variableValues outcome =>
    cases outcome <;> cases h <;> exact ⟨_, rfl⟩

/-- A request that fails as a whole has one error. -/
theorem Executor.eq_singleton_of_failed (executor : Executor L) (engine : Engine L σ)
    (request : Request L) (w : World L σ) {errors : List Diagnostic}
    (h : (executor.execute engine request w).1 = .failed errors) : ∃ error, errors = [error] := by
  obtain ⟨-, -, -, earlier, last, -, -, hlast⟩ :=
    executor.exchange_finish engine request w (Phase.reached_arrived executor request)
  exact Call.eq_singleton_of_failed (hlast.trans (congrArg some h))

namespace Gateway

open Json (Value)

/-! ## Replies -/

/-- Headers together with the content type of a JSON text, unless they have one of their own. -/
def withContentType (headers : Headers) : Headers :=
  if headers.contains "content-type" then headers
  else headers.insert "content-type" "application/json"

/-- The headers of a handler's own replace the content type, and add to it where they have none. -/
theorem merge_defaultHeaders (headers : Headers) :
    Reply.defaultHeaders.merge headers = withContentType headers := by
  refine Dictionary.ext_get? fun name => ?_
  have hdefault : Reply.defaultHeaders.get? name =
      if name = "content-type" then some "application/json" else none :=
    Dictionary.get?_insert _ _ _ _
  rw [Dictionary.get?_merge, hdefault, withContentType]
  -- Split by whether there is a content type of the handler's own, then by the name looked up.
  by_cases hown : headers.contains "content-type" = true
  · rw [if_pos hown]
    by_cases heq : name = "content-type"
    · rw [heq]
      exact Option.or_of_isSome hown
    · rw [if_neg heq, Option.or_none]
  · rw [if_neg hown, Dictionary.get?_insert]
    by_cases heq : name = "content-type"
    · rw [if_pos heq, if_pos heq, heq, Option.not_isSome_iff_eq_none.mp hown, Option.none_or]
    · rw [if_neg heq, if_neg heq, Option.or_none]

namespace Reply

/-- Whether a reply has the status and the body that go with a response. -/
def Answers (reply : Reply) : Response → Prop
  | .executed output => reply.status = 200 ∧ reply.body = output.toJson.render
  | .rejected errors =>
    reply.status = 400 ∧ reply.body = (Value.obj [("errors", Diagnostic.listToJson errors)]).render
  | .failed errors =>
    reply.status = 500 ∧ reply.body = (Value.obj [("errors", Diagnostic.listToJson errors)]).render

/-- A reply answers a response if status and body are those that go with it. -/
theorem answers_iff_replyTo {reply : Reply} {response : Response} : reply.Answers response ↔
    reply.status = (replyTo response).1 ∧ reply.body = (replyTo response).2.render := by
  cases response <;> exact Iff.rfl

/-- The reply that is made of a response answers it. -/
theorem answers_ofJson (headers : Option Headers) (response : Response) :
    (ofJson (replyTo response).1 headers (replyTo response).2).Answers response :=
  answers_iff_replyTo.mpr ⟨rfl, rfl⟩

/-- A reply answers one response only, up to absent data. -/
theorem answers_iff {reply : Reply} {response response' : Response} (h : reply.Answers response)
    (hfinite : response.Finite) (hfinite' : response'.Finite) :
    reply.Answers response' ↔ response'.filled = response.filled := by
  obtain ⟨hstatus, hbody⟩ := answers_iff_replyTo.mp h
  rw [answers_iff_replyTo, ← replyTo_eq_iff, hstatus, hbody]
  constructor
  · rintro ⟨hstatus', hbody'⟩
    -- finite values with one text are one value
    exact Prod.ext hstatus'.symm (Value.render_injective (finite_replyTo hfinite')
      (finite_replyTo hfinite) hbody'.symm)
  · intro heq
    rw [heq]
    exact ⟨rfl, rfl⟩

end Reply

/-! ## Events -/

/-- Of two notices the first was given first. -/
theorem notify_notify (first second : Notice) (w : World L σ) :
    (World.notify second (World.notify first w).2).2 =
      { w with notices := w.notices ++ [first, second] } := by
  show { w with notices := w.notices ++ [first] ++ [second] } = _
  rw [List.append_assoc, List.singleton_append]

namespace Handler

/-- An event whose body is a posted query is handed to the executor, and the reply is noted. -/
theorem handle_of_decoded (handler : Handler L) (engine : Engine L σ) {event : Event}
    {query : PostedQuery} (h : event.postedQuery = .ok query) (w : World L σ) :
    handler.handle engine event w =
      let executed := handler.executor.execute engine (handler.request event query) w
      (.ofJson (replyTo executed.1).1 (handler.headers.map (· event)) (replyTo executed.1).2,
        (World.notify (.replied (replyTo executed.1).1) executed.2).2) := by
  unfold handle
  rw [h]
  rfl

/-- An event with any other body is refused, and the executor is not asked. -/
theorem handle_of_rejected (handler : Handler L) (engine : Engine L σ) {event : Event}
    {reason : Json.DecodeError} (h : event.postedQuery = .error reason) (w : World L σ) :
    handler.handle engine event w =
      let message := (Rejection.invalidBody reason).message
      let answer := replyTo (.failed [.ofMessage message])
      (.ofJson answer.1 (handler.headers.map (· event)) answer.2,
        (World.notify (.replied answer.1) (World.notify (.eventRejected message) w).2).2) := by
  unfold handle
  rw [h]
  rfl

/-- What a handler does with any event. If the body is a posted query, the world is afterwards as
    the one execution of it with the context of the event has left it, but for the notice of the
    reply, and the reply answers the response of that execution, and no other up to absent data. If
    the body is none, the reply has the one error that says so, and nothing has happened but two
    notices, whatever the engine. Either way the headers are those of the handler's own, and the
    content type unless it is among them. -/
theorem handle_faithful (handler : Handler L) (engine : Engine L σ) (event : Event)
    (w : World L σ) :
    let reply := (handler.handle engine event w).1
    let after := (handler.handle engine event w).2
    reply.headers = withContentType ((handler.headers.map (· event)).getD .empty) ∧
    (∀ query, event.postedQuery = .ok query →
      let request : Request L :=
        ⟨query.query, query.variableValues, handler.context event, query.operationName⟩
      let response := (handler.executor.execute engine request w).1
      let executed := (handler.executor.execute engine request w).2
      after = { executed with notices := executed.notices ++ [.replied reply.status] } ∧
      reply.Answers response ∧
      (∀ errors, response = .failed errors → ∃ error, errors = [error]) ∧
      (response.Finite → ∀ other : Response, other.Finite →
        (reply.Answers other ↔ other.filled = response.filled))) ∧
    (∀ reason, event.postedQuery = .error reason →
      let message := (Rejection.invalidBody reason).message
      reply.Answers (.failed [.ofMessage message]) ∧
      after = { w with notices := w.notices ++ [.eventRejected message, .replied 500] } ∧
      ∀ engine' : Engine L σ, handler.handle engine' event w = (reply, after)) := by
  intro reply after
  have hheaders : ∀ status body,
      (Reply.ofJson status (handler.headers.map (· event)) body).headers =
        withContentType ((handler.headers.map (· event)).getD .empty) := fun _ _ =>
    merge_defaultHeaders _
  refine ⟨?_, ?_, ?_⟩
  · -- the headers do not depend on what became of the event
    cases hbody : event.postedQuery with
    | ok query =>
      show (handler.handle engine event w).1.headers = _
      rw [handle_of_decoded handler engine hbody w]
      exact hheaders _ _
    | error reason =>
      show (handler.handle engine event w).1.headers = _
      rw [handle_of_rejected handler engine hbody w]
      exact hheaders _ _
  · -- a decoded query is executed, and the reply made of its response
    intro query hbody request response executed
    have hhandled := handle_of_decoded handler engine hbody w
    have hreply : reply = .ofJson (replyTo response).1 (handler.headers.map (· event))
        (replyTo response).2 := congrArg Prod.fst hhandled
    have hanswers : reply.Answers response := hreply ▸ Reply.answers_ofJson _ response
    refine ⟨?_, hanswers, fun errors => handler.executor.eq_singleton_of_failed engine request w,
      fun hfinite other hother => Reply.answers_iff hanswers hfinite hother⟩
    rw [hreply]
    exact congrArg Prod.snd hhandled
  · -- without a query the engine is not asked, so any other would do
    intro reason hbody message
    have hhandled := fun engine' : Engine L σ => handle_of_rejected handler engine' hbody w
    have hreply : reply = .ofJson _ (handler.headers.map (· event)) _ :=
      congrArg Prod.fst (hhandled engine)
    exact ⟨hreply ▸ Reply.answers_ofJson _ _,
      (congrArg Prod.snd (hhandled engine)).trans (notify_notify _ _ w),
      fun engine' => (hhandled engine').trans (hhandled engine).symm⟩

end Handler

/-- A handler of echoes whose replies have the headers of the event. -/
def echoHandler : Handler echoLanguage :=
  { executor := (echoServer 0 {}).executor, context := fun _ => (), headers := some Event.headers }

/-- A query that is posted. -/
def echoEvent : Event := ⟨.post, .empty, "\x7b\"query\":\"a\"\x7d"⟩

/-- An event whose body breaks off. -/
def brokenEvent : Event := ⟨.post, Dictionary.empty.insert "content-type" "text/plain", "\x7b"⟩

/-- The data of a response, if it is a text, and the errors beside it. -/
def shownText? : Response → Option (String × List Diagnostic)
  | .executed ⟨some (.str s), errors⟩ => some (s, errors)
  | _ => none

/-- The echo of the posted query. -/
theorem execute_echoHandler :
    (echoHandler.executor.execute echo.engine ⟨"a", .empty, (), none⟩ (echoWorld 1)).1 =
      .executed (.ofData (.str "a")) := by
  generalize hresponse :
    (echoHandler.executor.execute echo.engine ⟨"a", .empty, (), none⟩ (echoWorld 1)).1 = response
  have hshown : shownText? (echoHandler.executor.execute echo.engine ⟨"a", .empty, (), none⟩
      (echoWorld 1)).1 = some ("a", []) := by decide +kernel
  rw [hresponse] at hshown
  -- the function that shows the response says which one it is
  unfold shownText? at hshown
  split at hshown
  next s errors =>
    cases hshown
    rfl
  next => cases hshown

/-- A posted query is echoed, which no other reply would answer, and a broken body is refused
    without being counted. -/
theorem handle_faithful_echoHandler :
    let reply := (echoHandler.handle echo.engine echoEvent (echoWorld 1)).1
    let refusal := echoHandler.handle echo.engine brokenEvent (echoWorld 1)
    reply.status = 200 ∧
    reply.headers = Dictionary.empty.insert "content-type" "application/json" ∧
    (∀ other : Response, other.Finite → reply.Answers other →
      other.filled = .executed (.ofData (.str "a"))) ∧
    refusal.1.headers = brokenEvent.headers ∧ refusal.1.status = 500 ∧
    refusal.2.counters = (echoWorld 1).counters := by
  intro reply refusal
  -- the theorem for the two events
  obtain ⟨hheaders, hdecoded, -⟩ := echoHandler.handle_faithful echo.engine echoEvent (echoWorld 1)
  obtain ⟨hheaders', -, hrejected⟩ :=
    echoHandler.handle_faithful echo.engine brokenEvent (echoWorld 1)
  have hquery : echoEvent.postedQuery = .ok ⟨"a", .empty, none⟩ := by cbv
  have hreason : ∃ reason, brokenEvent.postedQuery = .error reason := by
    cases hbody : brokenEvent.postedQuery with
    | error reason => exact ⟨reason, rfl⟩
    -- the body breaks off, so it is none
    | ok query =>
      have hnone : brokenEvent.postedQuery.toOption.isNone := by decide +kernel
      rw [hbody] at hnone
      cases hnone
  obtain ⟨reason, hreason⟩ := hreason
  obtain ⟨-, hanswers, -, honly⟩ := hdecoded _ hquery
  obtain ⟨⟨hstatus, -⟩, hafter, -⟩ := hrejected reason hreason
  have hresponse := execute_echoHandler
  change (echoHandler.executor.execute echo.engine
    ⟨"a", .empty, echoHandler.context echoEvent, none⟩ (echoWorld 1)).1 = _ at hresponse
  rw [hresponse] at hanswers honly
  refine ⟨hanswers.1, hheaders.trans ?_, ?_, hheaders'.trans ?_, hstatus, ?_⟩
  · exact Dictionary.ext_entries (by decide +kernel)
  · exact fun other hother hother' => (honly trivial other hother).mp hother'
  · exact Dictionary.ext_entries (by decide +kernel)
  · show (echoHandler.handle echo.engine brokenEvent (echoWorld 1)).2.counters = _
    rw [hafter]

end Gateway
end TieredQuery
