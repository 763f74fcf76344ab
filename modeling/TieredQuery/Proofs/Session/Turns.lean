import TieredQuery.Proofs.Cache.Room
import TieredQuery.Proofs.Dispatch.Undisturbed

/-!
# Sessions

A session is a sequence of turns: requests, each answered by a server of its own before the next
turn comes, time that passes, and clearing and purging the cache. `Session.answers` lists how the
requests were answered, by which calls of the engine, and what each left in the slot of its query.

As long as the session has no more query texts than fit into the cache, a turn touches the slot of
no query but the one that it asks for, other than by clearing and purging all of them.

## Key results

- `answers_append`: the answers of a longer session
- `fits_run`: the cache has room for all texts of the session
- `slot?_execute_of_fits`: the slots of other queries stay
-/

namespace TieredQuery

variable {L : Language} {σ : Type}

/-- What happens next in a session. -/
inductive Turn (L : Language) (σ : Type) where
  /-- A request is answered. -/
  | serve (server : Server L σ) (request : Request L)
  | advance (nanoseconds : Nat)
  | clear
  | purge

/-- How a request was answered. -/
structure Answer (L : Language) where
  query : String
  /-- When the request came. -/
  time : Nat
  response : Response
  calls : List (Call L)
  /-- The slot of the query afterwards. -/
  left : Option (Slot (Entry L.Artifact))

namespace Turn

/-- The query text that is asked for. -/
def query? : Turn L σ → Option String
  | serve _ request => some request.query
  | _ => none

/-- The world after a turn. -/
def after : Turn L σ → World L σ → World L σ
  | serve server request, w => (server.executor.execute server.engine request w).2
  | advance nanoseconds, w => (World.advance nanoseconds w).2
  | clear, w => (World.clear w).2
  | purge, w => (World.purge w).2

/-- How a request is answered. -/
def answer? : Turn L σ → World L σ → Option (Answer L)
  | serve server request, w =>
    let answered := server.executor.execute server.engine request w
    some {
      query := request.query
      time := w.now
      response := answered.1
      calls := server.executor.calls server.engine request .arrived w
      left := answered.2.cache.slot? (.ofText request.query) }
  | _, _ => none

/-- A turn asks for a query only if it is a request. -/
theorem query?_eq_none_or (turn : Turn L σ) :
    turn.query? = none ∨ ∃ server request, turn = .serve server request := by
  cases turn with
  | serve server request => exact Or.inr ⟨server, request, rfl⟩
  | advance _ | clear | purge => exact Or.inl rfl

/-- A turn that asks for no query is not answered. -/
theorem answer?_of_query? {turn : Turn L σ} (h : turn.query? = none) (w : World L σ) :
    turn.answer? w = none := by
  cases turn with
  | serve server request => cases h
  | advance _ | clear | purge => rfl

end Turn

namespace Session

/-- The world after a session. -/
def run (turns : List (Turn L σ)) (w : World L σ) : World L σ :=
  turns.foldl (fun w turn => turn.after w) w

/-- The answers given in a session. -/
def answers : List (Turn L σ) → World L σ → List (Answer L)
  | [], _ => []
  | turn :: turns, w => (turn.answer? w).toList ++ answers turns (turn.after w)

/-- The query texts asked for in a session. -/
def texts (turns : List (Turn L σ)) : List String := turns.filterMap Turn.query?

theorem run_cons (turn : Turn L σ) (turns : List (Turn L σ)) (w : World L σ) :
    run (turn :: turns) w = run turns (turn.after w) := rfl

/-- The last turn is taken in the world that the others have left. -/
theorem run_concat (turns : List (Turn L σ)) (turn : Turn L σ) (w : World L σ) :
    run (turns ++ [turn]) w = turn.after (run turns w) := List.foldl_concat ..

/-- The answers of two sessions, one after the other, are those of both together. -/
theorem answers_append (turns turns' : List (Turn L σ)) (w : World L σ) :
    answers (turns ++ turns') w = answers turns w ++ answers turns' (run turns w) := by
  -- on the turns of the first session
  induction turns generalizing w with
  | nil => rfl
  | cons turn turns ih => rw [List.cons_append, answers, ih, answers, List.append_assoc]; rfl

end Session

/-! ## Room for all query texts -/

/-- The keys of the query texts of a session. -/
def Session.keys (turns : List (Turn L σ)) : Finset Fingerprint :=
  (texts turns).toFinset.image Fingerprint.ofText

section Room

variable {keys : Finset Fingerprint} {w : World L σ}

/-- A request leaves room for the keys, if its own is one of them. -/
theorem fits_execute (server : Server L σ) {request : Request L}
    (hkey : .ofText request.query ∈ keys) (h : w.cache.Fits keys) :
    (server.executor.execute server.engine request w).2.cache.Fits keys :=
  server.executor.finish_cache_of_revise server.quiet request
    (P := fun cache => cache.Fits keys)
    (fun _ now rule h => QueryCache.fits_revise h hkey now rule) .arrived w h

/-- A request leaves the slots of all other queries, if there is room for all of them. -/
theorem slot?_execute_of_fits (server : Server L σ) {request : Request L}
    (hkey : .ofText request.query ∈ keys) (h : w.cache.Fits keys) {key : Fingerprint}
    (hne : key ≠ .ofText request.query) :
    (server.executor.execute server.engine request w).2.cache.slot? key = w.cache.slot? key := by
  -- the request revises its own entry only, which keeps the slot as long as there is room
  refine (server.executor.finish_cache_of_revise server.quiet request
    (P := fun cache => cache.Fits keys ∧ cache.slot? key = w.cache.slot? key) ?_ .arrived w
    ⟨h, rfl⟩).2
  rintro cache now rule ⟨hfits, hslot⟩
  exact ⟨QueryCache.fits_revise hfits hkey now rule,
    (QueryCache.slot?_revise_of_fits hfits hkey hne now rule).trans hslot⟩

/-- A turn leaves room for the keys, if it asks for none but these. -/
theorem fits_after {turn : Turn L σ} (hkeys : ∀ text, turn.query? = some text → .ofText text ∈ keys)
    (h : w.cache.Fits keys) : (turn.after w).cache.Fits keys := by
  cases turn with
  | serve server request => exact fits_execute server (hkeys _ rfl) h
  | advance nanoseconds => exact h
  | clear => exact RecencyMap.fits_of_sublist (m := w.cache) (List.nil_sublist _) rfl h
  | purge => exact RecencyMap.fits_of_sublist List.filter_sublist rfl h

/-- A session leaves room for the keys, if it asks for none but these. -/
theorem fits_run {turns : List (Turn L σ)}
    (hkeys : ∀ text ∈ Session.texts turns, .ofText text ∈ keys) (h : w.cache.Fits keys) :
    (Session.run turns w).cache.Fits keys := by
  -- Induction on the turns: the texts of the first and of the rest are among those asked for.
  induction turns generalizing w with
  | nil => exact h
  | cons turn turns ih =>
    have hturn : ∀ text, turn.query? = some text → .ofText text ∈ keys := fun text htext =>
      hkeys text (List.mem_filterMap.mpr ⟨turn, List.mem_cons_self, htext⟩)
    have hrest : ∀ text ∈ Session.texts turns, .ofText text ∈ keys := fun text htext =>
      hkeys text ((List.sublist_cons_self turn turns).filterMap _ |>.subset htext)
    exact ih hrest (fits_after hturn h)

/-- The key of a text that is asked for is among the keys of the session. -/
theorem ofText_mem_keys {turns : List (Turn L σ)} {text : String}
    (h : text ∈ Session.texts turns) : .ofText text ∈ Session.keys turns :=
  Finset.mem_image_of_mem _ (List.mem_toFinset.mpr h)

/-- An empty cache has room for as many texts as its capacity. -/
theorem fits_of_empty (hempty : w.cache.slots = []) {turns : List (Turn L σ)}
    (hroom : (Session.texts turns).toFinset.card ≤ w.cache.capacity) :
    w.cache.Fits (Session.keys turns) := by
  refine ⟨fun k hk => ?_, Finset.card_image_le.trans hroom⟩
  rw [hempty] at hk
  cases hk

end Room

/-! ## What a turn leaves -/

/-- No turn changes the capacity of the cache. -/
theorem capacity_after (turn : Turn L σ) (w : World L σ) :
    (turn.after w).cache.capacity = w.cache.capacity := by
  cases turn with
  | serve server request => exact server.executor.capacity_finish server.quiet request .arrived w
  | advance _ | clear | purge => rfl

/-- No session changes the capacity of the cache. -/
theorem Session.capacity_run (turns : List (Turn L σ)) (w : World L σ) :
    (run turns w).cache.capacity = w.cache.capacity := by
  induction turns generalizing w with
  | nil => rfl
  | cons turn turns ih => rw [run_cons, ih, capacity_after]

/-- No turn changes the lifetime of entries. -/
theorem lifetime_after (turn : Turn L σ) (w : World L σ) :
    (turn.after w).cache.lifetime = w.cache.lifetime := by
  cases turn with
  | serve server request => exact server.executor.lifetime_finish server.quiet request .arrived w
  | advance _ | clear | purge => rfl

/-- No session changes the lifetime of entries. -/
theorem Session.lifetime_run (turns : List (Turn L σ)) (w : World L σ) :
    (run turns w).cache.lifetime = w.cache.lifetime := by
  induction turns generalizing w with
  | nil => rfl
  | cons turn turns ih => rw [run_cons, ih, lifetime_after]

end TieredQuery
