import TieredQuery.Proofs.Dispatch.PureEngine
import TieredQuery.Proofs.Dispatch.Succession
import TieredQuery.Proofs.Session.Turns

/-!
# Queries do not interfere

Requests share the cache and the engine. Where the engine keeps what it does for one query text
apart from what it does for others (`Engine.Confined`), and the cache has room for all texts, a
query cannot be told from its answers whether others were asked for at all: `World.Alike` relates
worlds that look the same to the requests for a text. A request for the text does the same in both
(`alike_execute`), and a request for another text leads to a world that looks the same
(`alike_execute_of_ne`).

## Key results

- `alike_step`: one step of a request, taken in two worlds
- `queries_do_not_interfere`: the answers for a text in a session with and without the others
-/

namespace TieredQuery

variable {L : Language} {τ ρ : Type}

/-! ## Engines that keep queries apart -/

/-- Which documents and artifacts are those of a query text. -/
structure Ownership (L : Language) where
  document : String → L.Document → Prop
  artifact : String → L.Artifact → Prop

/-- The answer of an action depends on the share that a query text has in the state of the engine,
    and nothing but that share is changed. -/
def World.Confined (text : String) (action : StateM (World L (String → τ)) ρ) : Prop :=
  ∃ f : τ → ρ × τ, ∀ w, action w =
    ((f (w.engine text)).1,
      { w with engine := Function.update w.engine text (f (w.engine text)).2 })

/-- The calls that an engine answers for a query text depend on what they are given and on earlier
    calls for the same text: each uses the share of the text only, and what is made of the text
    stays its own. -/
structure Engine.Confined (engine : Engine L (String → τ)) (owns : Ownership L) (text : String) :
    Prop where
  parse : World.Confined text (engine.parse text)
  parsed {w : World L (String → τ)} {document : L.Document}
    (h : (engine.parse text w).1 = .ok document) : owns.document text document
  validate {document : L.Document} (h : owns.document text document) (schema : L.Schema) :
    World.Confined text (engine.validate schema document)
  compile {document : L.Document} (h : owns.document text document) (schema : L.Schema)
    (operationName : Option String) :
    World.Confined text (engine.compile schema document operationName)
  compiled {document : L.Document} (h : owns.document text document) {schema : L.Schema}
    {operationName : Option String} {w : World L (String → τ)} {artifact : L.Artifact}
    (hcompiled : (engine.compile schema document operationName w).1 = .ok (.artifact artifact)) :
    owns.artifact text artifact
  interpret {interpretation : Interpretation L} (h : owns.document text interpretation.document) :
    World.Confined text (engine.interpret interpretation)
  run {artifact : L.Artifact} (h : owns.artifact text artifact) (resolvers : L.Resolvers)
    (context : L.Context) (variableValues : Dictionary Json.Value) :
    World.Confined text (engine.run artifact resolvers context variableValues)

/-! ## What is made of a text stays its own -/

/-- The document or the artifact that a request is about is one of a text. -/
def Phase.Owned (owns : Ownership L) (text : String) : Phase L → Prop
  | validating document | planning document | compiling document _ | declining document _
  | interpreting document => owns.document text document
  | adopting artifact _ | running artifact _ => owns.artifact text artifact
  | arrived | parsing | settled _ _ _ | done _ _ => True

/-- The artifact in the slot of a text is one of the text. -/
def World.Owned {σ : Type} (w : World L σ) (owns : Ownership L) (text : String) : Prop :=
  ∀ slot artifact, w.cache.slot? (.ofText text) = some slot → slot.value.artifact? = some artifact →
    owns.artifact text artifact

section Ownership

variable {owns : Ownership L} {text : String}

/-- The artifact that is read of a text is one of the text. -/
theorem owned_entry {σ : Type} {w : World L σ} (h : w.Owned owns text) {artifact : L.Artifact}
    (hartifact : (w.cache.entry w.now text).artifact? = some artifact) :
    owns.artifact text artifact := by
  rw [QueryCache.entry_eq_of_liveSlot?] at hartifact
  cases hlive : w.cache.liveSlot? w.now (.ofText text) with
  | none =>
    rw [hlive] at hartifact
    cases hartifact
  | some slot =>
    rw [hlive] at hartifact
    exact h slot artifact (RecencyMap.liveSlot?_eq_some_iff.mp hlive).1 hartifact

end Ownership

section Steps

variable {executor : Executor L} {engine : Engine L (String → τ)} {request : Request L}
  {owns : Ownership L} {phase : Phase L} {w w' : World L (String → τ)}

/-- A step of a request is about something of its own query again. -/
theorem Phase.owned_step (hconfined : engine.Confined owns request.query)
    (hphase : phase.Owned owns request.query) (hworld : w.Owned owns request.query) :
    (executor.step engine request phase w).1.Owned owns request.query := by
  have hleads := executor.leadsTo_step engine request phase w
  generalize (executor.step engine request phase w).1 = next at hleads ⊢
  -- The engine gives documents and artifacts of the text, and the cache those that were stored.
  cases hleads with
  | hit hentry | race hentry | kept hentry => exact owned_entry hworld hentry
  | parsed houtcome => exact hconfined.parsed houtcome
  | compiled houtcome => exact hconfined.compiled hphase houtcome
  | validated _ | due _ | notDue _ | declined _ _ | passedOver _ _ | adopted _ | remembered =>
    exact hphase
  | miss _ | settles _ _ | counted | answered | stays => trivial

/-- What a request stores is made of its query, or was there before. -/
theorem World.owned_step (hquiet : engine.Quiet) (hphase : phase.Owned owns request.query)
    (hworld : w.Owned owns request.query) :
    (executor.step engine request phase w).2.Owned owns request.query := by
  intro slot artifact hslot hartifact
  rw [step_cache executor hquiet] at hslot
  -- the slot is the one that was there, or holds what the step has stored
  cases hrule : phase.rule? executor.tiering with
  | none =>
    rw [hrule] at hslot
    exact hworld slot artifact hslot hartifact
  | some rule =>
    rw [hrule] at hslot
    dsimp only at hslot
    rw [QueryCache.slot?_revise_self] at hslot
    cases hstored : rule (w.cache.entry w.now request.query) with
    | none =>
      rw [hstored] at hslot
      exact hworld slot artifact (RecencyMap.liveSlot?_eq_some_iff.mp hslot).1 hartifact
    | some stored =>
      rw [hstored] at hslot
      -- an artifact is stored only by the request that has compiled it, or was there before
      cases hslot
      obtain ⟨fresh, n, rfl, rfl, -⟩ := Phase.adopting_of_rule? hrule hstored hartifact
      cases hfound : (w.cache.entry w.now request.query).artifact? with
      | some found => exact owned_entry hworld hfound
      | none => exact hphase

end Steps

/-! ## Worlds that look the same to a query -/

/-- Two worlds are the same as far as the requests for a query text can see. -/
structure World.Alike (text : String) (w w' : World L (String → τ)) : Prop where
  lifetime : w.cache.lifetime = w'.cache.lifetime
  now : w.now = w'.now
  slot : w.cache.slot? (.ofText text) = w'.cache.slot? (.ofText text)
  share : w.engine text = w'.engine text

section Alike

variable {text : String} {w w' w'' : World L (String → τ)}

/-- A world looks the same as itself. -/
theorem alike_refl (text : String) (w : World L (String → τ)) : w.Alike text w :=
  ⟨rfl, rfl, rfl, rfl⟩

/-- It does not matter from which of the two worlds one looks. -/
theorem World.Alike.symm (h : w.Alike text w') : w'.Alike text w :=
  ⟨h.lifetime.symm, h.now.symm, h.slot.symm, h.share.symm⟩

/-- What looks the same as something in between looks the same. -/
theorem World.Alike.trans (h : w.Alike text w') (h' : w'.Alike text w'') : w.Alike text w'' :=
  ⟨h.lifetime.trans h'.lifetime, h.now.trans h'.now, h.slot.trans h'.slot, h.share.trans h'.share⟩

/-- The live slot of the text is the same. -/
theorem liveSlot?_of_alike (h : w.Alike text w') :
    w.cache.liveSlot? w.now (.ofText text) = w'.cache.liveSlot? w'.now (.ofText text) := by
  unfold RecencyMap.liveSlot? RecencyMap.isExpired
  rw [h.slot, h.lifetime, h.now]

/-- So is the entry that is read of it. -/
theorem entry_of_alike (h : w.Alike text w') :
    w.cache.entry w.now text = w'.cache.entry w'.now text := by
  rw [QueryCache.entry_eq_of_liveSlot?, QueryCache.entry_eq_of_liveSlot?, liveSlot?_of_alike h]

/-- What is confined to the share of a text has the same answer in worlds that look the same, and
    leads to such worlds again. -/
theorem World.Confined.alike {action : StateM (World L (String → τ)) ρ}
    (hconfined : World.Confined text action) (h : w.Alike text w') :
    (action w).1 = (action w').1 ∧ (action w).2.Alike text (action w').2 := by
  obtain ⟨f, hf⟩ := hconfined
  rw [hf, hf, h.share]
  refine ⟨rfl, h.lifetime, h.now, h.slot, ?_⟩
  dsimp only
  rw [Function.update_self, Function.update_self]

/-- What is confined to the share of another text takes no time and leaves the share alone. -/
theorem World.Confined.frame {action : StateM (World L (String → τ)) ρ} {other : String}
    (hconfined : World.Confined other action) (hne : text ≠ other) (w : World L (String → τ)) :
    (action w).2.now = w.now ∧ (action w).2.engine text = w.engine text := by
  obtain ⟨f, hf⟩ := hconfined
  rw [hf]
  exact ⟨rfl, Function.update_of_ne hne _ _⟩

/-- A move touches neither the cache nor the engine. -/
theorem Move.alike_make (move : Move L) (id : Nat) (h : w.Alike text w') :
    (move.make id w).2.Alike text (move.make id w').2 :=
  ⟨h.lifetime, h.now, h.slot, h.share⟩

end Alike

/-! ## One step in two worlds -/

section Steps

variable {executor : Executor L} {engine : Engine L (String → τ)} {request : Request L}
  {owns : Ownership L} {phase : Phase L} {w w' : World L (String → τ)}

/-- A step that accesses the cache calls nothing, so it leaves the engine. -/
theorem step_engine (executor : Executor L) (engine : Engine L (String → τ)) (request : Request L)
    {rule : Entry L.Artifact → Option (Entry L.Artifact)}
    (hrule : phase.rule? executor.tiering = some rule) (w : World L (String → τ)) :
    (executor.step engine request phase w).2.engine = w.engine := by
  cases phase <;> first | rfl | cases hrule

/-- A step that accesses the cache does the same in both worlds: it reads the same entry. -/
theorem alike_step_of_rule (hquiet : engine.Quiet)
    {rule : Entry L.Artifact → Option (Entry L.Artifact)}
    (hrule : phase.rule? executor.tiering = some rule) (h : w.Alike request.query w') :
    (executor.step engine request phase w).2.Alike request.query
      (executor.step engine request phase w').2 := by
  constructor
  case lifetime =>
    rw [step_cache executor hquiet, step_cache executor hquiet, hrule]
    exact (QueryCache.lifetime_revise ..).trans
      (h.lifetime.trans (QueryCache.lifetime_revise ..).symm)
  case now => rw [step_now _ _ _ hrule, step_now _ _ _ hrule, h.now]
  case slot =>
    rw [step_cache executor hquiet, step_cache executor hquiet, hrule]
    dsimp only
    rw [QueryCache.slot?_revise_self, QueryCache.slot?_revise_self, entry_of_alike h,
      liveSlot?_of_alike h, h.now]
  case share => rw [step_engine _ _ _ hrule, step_engine _ _ _ hrule, h.share]

/-- A step of a request is the same in worlds that look the same to it: it leads to the same phase
    by the same call, and to worlds that look the same again. -/
theorem alike_step (executor : Executor L) (hquiet : engine.Quiet)
    (hconfined : engine.Confined owns request.query)
    (hphase : phase.Owned owns request.query) (h : w.Alike request.query w') :
    (executor.step engine request phase w).1 = (executor.step engine request phase w').1 ∧
    executor.made engine request phase w = executor.made engine request phase w' ∧
    (executor.step engine request phase w).2.Alike request.query
      (executor.step engine request phase w').2 := by
  -- Where the engine is called, its share of the text decides; elsewhere the entry does.
  cases phase with
  | arrived =>
    refine ⟨?_, rfl, alike_step_of_rule hquiet rfl h⟩
    rw [executor.phase_arrived, executor.phase_arrived, entry_of_alike h]
  | parsing =>
    obtain ⟨houtcome, halike⟩ := hconfined.parse.alike h
    rw [executor.step_parsing, executor.step_parsing, Executor.made_eq_call,
      Executor.made_eq_call, Executor.call, Executor.call, houtcome]
    exact ⟨rfl, rfl, Move.alike_make _ _ halike⟩
  | validating document =>
    obtain ⟨houtcome, halike⟩ := (hconfined.validate hphase executor.schema).alike h
    rw [executor.step_validating, executor.step_validating, Executor.made_eq_call,
      Executor.made_eq_call, Executor.call, Executor.call, houtcome]
    exact ⟨rfl, rfl, Move.alike_make _ _ halike⟩
  | planning document =>
    refine ⟨?_, rfl, alike_step_of_rule hquiet rfl h⟩
    rw [executor.phase_planning, executor.phase_planning, entry_of_alike h]
  | compiling document occurrences =>
    obtain ⟨houtcome, halike⟩ :=
      (hconfined.compile hphase executor.schema request.operationName).alike h
    rw [executor.step_compiling, executor.step_compiling, Executor.made_eq_call,
      Executor.made_eq_call, Executor.call, Executor.call, houtcome]
    exact ⟨rfl, rfl, Move.alike_make _ _ halike⟩
  | adopting artifact occurrences =>
    refine ⟨?_, rfl, alike_step_of_rule hquiet rfl h⟩
    rw [executor.phase_adopting, executor.phase_adopting, entry_of_alike h]
  | declining document occurrences => exact ⟨rfl, rfl, alike_step_of_rule hquiet rfl h⟩
  | interpreting document =>
    have hnotified : (World.notify (.interpreting (.ofText request.query)) w).2.Alike request.query
        (World.notify (.interpreting (.ofText request.query)) w').2 :=
      -- a notice is nothing that the query can see
      ⟨h.lifetime, h.now, h.slot, h.share⟩
    have hinterpret : World.Confined request.query
        (engine.interpret (executor.interpretation request document)) := hconfined.interpret hphase
    obtain ⟨houtcome, halike⟩ := hinterpret.alike hnotified
    rw [executor.step_interpreting, executor.step_interpreting, Executor.made_eq_call,
      Executor.made_eq_call, Executor.call, Executor.call, houtcome]
    exact ⟨rfl, rfl, Move.alike_make _ _ halike⟩
  | running artifact verdict =>
    obtain ⟨houtcome, halike⟩ :=
      (hconfined.run hphase L.noResolvers request.context request.variableValues).alike h
    rw [executor.step_running, executor.step_running, Executor.made_eq_call,
      Executor.made_eq_call, Executor.call, Executor.call, houtcome]
    exact ⟨rfl, rfl, Move.alike_make _ _ halike⟩
  | settled counted verdict response =>
    cases counted <;> exact ⟨rfl, rfl, h.lifetime, h.now, h.slot, h.share⟩
  | done verdict response => exact ⟨rfl, rfl, h⟩

/-- A step of a request for another text takes no time and leaves the share of a text alone. -/
theorem frame_step (executor : Executor L) (hconfined : engine.Confined owns request.query)
    (hphase : phase.Owned owns request.query) {text : String} (hne : text ≠ request.query)
    (w : World L (String → τ)) :
    (executor.step engine request phase w).2.now = w.now ∧
      (executor.step engine request phase w).2.engine text = w.engine text := by
  -- Case split on the phase: each call is confined to the share of the query.
  cases phase with
  | parsing => exact hconfined.parse.frame hne w
  | validating document => exact (hconfined.validate hphase executor.schema).frame hne w
  | compiling document occurrences =>
    exact (hconfined.compile hphase executor.schema request.operationName).frame hne w
  | interpreting document =>
    have hinterpret : World.Confined request.query
        (engine.interpret (executor.interpretation request document)) := hconfined.interpret hphase
    exact hinterpret.frame hne (World.notify (.interpreting (.ofText request.query)) w).2
  | running artifact verdict =>
    exact (hconfined.run hphase L.noResolvers request.context request.variableValues).frame hne w
  | settled counted verdict response => cases counted <;> exact ⟨rfl, rfl⟩
  | arrived | planning _ | adopting _ _ | declining _ _ | done _ _ => exact ⟨rfl, rfl⟩

/-- From worlds that look the same to it a request goes on alike, to the same response. -/
theorem alike_finish (executor : Executor L) (hquiet : engine.Quiet)
    (hconfined : engine.Confined owns request.query) (phase : Phase L)
    (hphase : phase.Owned owns request.query) (hworld : w.Owned owns request.query)
    (h : w.Alike request.query w') :
    (executor.finish engine request phase w).1 = (executor.finish engine request phase w').1 ∧
    executor.calls engine request phase w = executor.calls engine request phase w' ∧
    (executor.finish engine request phase w).2.Alike request.query
      (executor.finish engine request phase w').2 := by
  -- on the steps that are left, as long as they are about the query
  induction phase, w using executor.steps_induction engine request generalizing w' with
  | answered phase w response hresponse =>
    rw [executor.finish_of_answered engine request w hresponse,
      executor.finish_of_answered engine request w' hresponse,
      executor.calls_of_answered engine request w hresponse,
      executor.calls_of_answered engine request w' hresponse]
    exact ⟨rfl, rfl, h⟩
  | unanswered phase w hresponse ih =>
    obtain ⟨hnext, hmade, halike⟩ := alike_step executor hquiet hconfined hphase h
    rw [executor.finish_of_unanswered engine request w hresponse,
      executor.finish_of_unanswered engine request w' hresponse,
      executor.calls_of_unanswered engine request w hresponse,
      executor.calls_of_unanswered engine request w' hresponse, ← hnext, hmade]
    obtain ⟨hanswer, hcalls, hend⟩ := ih (Phase.owned_step hconfined hphase hworld)
      (World.owned_step hquiet hphase hworld) halike
    exact ⟨hanswer, congrArg _ hcalls, hend⟩

end Steps

/-! ## Requests and other turns -/

/-- There is room for all texts asked for, and the artifact in the slot of each is its own. -/
structure World.Orderly {σ : Type} (w : World L σ) (owns : Ownership L) (keys : Finset Fingerprint)
    (asked : Set String) : Prop where
  fits : w.cache.Fits keys
  owned : ∀ text ∈ asked, w.Owned owns text

/-- A request in a session comes to an engine that keeps its query apart, and there is room for
    the query. -/
def Turn.Admitted (owns : Ownership L) (keys : Finset Fingerprint) (asked : Set String) :
    Turn L (String → τ) → Prop
  | serve server request => server.engine.Confined owns request.query ∧
    .ofText request.query ∈ keys ∧ request.query ∈ asked
  | _ => True

/-- Whether a turn is anything but a request for another text. -/
def Turn.concerns {σ : Type} (text : String) (turn : Turn L σ) : Bool :=
  turn.query?.all (· = text)

section Turns

variable {owns : Ownership L} {keys : Finset Fingerprint} {asked : Set String} {text : String}
  {server : Server L (String → τ)} {request : Request L} {turn : Turn L (String → τ)}
  {w w' : World L (String → τ)}

/-- A slot that was there before holds what it held. -/
theorem owned_of_slot? (h : w.Owned owns text) (hslot : ∀ slot,
    w'.cache.slot? (.ofText text) = some slot → w.cache.slot? (.ofText text) = some slot) :
    w'.Owned owns text := fun slot artifact hfound => h slot artifact (hslot slot hfound)

/-- A request for a text leaves what is its own. -/
theorem owned_execute (hconfined : server.engine.Confined owns request.query)
    (h : w.Owned owns request.query) :
    (server.executor.execute server.engine request w).2.Owned owns request.query := by
  obtain ⟨last, -, howned⟩ := server.executor.finish_induction
    (P := fun phase w => phase.Owned owns request.query ∧ w.Owned owns request.query)
    (fun phase w h => ⟨Phase.owned_step hconfined h.1 h.2,
      World.owned_step server.quiet h.1 h.2⟩) .arrived w ⟨trivial, h⟩
  exact howned

/-- Turns keep the order: there is room for all keys, and each slot holds what is its own. -/
theorem orderly_after (hdistinct : Set.InjOn Fingerprint.ofText asked)
    (hturn : turn.Admitted owns keys asked) (h : w.Orderly owns keys asked) :
    (turn.after w).Orderly owns keys asked := by
  constructor
  case fits =>
    refine fits_after (fun query hquery => ?_) h.fits
    cases turn with
    | serve server request =>
      cases hquery
      exact hturn.2.1
    | advance _ | clear | purge => cases hquery
  case owned =>
    intro query hasked
    have howned := h.owned query hasked
    cases turn with
    | serve server request =>
      obtain ⟨hconfined, hkey, hrequest⟩ := hturn
      by_cases hquery : query = request.query
      · subst hquery
        exact owned_execute hconfined howned
      · -- the slot is not that of the request
        refine owned_of_slot? howned fun slot hslot => ?_
        rw [← hslot]
        exact (slot?_execute_of_fits server hkey h.fits
          fun heq => hquery (hdistinct hasked hrequest heq)).symm
    | advance nanoseconds => exact howned
    | clear => exact owned_of_slot? howned fun slot hslot => nomatch hslot
    -- what has been purged is no slot any more, and the others stay
    | purge =>
      refine owned_of_slot? howned fun slot hslot => ?_
      rw [Turn.after] at hslot
      exact (RecencyMap.liveSlot?_eq_some_iff.mp ((RecencyMap.slot?_purge ..).symm.trans hslot)).1

/-- A request for another text leads to a world that looks the same. -/
theorem alike_execute_of_ne (hconfined : server.engine.Confined owns request.query)
    (hkey : .ofText request.query ∈ keys) (hfits : w.cache.Fits keys)
    (howned : w.Owned owns request.query)
    (hne : Fingerprint.ofText text ≠ .ofText request.query) :
    w.Alike text (server.executor.execute server.engine request w).2 := by
  have hother : text ≠ request.query := fun heq => hne (heq ▸ rfl)
  -- no step of the request takes time, or touches the share of the text
  obtain ⟨last, -, -, hnow, hshare⟩ := server.executor.finish_induction
    (P := fun phase (w' : World L (String → τ)) => phase.Owned owns request.query ∧
      w'.Owned owns request.query ∧ w'.now = w.now ∧ w'.engine text = w.engine text)
    (fun phase w' h => by
      obtain ⟨hphase, hworld, hnow, hshare⟩ := h
      have hframe := frame_step server.executor hconfined hphase hother w'
      exact ⟨Phase.owned_step hconfined hphase hworld, World.owned_step server.quiet hphase hworld,
        hframe.1.trans hnow, hframe.2.trans hshare⟩) .arrived w ⟨trivial, howned, rfl, rfl⟩
  exact ⟨(server.executor.lifetime_finish server.quiet request .arrived w).symm, hnow.symm,
    (slot?_execute_of_fits server hkey hfits hne).symm, hshare.symm⟩

/-- A request for the text is answered alike in worlds that look the same. -/
theorem alike_execute (hconfined : server.engine.Confined owns request.query)
    (howned : w.Owned owns request.query) (h : w.Alike request.query w') :
    (Turn.serve server request).answer? w = (Turn.serve server request).answer? w' ∧
      ((Turn.serve server request).after w).Alike request.query
        ((Turn.serve server request).after w') := by
  obtain ⟨hresponse, hcalls, halike⟩ :=
    alike_finish server.executor server.quiet hconfined .arrived trivial howned h
  refine ⟨?_, halike⟩
  simp only [Turn.answer?, Executor.execute, hresponse, hcalls, halike.slot, h.now]

/-- Turns that are not requests lead from worlds that look the same to such worlds. -/
theorem alike_after (hquery : turn.query? = none) (h : w.Alike text w') :
    (turn.after w).Alike text (turn.after w') := by
  cases turn with
  | serve server request => cases hquery
  | advance nanoseconds => exact ⟨h.lifetime, congrArg (· + nanoseconds) h.now, h.slot, h.share⟩
  | clear => exact ⟨h.lifetime, h.now, rfl, h.share⟩
  | purge =>
    refine ⟨h.lifetime, h.now, ?_, h.share⟩
    exact (RecencyMap.slot?_purge ..).trans
      ((liveSlot?_of_alike h).trans (RecencyMap.slot?_purge ..).symm)

/-- From worlds that look the same the requests for a text are answered alike, with and without the
    requests for others in between. -/
theorem alike_run {turns : List (Turn L (String → τ))}
    (hdistinct : Set.InjOn Fingerprint.ofText asked) (htext : text ∈ asked)
    (hturns : ∀ turn ∈ turns, turn.Admitted owns keys asked) (horderly : w.Orderly owns keys asked)
    (h : w.Alike text w') :
    (Session.answers turns w).filter (·.query = text) =
        Session.answers (turns.filter (·.concerns text)) w' ∧
      (Session.run turns w).Alike text (Session.run (turns.filter (·.concerns text)) w') := by
  -- on the turns of the session
  induction turns generalizing w w' with
  | nil => exact ⟨rfl, h⟩
  | cons turn turns ih =>
    obtain ⟨hturn, hrest⟩ := List.forall_mem_cons.mp hturns
    have hafter := orderly_after hdistinct hturn horderly
    rw [Session.answers, List.filter_append, Session.run_cons]
    rcases turn.query?_eq_none_or with hnone | ⟨server, request, rfl⟩
    · -- the turn is taken in both sessions, and nothing is answered
      have hconcerns : turn.concerns text = true := by rw [Turn.concerns, hnone]; rfl
      rw [List.filter_cons_of_pos hconcerns, Session.answers, Session.run_cons,
        Turn.answer?_of_query? hnone, Turn.answer?_of_query? hnone]
      exact ih hrest hafter (alike_after hnone h)
    · obtain ⟨hconfined, hkey, hasked⟩ := hturn
      have howned := horderly.owned _ hasked
      by_cases hquery : request.query = text
      · subst hquery
        obtain ⟨hanswer, halike⟩ := alike_execute hconfined howned h
        obtain ⟨hanswers, hend⟩ := ih hrest hafter halike
        have hconcerns : (Turn.serve server request).concerns request.query = true :=
          decide_eq_true rfl
        rw [List.filter_cons_of_pos hconcerns, Session.answers, Session.run_cons, ← hanswer,
          hanswers]
        exact ⟨congrArg (· ++ _) (List.filter_cons_of_pos (decide_eq_true rfl)), hend⟩
      · -- the turn is left out, which the requests for the text do not see
        have halike := alike_execute_of_ne hconfined hkey horderly.fits howned
          fun heq => hquery (hdistinct hasked htext heq.symm)
        obtain ⟨hanswers, hend⟩ := ih hrest hafter (halike.symm.trans h)
        have hconcerns : ¬(Turn.serve server request).concerns text = true :=
          fun htrue => hquery (of_decide_eq_true htrue)
        rw [List.filter_cons_of_neg hconcerns, hanswers]
        exact ⟨congrArg (· ++ _) (List.filter_cons_of_neg (by simpa using hquery)), hend⟩

end Turns

/-- Queries do not interfere as long as the cache has room for all of them and no two have the same
    key. In any session on an empty cache, through any executors, with engines whose calls for one
    text depend on earlier calls for the same text only, the requests for a text are answered as in
    the session without the requests for others: at the same times, with the same responses, by the
    same calls of the engine, and leaving the same entry, stored at the same time. -/
theorem queries_do_not_interfere {owns : Ownership L} {w : World L (String → τ)}
    (hempty : w.cache.slots = []) {turns : List (Turn L (String → τ))}
    (hengines : ∀ server request, .serve server request ∈ turns →
      server.engine.Confined owns request.query)
    (hroom : (Session.texts turns).toFinset.card ≤ w.cache.capacity) (text : String)
    (hdistinct : Set.InjOn Fingerprint.ofText
      {query | query = text ∨ query ∈ Session.texts turns}) :
    let own := turns.filter (·.concerns text)
    (Session.answers turns w).filter (·.query = text) = Session.answers own w ∧
    (Session.run turns w).cache.slot? (.ofText text) =
      (Session.run own w).cache.slot? (.ofText text) := by
  intro own
  -- nothing is in the cache yet, so all is in order
  have horderly : w.Orderly owns (Session.keys turns)
      {query | query = text ∨ query ∈ Session.texts turns} := by
    refine ⟨fits_of_empty hempty hroom, fun query _ slot artifact hslot => ?_⟩
    rw [RecencyMap.slot?, hempty] at hslot
    cases hslot
  -- every text that is asked for has its key among those with room
  have hturns : ∀ turn ∈ turns, turn.Admitted owns (Session.keys turns)
      {query | query = text ∨ query ∈ Session.texts turns} := by
    intro turn hmem
    cases turn with
    | serve server request =>
      have htext : request.query ∈ Session.texts turns :=
        List.mem_filterMap.mpr ⟨_, hmem, rfl⟩
      exact ⟨hengines server request hmem, ofText_mem_keys htext, Or.inr htext⟩
    | advance _ | clear | purge => trivial
  obtain ⟨hanswers, hend⟩ :=
    alike_run hdistinct (Or.inl rfl) hturns horderly (alike_refl text w)
  exact ⟨hanswers, hend.slot⟩

/-! ## An engine that counts for each query -/

/-- The engine that answers with the number of times a query was executed before. It counts the
    executions of each query by itself. -/
def tally : Engine echoLanguage (String → Nat) where
  parse source := return echo.parse source
  validate schema document := return echo.validate schema document
  compile schema document operationName := return echo.compile schema document operationName
  interpret interpretation := count interpretation.document
  run artifact _ _ _ := count artifact
where
  /-- Executes a query. -/
  count (query : String) : StateM (World echoLanguage (String → Nat)) (Outcome Diagnostic Output) :=
    fun w => (.ok (.ofData (.str (toString (w.engine query)))),
      { w with engine := Function.update w.engine query (w.engine query + 1) })

/-- Counting leaves the cache alone. -/
theorem tally_quiet : tally.Quiet :=
  ⟨fun _ _ => rfl, fun _ _ _ => rfl, fun _ _ _ _ => rfl, fun _ _ => rfl, fun _ _ _ _ _ => rfl⟩

/-- A query is its own document and its own artifact. -/
def echoOwnership : Ownership echoLanguage := ⟨fun text document => document = text,
  fun text artifact => artifact = text⟩

/-- An answer that uses nothing of the engine is confined to any share. -/
theorem World.confined_return (text : String) (answer : ρ) :
    World.Confined (L := L) (τ := τ) text (return answer) := by
  refine ⟨fun share => (answer, share), fun w => ?_⟩
  rw [Function.update_eq_self]
  rfl

/-- Counting is confined to the query that is counted. -/
theorem tally_confined (text : String) : tally.Confined echoOwnership text where
  parse := World.confined_return text _
  parsed h := by
    replace h : echo.parse text = .ok _ := h
    unfold echo at h
    dsimp only at h
    split at h <;> cases h
    rfl
  validate _ _ := World.confined_return text _
  compile _ _ _ := World.confined_return text _
  compiled := by
    rintro document rfl schema operationName w artifact hcompiled
    replace hcompiled : echo.compile schema document operationName = .ok (.artifact _) := hcompiled
    unfold echo at hcompiled
    dsimp only at hcompiled
    split at hcompiled <;> cases hcompiled
    rfl
  interpret h := by
    rw [← show _ = text from h]
    exact ⟨fun share => (.ok (.ofData (.str (toString share))), share + 1), fun _ => rfl⟩
  run h _ _ _ := by
    rw [← show _ = text from h]
    exact ⟨fun share => (.ok (.ofData (.str (toString share))), share + 1), fun _ => rfl⟩

/-- A server of tallies, with the number of its executor and when that compiles. -/
def tallyServer (id : Nat) (tiering : Tiering) : Server echoLanguage (String → Nat) :=
  ⟨⟨id, (), tiering⟩, tally, tally_quiet⟩

/-- Two executors are asked for two queries, in a cache with room for both. -/
def tallySession : List (Turn echoLanguage (String → Nat)) := [
  .serve (tallyServer 0 {}) (echoRequest "a"),
  .serve (tallyServer 1 { threshold := 2 }) (echoRequest "b"),
  .advance 6,
  .serve (tallyServer 1 { threshold := 2 }) (echoRequest "a")]

def tallyWorld : World echoLanguage (String → Nat) :=
  { cache := QueryCache.withCapacity 2 (some 5), engine := fun _ => 0 }

/-- The second query changes nothing in the answers to the first. -/
theorem queries_do_not_interfere_tallySession :
    let own := [.serve (tallyServer 0 {}) (echoRequest "a"), .advance 6,
      .serve (tallyServer 1 { threshold := 2 }) (echoRequest "a")]
    (Session.answers tallySession tallyWorld).filter (·.query = "a") =
        Session.answers own tallyWorld ∧
      (Session.run tallySession tallyWorld).cache.slot? (.ofText "a") =
        (Session.run own tallyWorld).cache.slot? (.ofText "a") := by
  -- three requests, all of them to servers with this engine
  have hengines : ∀ server request, .serve server request ∈ tallySession →
      server.engine.Confined echoOwnership request.query := by
    intro server request hmem
    have hserver : server.engine = tally := by
      simp only [tallySession, List.mem_cons, Turn.serve.injEq, reduceCtorEq, List.not_mem_nil,
        or_false, false_or] at hmem
      rcases hmem with ⟨rfl, -⟩ | ⟨rfl, -⟩ | ⟨rfl, -⟩ <;> rfl
    exact hserver ▸ tally_confined request.query
  have htexts : {query | query = "a" ∨ query ∈ Session.texts tallySession} ⊆ {"a", "b"} := by
    rintro query (rfl | hmem)
    · exact Or.inl rfl
    · simp only [Session.texts, tallySession, Turn.query?, echoRequest, List.filterMap_cons,
        List.filterMap_nil, List.mem_cons, List.not_mem_nil, or_false] at hmem
      rcases hmem with rfl | rfl | rfl <;> simp
  exact queries_do_not_interfere rfl hengines (by decide) "a"
    ((Set.injOn_pair.mpr fun heq => absurd heq ofText_a_ne_b).mono htexts)

end TieredQuery
