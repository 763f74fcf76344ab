import TieredQuery.Proofs.Cache.RecencyOrder
import TieredQuery.Proofs.Dispatch.Frame
import TieredQuery.Proofs.Session.Turns

/-!
# Queries that come back too late

A query text that is asked for again only after at least as many other texts as fit into the cache
has lost its slot by then. If this is so of all texts of a session, each request finds its query as
if it were the first one: the query is interpreted, and stored with a count of one.

The argument is carried by `Familiar`: the texts that have slots are some of those asked for last,
in the order in which they were asked for. Slots that lie further back were stored earlier, so it is
the ones at the end that expire first, and purging takes away no others.

## Key results

- `not_mem_recent_of_distance`: a text that comes back too late is not among the recent ones
- `execute_of_absent`: a request whose query has no slot
- `familiar_run`: where a session leads
- `thrashing_queries_are_interpreted`
-/

namespace TieredQuery

variable {L : Language} {σ : Type}

/-! ## Texts that come back too late -/

/-- Between two occurrences of a text that follow each other there are at least as many others as a
    number. -/
def Thrashes (capacity : Nat) (texts : List String) : Prop :=
  ∀ text before between after, texts = before ++ text :: between ++ text :: after →
    text ∉ between → capacity ≤ between.toFinset.card

/-- Texts that come back too late have done so all along. -/
theorem thrashes_of_append {capacity : Nat} {texts texts' : List String}
    (h : Thrashes capacity (texts ++ texts')) : Thrashes capacity texts := by
  intro text before between after htexts hbetween
  exact h text before between (after ++ texts') (by rw [htexts]; simp) hbetween

section Lists

variable {α : Type} [DecidableEq α]

/-- There are as many distinct elements in the list as in its set. -/
theorem length_eraseDups (l : List α) : l.eraseDups.length = l.toFinset.card := by
  have hsame : l.eraseDups.toFinset = l.toFinset := by
    ext a
    rw [List.mem_toFinset, List.mem_toFinset, List.mem_eraseDups]
  rw [← hsame, List.toFinset_card_of_nodup (nodup_eraseDups l)]

/-- An element that was followed by many others is not among the last few distinct ones. The list
    has the last one in front. -/
theorem not_mem_recent_of_distance {recent between before : List α} {a : α} {n : Nat}
    (hrecent : recent <+: (between ++ a :: before).eraseDups) (hlength : recent.length ≤ n)
    (hnew : a ∉ between) (hdistance : n ≤ between.toFinset.card) : a ∉ recent := by
  intro ha
  rw [List.eraseDups_append] at hrecent
  -- the others alone are more than the recent ones
  have hothers : recent <+: between.eraseDups := by
    refine List.prefix_of_prefix_length_le hrecent (List.prefix_append _ _) ?_
    rw [length_eraseDups]
    exact Nat.le_trans hlength hdistance
  exact hnew (List.mem_eraseDups.mp (hothers.subset ha))

/-- A new element comes to the front of the distinct ones. -/
theorem cons_take_prefix_eraseDups {recent l : List α} (h : recent <+: l.eraseDups) {a : α}
    (hnew : a ∉ recent) (n : Nat) : a :: recent.take n <+: (a :: l).eraseDups := by
  have hfilter : recent.filter (· ≠ a) = recent := List.filter_eq_self.mpr fun b hb => by
    rw [decide_eq_true_eq]
    rintro rfl
    exact hnew hb
  rw [eraseDups_cons_eq, List.prefix_cons_inj]
  have hothers : recent <+: l.eraseDups.filter (· ≠ a) := hfilter ▸ h.filter _
  exact (List.take_prefix n recent).trans hothers

omit [DecidableEq α] in
/-- Where whatever stands before a kept element is kept, what is kept is the front of the list. -/
theorem filter_prefix_of_pairwise {kept : α → Bool} {l : List α}
    (h : l.Pairwise fun a b => kept b = true → kept a = true) : l.filter kept <+: l := by
  induction l with
  | nil => exact List.nil_prefix
  | cons a l ih =>
    obtain ⟨ha, hl⟩ := List.pairwise_cons.mp h
    cases hkept : kept a with
    | true =>
      rw [List.filter_cons_of_pos hkept, List.prefix_cons_inj]
      exact ih hl
    | false =>
      -- nothing behind it is kept either
      have hnone : (a :: l).filter kept = [] := by
        refine List.filter_eq_nil_iff.mpr fun b hb => ?_
        rcases List.mem_cons.mp hb with rfl | hrest
        · rw [hkept]
          exact Bool.false_ne_true
        · intro hb
          rw [ha b hrest hb] at hkept
          cases hkept
      rw [hnone]
      exact List.nil_prefix

end Lists

/-! ## Engines that do not turn the clock back -/

/-- An engine whose calls may take time. -/
structure Engine.Onward (engine : Engine L σ) : Prop where
  parse : ∀ source w, w.now ≤ (engine.parse source w).2.now
  validate : ∀ schema document w, w.now ≤ (engine.validate schema document w).2.now
  compile : ∀ schema document operationName w,
    w.now ≤ (engine.compile schema document operationName w).2.now
  interpret : ∀ interpretation w, w.now ≤ (engine.interpret interpretation w).2.now
  run : ∀ artifact resolvers context variableValues w,
    w.now ≤ (engine.run artifact resolvers context variableValues w).2.now

/-- Calls that take no time do not turn the clock back. -/
theorem Engine.Instant.onward {engine : Engine L σ} (h : engine.Instant) : engine.Onward where
  parse source w := (h.parse source w).ge
  validate schema document w := (h.validate schema document w).ge
  compile schema document operationName w := (h.compile schema document operationName w).ge
  interpret interpretation w := (h.interpret interpretation w).ge
  run artifact resolvers context variableValues w :=
    (h.run artifact resolvers context variableValues w).ge

namespace Executor

variable (executor : Executor L) {engine : Engine L σ} (request : Request L)

/-- No step turns the clock back. -/
theorem now_le_step (honward : engine.Onward) (phase : Phase L) (w : World L σ) :
    w.now ≤ (executor.step engine request phase w).2.now := by
  cases phase with
  | parsing => exact honward.parse _ w
  | validating document => exact honward.validate _ _ w
  | compiling document occurrences => exact honward.compile _ _ _ w
  | interpreting document =>
    exact honward.interpret (executor.interpretation request document)
      (World.notify (.interpreting (.ofText request.query)) w).2
  | running artifact verdict => exact honward.run _ _ _ _ w
  | settled counted verdict response => cases counted <;> exact Nat.le_refl _
  | arrived | planning _ | adopting _ _ | declining _ _ | done _ _ => exact Nat.le_refl _

/-- No request turns the clock back. -/
theorem now_le_finish (honward : engine.Onward) (phase : Phase L) (w : World L σ) :
    w.now ≤ (executor.finish engine request phase w).2.now :=
  (executor.finish_induction (P := fun _ w' => w.now ≤ w'.now)
    (fun phase w' h => Nat.le_trans h (executor.now_le_step request honward phase w')) phase w
    (Nat.le_refl _)).choose_spec

end Executor

/-! ## Queries without a slot -/

/-- Whether a call has found nothing that keeps a query from being executed. -/
def Call.admits : Call L → Bool
  | parse _ (.ok _) | validate _ _ (.ok []) => true
  | compile .. | interpret .. | run .. => true
  | _ => false

/-- A query is parsed if and only if there is a document. -/
theorem admits_parse_iff {source : String} {outcome : Outcome Diagnostic L.Document} :
    (Call.parse source outcome).admits = true ↔ ∃ document, outcome = .ok document := by
  cases outcome <;> simp [Call.admits]

/-- A query is found valid if and only if there are no errors. -/
theorem admits_validate_iff {schema : L.Schema} {document : L.Document}
    {outcome : Outcome Empty (List Diagnostic)} :
    (Call.validate schema document outcome).admits = true ↔ outcome = .ok [] := by
  unfold Call.admits
  split <;> simp_all

namespace Executor

/-- A request goes on from a phase so that its query is counted for the first time: the calls that
    it makes, and the one entry that it stores meanwhile, beside the slots that are there. -/
structure CountsOne (executor : Executor L) (engine : Engine L σ) (request : Request L)
    (phase : Phase L) (w : World L σ) (calls : List (Call L)) : Prop where
  calls : executor.calls engine request phase w = calls
  stores : executor.stores engine request phase w = [.seen 1]
  stored : ∃ time, w.now ≤ time ∧ time ≤ (executor.finish engine request phase w).2.now ∧
    (executor.finish engine request phase w).2.cache =
      w.cache.insert time (.ofText request.query) (.seen 1)

variable {executor : Executor L} {engine : Engine L σ} {request : Request L} {w : World L σ}

/-- A step that leaves the cache as it is does not change how the request goes on. -/
theorem countsOne_of_step (honward : engine.Onward) (phase : Phase L) {calls : List (Call L)}
    (hphase : phase.response? = none) (hstore : executor.store? request phase w = none)
    (hcache : (executor.step engine request phase w).2.cache = w.cache)
    (h : executor.CountsOne engine request (executor.step engine request phase w).1
      (executor.step engine request phase w).2 calls) :
    executor.CountsOne engine request phase w (executor.made engine request phase w ++ calls) where
  calls := by rw [executor.calls_of_unanswered engine request w hphase, h.calls]
  stores := by
    rw [executor.stores_of_unanswered engine request w hphase, hstore, h.stores]
    rfl
  stored := by
    obtain ⟨time, hle, hend, hinsert⟩ := h.stored
    rw [executor.finish_of_unanswered engine request w hphase]
    exact ⟨time, Nat.le_trans (executor.now_le_step request honward phase w) hle, hend,
      by rw [hinsert, hcache]⟩

/-- A query that only has to be interpreted yet is not counted any more. -/
theorem calls_interpreting (executor : Executor L) (engine : Engine L σ) (request : Request L)
    (document : L.Document) (w : World L σ) :
    (∃ outcome, executor.calls engine request (.interpreting document) w =
      [executor.interprets request document outcome]) ∧
    executor.stores engine request (.interpreting document) w = [] := by
  obtain ⟨given, hdone⟩ := Phase.response_ended (L := L) (.ofText request.query) .interpreted
    (engine.interpret (executor.interpretation request document)
      (World.notify (.interpreting (.ofText request.query)) w).2).1
  have hnext : (executor.step engine request (.interpreting document) w).1 = _ := hdone
  rw [executor.calls_of_unanswered engine request w rfl,
    executor.stores_of_unanswered engine request w rfl, hnext,
    executor.calls_of_settled, executor.stores_of_settled]
  exact ⟨⟨_, rfl⟩, rfl⟩

/-- Nothing is known of a query without a slot, so its first occurrence is counted, unless every
    query is compiled at once. -/
theorem countsOne_planning (hquiet : engine.Quiet) (honward : engine.Onward)
    (hthreshold : 2 ≤ executor.tiering.threshold.toNat)
    (habsent : w.cache.slot? (.ofText request.query) = none) (document : L.Document) :
    ∃ outcome, executor.CountsOne engine request (.planning document) w
      [executor.interprets request document outcome] := by
  -- what is read of a query without a slot is the blank entry
  have hentry : w.cache.entry w.now request.query = .unseen := by
    rw [QueryCache.entry, RecencyMap.live?, habsent]
    rfl
  -- one occurrence is below the threshold
  have hplan : Entry.plan executor.tiering (w.cache.entry w.now request.query) =
      (some (.seen 1), .interpret) := by
    rw [hentry]
    rcases Entry.plan_of_artifact?_eq_none executor.tiering
        (show (Entry.unseen : Entry L.Artifact).artifact? = none from rfl) with
      ⟨-, hdeclined, -⟩ | ⟨hreached, -⟩ | ⟨-, hplan⟩
    · cases hdeclined
    · exact absurd hreached (by show ¬ _ ≤ 1; omega)
    · exact hplan
  have hnext : (executor.step engine request (.planning document) w).1 =
      .interpreting document := by
    rw [executor.phase_planning, hplan]
    rfl
  have hstore : executor.store? request (.planning document) w = some (.seen 1) :=
    congrArg Prod.fst hplan
  have hcache : (executor.step engine request (.planning document) w).2.cache =
      w.cache.insert w.now (.ofText request.query) (.seen 1) := by
    rw [step_cache executor hquiet]
    exact QueryCache.revise_of_some (congrArg Prod.fst hplan)
  obtain ⟨⟨outcome, hcalls⟩, hstores⟩ := executor.calls_interpreting engine request document
    (executor.step engine request (.planning document) w).2
  have hrank : (Phase.interpreting document : Phase L).rank ≤ 3 := Nat.le_refl 3
  refine ⟨outcome, ?_, ?_, w.now, Nat.le_refl _,
    executor.now_le_finish request honward (.planning document) w, ?_⟩
  · rw [executor.calls_of_unanswered engine request w rfl, hnext, hcalls]
    rfl
  · rw [executor.stores_of_unanswered engine request w rfl, hnext, hstore, hstores]
    rfl
  · rw [executor.finish_of_unanswered engine request w rfl, hnext,
      executor.finish_cache_of_rank_le_three request hquiet hrank, hcache]

/-- A query that is found valid is counted next. -/
theorem countsOne_validating (hquiet : engine.Quiet) (honward : engine.Onward)
    (hthreshold : 2 ≤ executor.tiering.threshold.toNat)
    (habsent : w.cache.slot? (.ofText request.query) = none) {document : L.Document}
    (hvalid : ∀ call ∈ executor.calls engine request (.validating document) w,
      call.admits = true) :
    ∃ outcome, executor.CountsOne engine request (.validating document) w
      [.validate executor.schema document (.ok []),
        executor.interprets request document outcome] := by
  rw [executor.calls_of_unanswered engine request w rfl, executor.made_validating] at hvalid
  have hok : (engine.validate executor.schema document w).1 = .ok [] :=
    admits_validate_iff.mp (hvalid _ List.mem_cons_self)
  -- a request that admits its calls goes on to plan its query
  have hnext : (executor.step engine request (.validating document) w).1 = .planning document := by
    rw [step_validating, hok]
    rfl
  have hmade : executor.made engine request (.validating document) w =
      [.validate executor.schema document (.ok [])] := by
    rw [executor.made_validating, hok]
  have hcache := hquiet.validate executor.schema document w
  obtain ⟨outcome, hplanning⟩ := countsOne_planning hquiet honward hthreshold
    (w := (executor.step engine request (.validating document) w).2)
    ((congrArg (RecencyMap.slot? · _) hcache).trans habsent) document
  refine ⟨outcome, ?_⟩
  have hcounts := countsOne_of_step honward (.validating document) rfl rfl hcache
    (hnext ▸ hplanning)
  rwa [hmade] at hcounts

/-- A query that is parsed is validated next, and counted after that. -/
theorem countsOne_parsing (hquiet : engine.Quiet) (honward : engine.Onward)
    (hthreshold : 2 ≤ executor.tiering.threshold.toNat)
    (habsent : w.cache.slot? (.ofText request.query) = none)
    (hvalid : ∀ call ∈ executor.calls engine request .parsing w, call.admits = true) :
    ∃ document outcome, executor.CountsOne engine request .parsing w
      (Phase.checks executor request document ++
        [executor.interprets request document outcome]) := by
  rw [executor.calls_of_unanswered engine request w rfl, executor.made_parsing] at hvalid
  obtain ⟨hparse, hrest⟩ := List.forall_mem_append.mp hvalid
  obtain ⟨document, hok⟩ := admits_parse_iff.mp (hparse _ List.mem_cons_self)
  -- a request that admits its calls goes on to validate what was parsed
  have hnext : (executor.step engine request .parsing w).1 = .validating document := by
    rw [step_parsing, hok]
    rfl
  have hmade : executor.made engine request .parsing w =
      [.parse request.query (.ok document)] := by
    rw [executor.made_parsing, hok]
  have hcache := hquiet.parse request.query w
  obtain ⟨outcome, hvalidating⟩ := countsOne_validating hquiet honward hthreshold
    (w := (executor.step engine request .parsing w).2)
    ((congrArg (RecencyMap.slot? · _) hcache).trans habsent) (hnext ▸ hrest)
  refine ⟨document, outcome, ?_⟩
  have hcounts := countsOne_of_step honward .parsing rfl rfl hcache
    (hnext ▸ hvalidating)
  rwa [hmade] at hcounts

/-- A query without a slot that is valid is interpreted, and stored as seen once. -/
theorem countsOne_execute (hquiet : engine.Quiet) (honward : engine.Onward)
    (hthreshold : 2 ≤ executor.tiering.threshold.toNat)
    (habsent : w.cache.slot? (.ofText request.query) = none)
    (hvalid : ∀ call ∈ executor.calls engine request .arrived w, call.admits = true) :
    ∃ document outcome, executor.CountsOne engine request .arrived w
      (Phase.checks executor request document ++
        [executor.interprets request document outcome]) := by
  rw [executor.calls_of_unanswered engine request w rfl] at hvalid
  have hnext : (executor.step engine request .arrived w).1 = .parsing := by
    rw [executor.phase_arrived, QueryCache.entry, RecencyMap.live?, habsent]
    rfl
  -- there is no slot to bring to the front, or to drop
  have hcache : (executor.step engine request .arrived w).2.cache = w.cache :=
    RecencyMap.touch_of_slot?_eq_none habsent w.now
  obtain ⟨document, outcome, hparsing⟩ := countsOne_parsing hquiet honward hthreshold
    ((congrArg (RecencyMap.slot? · _) hcache).trans habsent) (hnext ▸ hvalid)
  exact ⟨document, outcome, countsOne_of_step honward .arrived rfl rfl hcache (hnext ▸ hparsing)⟩

end Executor

/-! ## Sessions -/

open RecencyMap

section Familiar

variable {texts : List String} {text : String} {w w' : World L σ}

/-- A cache holds some of the texts that were asked for last, each seen once, in the order in which
    they were asked for and stored. The texts are listed with the latest in front. -/
structure Familiar (texts : List String) (w : World L σ) : Prop where
  keys : ∃ recent, recent <+: texts.eraseDups ∧ keysOf w.cache.slots = recent.map Fingerprint.ofText
  counts : ∀ p ∈ w.cache.slots, p.2.value = .seen 1
  dated : w.cache.slots.Pairwise fun p q => q.2.storedAt ≤ p.2.storedAt
  past : ∀ p ∈ w.cache.slots, p.2.storedAt ≤ w.now

/-- An empty cache holds nothing that was not asked for. -/
theorem familiar_of_empty (hempty : w.cache.slots = []) (texts : List String) :
    Familiar texts w := by
  refine ⟨⟨[], List.nil_prefix, ?_⟩, ?_, ?_, ?_⟩ <;> rw [hempty]
  · rfl
  · nofun
  · exact List.Pairwise.nil
  · nofun

/-- Dropping slots from the end, and waiting, changes nothing. -/
theorem familiar_of_prefix (h : Familiar texts w) (hfront : w'.cache.slots <+: w.cache.slots)
    (hnow : w.now ≤ w'.now) : Familiar texts w' := by
  obtain ⟨recent, hrecent, hkeys⟩ := h.keys
  refine ⟨⟨recent.take w'.cache.slots.length, (List.take_prefix _ _).trans hrecent, ?_⟩,
    fun p hp => h.counts p (hfront.subset hp), h.dated.sublist hfront.sublist,
    fun p hp => Nat.le_trans (h.past p (hfront.subset hp)) hnow⟩
  rw [List.map_take, ← hkeys, ← keysOf_take, ← List.prefix_iff_eq_take.mp hfront]

/-- Older slots expire first, so the ones that are purged are at the end. -/
theorem familiar_purge (h : Familiar texts w) : Familiar texts (World.purge w).2 := by
  -- a slot that stands further back was stored earlier, so it has expired before
  refine familiar_of_prefix h (filter_prefix_of_pairwise (h.dated.imp fun {p q} hle hkept => ?_))
    (Nat.le_refl _)
  have hfresh : w.cache.isExpired w.now q.2 = false := Bool.not_eq_true' _ ▸ hkept
  have hfresh' : w.cache.isExpired w.now p.2 = false := by
    rw [isExpired_eq_false_iff] at hfresh ⊢
    exact fun lifetime hlifetime => Nat.le_trans (hfresh lifetime hlifetime) (by omega)
  show (!w.cache.isExpired w.now p.2) = true
  rw [hfresh']
  rfl

/-- A text without a slot comes to the front when it is stored; at most the slot at the end goes. -/
theorem familiar_insert (h : Familiar texts w) (habsent : w.cache.slot? (.ofText text) = none)
    {time : Nat} (hcache : w'.cache = w.cache.insert time (.ofText text) (.seen 1))
    (hle : w.now ≤ time) (hend : time ≤ w'.now) : Familiar (text :: texts) w' := by
  have hslots : w'.cache.slots =
      (.ofText text, ⟨.seen 1, time⟩) :: w.cache.slots.take (w.cache.capacity - 1) := by
    rw [hcache, slots_insert, erase_of_slot?_eq_none habsent]
  have hkept : ∀ p ∈ w.cache.slots.take (w.cache.capacity - 1), p ∈ w.cache.slots :=
    fun p hp => List.mem_of_mem_take hp
  obtain ⟨recent, hrecent, hkeys⟩ := h.keys
  -- in front stands the new text, behind it what there was, but for the slot that had to go
  constructor
  case keys =>
    -- the new text had no slot, so it is none of those that have one
    have hnew : text ∉ recent := by
      intro hmem
      have hkey : Fingerprint.ofText text ∈ keysOf w.cache.slots :=
        hkeys ▸ List.mem_map_of_mem hmem
      obtain ⟨p, hp, hsame⟩ := List.mem_map.mp hkey
      rw [← hsame, slot?_of_mem hp] at habsent
      cases habsent
    refine ⟨_, cons_take_prefix_eraseDups hrecent hnew (w.cache.capacity - 1), ?_⟩
    rw [hslots, keysOf_cons, keysOf_take, hkeys, List.map_cons, List.map_take]
  case counts =>
    rw [hslots]
    exact List.forall_mem_cons.mpr ⟨rfl, fun p hp => h.counts p (hkept p hp)⟩
  case dated =>
    rw [hslots]
    refine List.pairwise_cons.mpr ⟨fun p hp => ?_, h.dated.sublist (List.take_sublist _ _)⟩
    exact Nat.le_trans (h.past p (hkept p hp)) hle
  case past =>
    rw [hslots]
    refine List.forall_mem_cons.mpr ⟨hend, fun p hp => ?_⟩
    exact Nat.le_trans (h.past p (hkept p hp)) (Nat.le_trans hle hend)

/-- A text that comes back too late has no slot. -/
theorem slot?_of_thrashes (h : Familiar texts w)
    (hthrashes : Thrashes w.cache.capacity (texts.reverse ++ [text]))
    (hdistinct : Set.InjOn Fingerprint.ofText {other | other ∈ text :: texts}) :
    w.cache.slot? (.ofText text) = none := by
  obtain ⟨recent, hrecent, hkeys⟩ := h.keys
  have hlength : recent.length ≤ w.cache.capacity := by
    have hsame := congrArg List.length hkeys
    rw [keysOf, List.length_map, List.length_map] at hsame
    exact hsame ▸ w.cache.bounded
  have hold : ∀ other ∈ recent, other ∈ texts :=
    fun other hother => List.mem_eraseDups.mp (hrecent.subset hother)
  have hnew : text ∉ recent := by
    intro hmem
    -- the text was asked for before, and too many others since
    obtain ⟨between, before, hsplit, hbetween⟩ := List.eq_append_cons_of_mem (hold text hmem)
    have hdistance := hthrashes text before.reverse between.reverse []
      (by rw [hsplit]; simp) (fun hother => hbetween (List.mem_reverse.mp hother))
    rw [List.toFinset_reverse] at hdistance
    exact not_mem_recent_of_distance (hsplit ▸ hrecent) hlength hbetween hdistance hmem
  cases hslot : w.cache.slot? (.ofText text) with
  | none => rfl
  | some slot =>
    have hmem : (Fingerprint.ofText text, slot) ∈ w.cache.slots := mem_of_lookup hslot
    have hkey : Fingerprint.ofText text ∈ keysOf w.cache.slots := List.mem_map.mpr ⟨_, hmem, rfl⟩
    -- a slot of the text would be that of one of the recent texts
    rw [hkeys] at hkey
    obtain ⟨other, hother, hsame⟩ := List.mem_map.mp hkey
    have heq : other = text := hdistinct (List.mem_cons_of_mem _ (hold other hother))
      List.mem_cons_self hsame
    exact absurd (heq ▸ hother) hnew

end Familiar

section Thrashing

variable {turns before after : List (Turn L σ)} {server : Server L σ} {request : Request L}
  {w : World L σ}

/-- A session of valid requests for texts that all come back too late. -/
structure Session.Thrashing (turns : List (Turn L σ)) (w : World L σ) : Prop where
  servers : ∀ server request, .serve server request ∈ turns →
    2 ≤ server.executor.tiering.threshold.toNat ∧ server.engine.Onward
  distinct : Set.InjOn Fingerprint.ofText {text | text ∈ texts turns}
  returns : Thrashes w.cache.capacity (texts turns)
  valid : ∀ answer ∈ answers turns w, ∀ call ∈ answer.calls, call.admits = true

/-- A part of such a session is one. -/
theorem Session.thrashing_of_append (h : Thrashing (before ++ after) w) : Thrashing before w := by
  have htexts : texts (before ++ after) = texts before ++ texts after := List.filterMap_append
  constructor
  case servers =>
    exact fun server request hmem => h.servers server request (List.mem_append_left _ hmem)
  case distinct =>
    refine h.distinct.mono fun text htext => ?_
    show text ∈ texts (before ++ after)
    rw [htexts]
    exact List.mem_append_left _ htext
  case returns => exact thrashes_of_append (htexts ▸ h.returns)
  case valid =>
    intro answer hanswer
    refine h.valid answer ?_
    rw [answers_append]
    exact List.mem_append_left _ hanswer

/-- The next request of the session finds no slot of its query and counts it as the first. -/
theorem countsOne_of_thrashing (h : Session.Thrashing (before ++ [.serve server request]) w)
    (hfamiliar : Familiar (Session.texts before).reverse (Session.run before w)) :
    (Session.run before w).cache.slot? (.ofText request.query) = none ∧
    ∃ document outcome, server.executor.CountsOne server.engine request .arrived
      (Session.run before w) (Phase.checks server.executor request document ++
        [server.executor.interprets request document outcome]) := by
  have htexts : Session.texts (before ++ [.serve server request]) =
      Session.texts before ++ [request.query] := List.filterMap_append
  obtain ⟨hthreshold, honward⟩ := h.servers server request (by simp)
  -- too many other texts were asked for since the query was asked for last
  have habsent : (Session.run before w).cache.slot? (.ofText request.query) = none := by
    refine slot?_of_thrashes hfamiliar ?_ (h.distinct.mono fun text htext => ?_)
    · rw [Session.capacity_run, List.reverse_reverse, ← htexts]
      exact h.returns
    · show text ∈ Session.texts _
      rw [htexts]
      simpa [or_comm] using htext
  have hvalid : ∀ answer ∈ Session.answers [.serve server request] (Session.run before w),
      ∀ call ∈ answer.calls, call.admits = true := by
    intro answer hanswer
    refine h.valid answer ?_
    rw [Session.answers_append]
    exact List.mem_append_right _ hanswer
  exact ⟨habsent, Executor.countsOne_execute server.quiet honward hthreshold habsent
    (hvalid _ List.mem_cons_self)⟩

/-- After a session the cache holds some of the texts asked for last, each seen once. -/
theorem familiar_run (hempty : w.cache.slots = []) (h : Session.Thrashing turns w) :
    Familiar (Session.texts turns).reverse (Session.run turns w) := by
  -- Induction on the turns, with the last one taken off.
  induction turns using List.reverseRecOn with
  | nil => exact familiar_of_empty hempty _
  | append_singleton turns turn ih =>
    have hbefore := ih (Session.thrashing_of_append h)
    have htexts : Session.texts (turns ++ [turn]) = Session.texts turns ++ Session.texts [turn] :=
      List.filterMap_append
    rw [htexts, List.reverse_append, Session.run_concat]
    cases turn with
    | serve server request =>
      obtain ⟨habsent, document, outcome, hcounts⟩ := countsOne_of_thrashing h hbefore
      obtain ⟨time, hle, hend, hstored⟩ := hcounts.stored
      exact familiar_insert hbefore habsent hstored hle hend
    | advance nanoseconds =>
      exact familiar_of_prefix hbefore (List.prefix_refl _) (Nat.le_add_right _ _)
    | clear => exact familiar_of_empty rfl _
    | purge => exact familiar_purge hbefore

end Thrashing

/-- Queries that come back too late are never compiled. In a session of executors that compile no
    query when it occurs for the first time, on an empty cache of any capacity and lifetime, let all
    queries be valid, and let at least as many others be asked for as the cache has room for before
    a query is asked for again. Then each request is answered by interpreting its query, after the
    two calls that check it: the compiler is not called and no artifact is run. Each stores one
    entry, which has counted one occurrence, and finds no slot of its query before that. Of the
    slots that it finds, which are of the texts asked for last, in that order, at most the last one
    goes, and only if the cache is full. Time may pass during calls and between requests, and the
    cache may be purged and cleared. -/
theorem thrashing_queries_are_interpreted {w : World L σ} (hempty : w.cache.slots = [])
    {turns : List (Turn L σ)}
    (hservers : ∀ server request, .serve server request ∈ turns →
      2 ≤ server.executor.tiering.threshold.toNat ∧ server.engine.Onward)
    (hdistinct : Set.InjOn Fingerprint.ofText {text | text ∈ Session.texts turns})
    (hthrashes : Thrashes w.cache.capacity (Session.texts turns))
    (hvalid : ∀ answer ∈ Session.answers turns w, ∀ call ∈ answer.calls, call.admits = true) :
    (∀ before server request after, turns = before ++ .serve server request :: after →
      let key := Fingerprint.ofText request.query
      let found := Session.run before w
      let left := (server.executor.execute server.engine request found).2
      (∃ document outcome, server.executor.calls server.engine request .arrived found =
        Phase.checks server.executor request document ++
          [server.executor.interprets request document outcome]) ∧
      server.executor.stores server.engine request .arrived found = [.seen 1] ∧
      found.cache.slot? key = none ∧
      (∃ recent, recent <+: (Session.texts before).reverse.eraseDups ∧
        keysOf found.cache.slots = recent.map Fingerprint.ofText) ∧
      ∃ time,
        left.cache.slots = (key, ⟨.seen 1, time⟩) :: found.cache.slots ∨
        found.cache.size = found.cache.capacity ∧
          left.cache.slots = (key, ⟨.seen 1, time⟩) :: found.cache.slots.dropLast) ∧
    ∀ p ∈ (Session.run turns w).cache.slots, p.2.value = .seen 1 := by
  -- the turns up to the request thrash as well, so the cache is known when it comes
  have hthrashing : Session.Thrashing turns w := ⟨hservers, hdistinct, hthrashes, hvalid⟩
  refine ⟨?_, (familiar_run hempty hthrashing).counts⟩
  rintro before server request after rfl key found left
  rw [List.append_cons] at hthrashing
  have hserved := Session.thrashing_of_append hthrashing
  have hfamiliar := familiar_run hempty (Session.thrashing_of_append hserved)
  obtain ⟨habsent, document, outcome, hcounts⟩ := countsOne_of_thrashing hserved hfamiliar
  obtain ⟨time, -, -, hstored⟩ := hcounts.stored
  refine ⟨⟨document, outcome, hcounts.calls⟩, hcounts.stores, habsent, hfamiliar.keys, time, ?_⟩
  have hslots : left.cache.slots =
      (key, ⟨.seen 1, time⟩) :: found.cache.slots.take (found.cache.capacity - 1) := by
    rw [show left.cache = _ from hstored, slots_insert, erase_of_slot?_eq_none habsent]
  rw [hslots]
  -- Split by whether there is room for one more slot.
  by_cases hroom : found.cache.slots.length ≤ found.cache.capacity - 1
  · rw [List.take_of_length_le hroom]
    exact Or.inl rfl
  · have hbounded := found.cache.bounded
    have hfull : found.cache.slots.length = found.cache.capacity := by omega
    refine Or.inr ⟨hfull, ?_⟩
    rw [List.dropLast_eq_take, hfull]

/-- Two queries that take turns in a cache with room for one. -/
def echoAlternation : List (Turn echoLanguage Unit) :=
  let server := echoServer 0 { threshold := 2 }
  [.serve server (echoRequest "a"), .serve server (echoRequest "b"), .advance 1,
    .serve server (echoRequest "a")]

/-- The third request finds the other query only, and takes its place. -/
theorem thrashing_queries_are_interpreted_echoAlternation :
    let server := echoServer 0 { threshold := 2 }
    let found := Session.run (echoAlternation.take 3) (echoWorld 1)
    (∃ document outcome, server.executor.calls server.engine (echoRequest "a") .arrived found =
      Phase.checks server.executor (echoRequest "a") document ++
        [server.executor.interprets (echoRequest "a") document outcome]) ∧
    ∀ p ∈ (Session.run echoAlternation (echoWorld 1)).cache.slots, p.2.value = .seen 1 := by
  intro server found
  have hservers : ∀ server request, .serve server request ∈ echoAlternation →
      2 ≤ server.executor.tiering.threshold.toNat ∧ server.engine.Onward := by
    intro other request hmem
    simp only [echoAlternation, List.mem_cons, Turn.serve.injEq, reduceCtorEq, List.not_mem_nil,
      or_false, false_or] at hmem
    rcases hmem with ⟨rfl, -⟩ | ⟨rfl, -⟩ | ⟨rfl, -⟩ <;>
      exact ⟨by decide, echo.engine_instant.onward⟩
  -- the two texts take turns, and each is gone when it is asked for again
  have htexts : Session.texts echoAlternation = ["a", "b", "a"] := rfl
  have hpair : {text | text ∈ Session.texts echoAlternation} ⊆ {"a", "b"} := by
    intro text (htext : text ∈ ["a", "b", "a"])
    simp only [List.mem_cons, List.not_mem_nil, or_false] at htext
    rcases htext with rfl | rfl | rfl <;> simp
  have hthrashes : Thrashes 1 ["a", "b", "a"] := by
    intro text before between after hsplit _
    rw [Nat.one_le_iff_ne_zero, Finset.card_ne_zero, List.toFinset_nonempty_iff]
    rintro rfl
    -- no text follows itself
    have hadjacent : List.IsChain (· ≠ ·) ["a", "b", "a"] := by decide
    rw [hsplit] at hadjacent
    simp [List.isChain_append] at hadjacent
  have hvalid : ∀ answer ∈ Session.answers echoAlternation (echoWorld 1),
      ∀ call ∈ answer.calls, call.admits = true := by decide +kernel
  obtain ⟨hserve, hcounts⟩ := thrashing_queries_are_interpreted (w := echoWorld 1) rfl hservers
    ((Set.injOn_pair.mpr fun heq => absurd heq ofText_a_ne_b).mono hpair) (htexts ▸ hthrashes)
    hvalid
  exact ⟨(hserve _ server (echoRequest "a") [] rfl).1, hcounts⟩

end TieredQuery
