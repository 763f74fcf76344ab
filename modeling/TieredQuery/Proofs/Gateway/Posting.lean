import TieredQuery.Gateway.Event
import TieredQuery.Gateway.Rejection
import TieredQuery.Proofs.Json.Records

/-!
# Posted queries are read back

A posted query goes through two layers of JSON: its text is the body of an event, and that is a
string inside the text of the event. Both layers are read back. Headers have no order of their own,
so the text of an event may list them in any (`Event.WrittenAs`), and its members as well.

Writing knows no limit of depth, but reading does. It counts for the body alone, since a string is
not nested however deep the text in it is.

## Key results

- `PostedQuery.restores_toJson`, `Event.restores_writtenAs`: one layer each
- `posted_query_round_trip`: both layers
-/

namespace TieredQuery.Gateway

open Json (Value Record Filling greatestDepth decode decode_of_restores)
open Json.Decoder (restores_any restores_string restores_optional restores_choice
  restores_dictionary_of_perm)
open Json.Filling (fits_of_restores)

/-! ## Posted queries -/

namespace PostedQuery

/-- The member that sets the query. -/
def queryFilling (query : String) : Filling PostedQuery :=
  ⟨"query", .str query, fun q => { q with query := query }⟩

/-- The member that sets the variable values. -/
def variablesFilling (values : Dictionary Value) : Filling PostedQuery :=
  ⟨"variables", .ofDictionary values, fun q => { q with variableValues := values }⟩

/-- The member that sets the operation name. -/
def operationFilling (name : String) : Filling PostedQuery :=
  ⟨"operationName", .str name, fun q => { q with operationName := some name }⟩

/-- The members of a posted query. -/
def fillings (q : PostedQuery) : List (Filling PostedQuery) :=
  queryFilling q.query :: variablesFilling q.variableValues ::
    (q.operationName.map operationFilling).toList

/-- The members are those of the JSON form, in its order. -/
theorem shape_fillings (q : PostedQuery) : .obj (q.fillings.map Filling.shape) = q.toJson := by
  obtain ⟨query, values, operationName⟩ := q
  cases operationName <;> rfl

/-- Together the members set the whole query; a name that is left out is missing already. -/
theorem filled_fillings (q : PostedQuery) : record.filled q.fillings = q := by
  obtain ⟨query, values, operationName⟩ := q
  cases operationName <;> rfl

/-- The query is set by a string. -/
theorem fits_query (query : String) : (queryFilling query).Fits record :=
  fits_of_restores (fun query (q : PostedQuery) => { q with query := query }) rfl
    (restores_string query)

/-- The operation name is set by a string, or left out. -/
theorem fits_operation (name : String) : (operationFilling name).Fits record :=
  fits_of_restores (fun name (q : PostedQuery) => { q with operationName := name }) rfl
    (restores_optional (restores_string name) trivial nofun)

/-- The variable values are set by an object whose members can be read back. -/
theorem fits_variables {values : Dictionary Value}
    (hcanonical : ∀ entry ∈ values.entries, entry.2.Canonical)
    (hintegral : ∀ entry ∈ values.entries, entry.2.Integral) :
    (variablesFilling values).Fits record := by
  have hread := restores_dictionary_of_perm id (List.Perm.refl values.entries)
    fun entry hentry => restores_any (hcanonical entry hentry) (hintegral entry hentry)
  have hsame : (values.entries.map fun entry => (entry.1, id entry.2)) = values.entries :=
    List.map_id _
  -- no value is changed on the way
  rw [hsame] at hread
  exact fits_of_restores (fun values (q : PostedQuery) => { q with variableValues := values }) rfl
    hread

/-- A posted query is read back from its JSON form. -/
theorem restores_toJson {q : PostedQuery}
    (hcanonical : ∀ entry ∈ q.variableValues.entries, entry.2.Canonical)
    (hintegral : ∀ entry ∈ q.variableValues.entries, entry.2.Integral) :
    record.decoder.Restores q.toJson q := by
  have hread : record.decoder.Restores (.obj (q.fillings.map Filling.shape))
      (record.filled q.fillings) := by
    apply Record.restores_record
    · -- each member is one that the reader knows
      refine List.forall_mem_cons.mpr ⟨fits_query q.query,
        List.forall_mem_cons.mpr ⟨fits_variables hcanonical hintegral, ?_⟩⟩
      intro filling hfilling
      obtain ⟨name, -, rfl⟩ := Option.mem_map.mp (Option.mem_toList.mp hfilling)
      exact fits_operation name
    · -- no member is there twice
      obtain ⟨query, values, operationName⟩ := q
      cases operationName with
      | none => show ["query", "variables"].Nodup; decide
      | some name => show ["query", "variables", "operationName"].Nodup; decide
    · -- the one member that must be there is there
      show ["query"] ⊆ "query" :: _
      exact List.cons_subset_cons _ (List.nil_subset _)
  rwa [shape_fillings, filled_fillings] at hread

end PostedQuery

/-! ## Events -/

namespace Event

/-- Whether a value is a JSON form of an event, with its members and its headers in any order. -/
def WrittenAs (event : Event) (v : Value) : Prop :=
  ∃ members listed, v = .obj members ∧ List.Perm listed event.headers.entries ∧ members.Perm [
    ("httpMethod", .str event.method.name),
    ("headers", .obj (listed.map fun header => (header.1, .str header.2))),
    ("body", .str event.body)]

/-- The JSON form that writing gives is one of them. -/
theorem writtenAs_toJson (event : Event) : event.WrittenAs event.toJson :=
  ⟨_, event.headers.entries, rfl, .refl _,
    .trans (.cons _ (.swap _ _ [])) (.trans (.swap _ _ _) (.cons _ (.swap _ _ [])))⟩

/-- The member that sets the method. -/
def methodFilling (method : Method) : Filling Event :=
  ⟨"httpMethod", .str method.name, fun event => { event with method := method }⟩

/-- The member that sets the headers, which are listed in some order. -/
def headersFilling (headers : Headers) (listed : List (String × String)) : Filling Event :=
  ⟨"headers", .obj (listed.map fun header => (header.1, .str header.2)),
    fun event => { event with headers := headers }⟩

/-- The member that sets the body. -/
def bodyFilling (body : String) : Filling Event :=
  ⟨"body", .str body, fun event => { event with body := body }⟩

/-- The members of an event, its headers listed in some order. -/
def fillings (event : Event) (listed : List (String × String)) : List (Filling Event) :=
  [methodFilling event.method, headersFilling event.headers listed, bodyFilling event.body]

/-- The method is set by its name. -/
theorem fits_method (method : Method) : (methodFilling method).Fits record := by
  have hchoice : [(Method.name .post, Method.post), (Method.name .get, .get)].lookup method.name =
      some method := by cases method <;> decide
  exact fits_of_restores (fun method (event : Event) => { event with method := method }) rfl
    (restores_choice hchoice)

/-- The headers are set by an object of texts, listed in any order. -/
theorem fits_headers {headers : Headers} {listed : List (String × String)}
    (hperm : listed.Perm headers.entries) : (headersFilling headers listed).Fits record :=
  fits_of_restores (fun headers (event : Event) => { event with headers := headers }) rfl
    (restores_dictionary_of_perm Value.str hperm fun header _ => restores_string header.2)

/-- The body is set by a string, whatever is in it. -/
theorem fits_body (body : String) : (bodyFilling body).Fits record :=
  fits_of_restores (fun body (event : Event) => { event with body := body }) rfl
    (restores_string body)

/-- An event is read back from each of its JSON forms. -/
theorem restores_writtenAs {event : Event} {v : Value} (h : event.WrittenAs v) :
    record.decoder.Restores v event := by
  obtain ⟨members, listed, rfl, hheaders, hmembers⟩ := h
  have hshape : members.Perm ((event.fillings listed).map Filling.shape) := hmembers
  apply Record.restores_record_of_perm hshape
  · -- each member is one that the reader knows
    intro filling hfilling
    rcases List.mem_cons.mp hfilling with rfl | hfilling
    · exact fits_method event.method
    rcases List.mem_cons.mp hfilling with rfl | hfilling
    · exact fits_headers hheaders
    · rw [List.mem_singleton.mp hfilling]
      exact fits_body event.body
  · -- no member is there twice, and none that must be there is missing
    show ["httpMethod", "headers", "body"].Nodup
    decide
  · show ["httpMethod", "body"] ⊆ ["httpMethod", "headers", "body"]
    decide
  · -- each member sets a part of its own
    intro filling hfilling other hother read
    simp only [fillings, List.mem_cons, List.not_mem_nil, or_false] at hfilling hother
    rcases hfilling with rfl | rfl | rfl <;> rcases hother with rfl | rfl | rfl <;> rfl

/-- Only the event and its headers are nested, however deep the text of the body is. -/
theorem depth_le_of_writtenAs {event : Event} {v : Value} (h : event.WrittenAs v) :
    v.depth ≤ 2 := by
  obtain ⟨members, listed, rfl, -, hmembers⟩ := h
  rw [Value.depth]
  apply Nat.succ_le_succ
  rw [Value.depthMembers_le_iff]
  intro member hmember
  have hwritten := hmembers.mem_iff.mp hmember
  simp only [List.mem_cons, List.not_mem_nil, or_false] at hwritten
  rcases hwritten with rfl | rfl | rfl
  · exact Nat.zero_le 1
  · -- the headers are texts
    apply Nat.succ_le_succ
    rw [Value.depthMembers_le_iff]
    intro header hheader
    obtain ⟨_, _, rfl⟩ := List.mem_map.mp hheader
    exact Nat.le_refl 0
  · exact Nat.zero_le 1

/-- The text of an event is decoded to the event. -/
theorem decode_of_writtenAs {event : Event} {v : Value} (h : event.WrittenAs v) :
    decode record.decoder v.render = .ok event :=
  (decode_of_restores (restores_writtenAs h)).1
    (Nat.le_trans (depth_le_of_writtenAs h) (by decide))

end Event

/-! ## Both layers -/

/-- A posted query is read back, whatever its texts are, if the keys of the objects in its variables
    ascend and their numbers are integers. The event that posts it holds just that query, unless its
    JSON form is nested deeper than a reader goes: then the body is refused for its depth, and no
    other query is made of it. The event itself is decoded from each of its JSON forms, so the query
    is read back through both layers. -/
theorem posted_query_round_trip (q : PostedQuery) (headers : Headers)
    (hcanonical : ∀ entry ∈ q.variableValues.entries, entry.2.Canonical)
    (hintegral : ∀ entry ∈ q.variableValues.entries, entry.2.Integral) :
    -- the body is decoded to the query, unless it is nested too deep
    (q.toJson.depth ≤ greatestDepth → (Event.post q headers).postedQuery = .ok q) ∧
    (greatestDepth < q.toJson.depth → ∃ reason,
      (Event.post q headers).postedQuery.mapError Rejection.invalidBody =
        .error (.invalidBody reason) ∧ reason.cause = .nestedTooDeep) ∧
    -- the event is decoded to itself, and then its body once more
    (Event.post q headers).WrittenAs (Event.post q headers).toJson ∧
    ∀ v, (Event.post q headers).WrittenAs v →
      decode Event.record.decoder v.render = .ok (Event.post q headers) ∧
      (q.toJson.depth ≤ greatestDepth →
        (decode Event.record.decoder v.render >>= Event.postedQuery) = .ok q) := by
  obtain ⟨hread, hrefused⟩ := decode_of_restores (PostedQuery.restores_toJson hcanonical hintegral)
  have hbody : q.toJson.depth ≤ greatestDepth → (Event.post q headers).postedQuery = .ok q := hread
  refine ⟨hbody, fun hdeep => ?_, Event.writtenAs_toJson _, fun v hwritten => ?_⟩
  · -- the reason for which the body is refused is the one that is reported
    obtain ⟨reason, herror, hcause⟩ := hrefused hdeep
    refine ⟨reason, ?_, hcause⟩
    show (decode PostedQuery.record.decoder q.toJson.render).mapError _ = _
    rw [herror]
    rfl
  · -- the event is decoded first, and then its body
    have hevent := Event.decode_of_writtenAs hwritten
    refine ⟨hevent, fun hdepth => ?_⟩
    simp only [hevent, bind, Except.bind]
    exact hbody hdepth

/-! ### At the limit -/

/-- Lists around null. -/
def nestedLists : Nat → Value
  | 0 => .null
  | n + 1 => .arr [nestedLists n]

/-- What is known of lists around null. -/
theorem nestedLists_spec (n : Nat) :
    (nestedLists n).depth = n ∧ (nestedLists n).Canonical ∧ (nestedLists n).Integral := by
  -- Induction on the lists that are around.
  induction n with
  | zero => exact ⟨rfl, trivial, trivial⟩
  | succ n ih =>
    obtain ⟨hdepth, hcanonical, hintegral⟩ := ih
    refine ⟨?_, ⟨hcanonical, trivial⟩, ⟨hintegral, trivial⟩⟩
    rw [nestedLists, Value.depth, Value.depthItems, Value.depthItems, hdepth, Nat.max_zero]

/-- A query with lists around null for its only variable. -/
def postedLists (n : Nat) : PostedQuery where
  query := "query Lists($lists: Any) \x7b echo(text: \"a\\b\", lists: $lists) \x7d"
  variableValues := Dictionary.empty.insert "lists" (nestedLists n)
  operationName := some "Lists"

/-- The query adds two levels: that of its members and that of its variables. -/
theorem depth_postedLists (n : Nat) : (postedLists n).toJson.depth = n + 2 := by
  have hjson : (postedLists n).toJson = .obj [("query", .str (postedLists n).query),
    ("variables", .obj [("lists", nestedLists n)]), ("operationName", .str "Lists")] := rfl
  rw [hjson]
  simp [Value.depth, Value.depthMembers, (nestedLists_spec n).1]

/-- Lists may be nested 125 deep in a variable, and no deeper. -/
theorem posted_query_round_trip_nestedLists :
    let headers : Headers := (Dictionary.empty.insert "x-trace" "\"1\"").insert "accept" "*/*"
    (Event.post (postedLists 125) headers).postedQuery = .ok (postedLists 125) ∧
    (∃ reason, (Event.post (postedLists 126) headers).postedQuery.mapError Rejection.invalidBody =
      .error (.invalidBody reason) ∧ reason.cause = .nestedTooDeep) ∧
    decode Event.record.decoder (Event.post (postedLists 126) headers).toJson.render =
      .ok (Event.post (postedLists 126) headers) := by
  intro headers
  have hvalues : ∀ n, ∀ entry ∈ (postedLists n).variableValues.entries, entry.2 = nestedLists n :=
    fun n entry hentry => congrArg Prod.snd (List.mem_singleton.mp hentry)
  have hcanonical : ∀ n, ∀ entry ∈ (postedLists n).variableValues.entries, entry.2.Canonical :=
    fun n entry hentry => hvalues n entry hentry ▸ (nestedLists_spec n).2.1
  have hintegral : ∀ n, ∀ entry ∈ (postedLists n).variableValues.entries, entry.2.Integral :=
    fun n entry hentry => hvalues n entry hentry ▸ (nestedLists_spec n).2.2
  obtain ⟨hread, -⟩ := posted_query_round_trip (postedLists 125) headers (hcanonical 125)
    (hintegral 125)
  obtain ⟨-, hrefused, hwritten, hevent⟩ := posted_query_round_trip (postedLists 126) headers
    (hcanonical 126) (hintegral 126)
  -- the two queries are just inside the limit on nesting and just beyond it
  refine ⟨hread ?_, hrefused ?_, (hevent _ hwritten).1⟩
  · rw [depth_postedLists]
    decide
  · rw [depth_postedLists]
    decide

end TieredQuery.Gateway
