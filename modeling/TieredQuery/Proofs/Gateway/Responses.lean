import TieredQuery.Proofs.Gateway.Body
import TieredQuery.Proofs.Json.Decoded

/-!
# Responses are unambiguous

The text of a response determines it, up to absent data: the three shapes differ in the names of
their first members (`Response.mark`), and the rest in the values of the members.

Outputs are decoded as well. A diagnostic is read back exactly, its path included, for a step is a
string or an integer in its JSON form and no digits make a string an integer. Lists that are left
out when empty are empty in the blank record. Only data that is null is not read back: it is read as
absent (`Output.settled`). What was read once has none, and is nested no deeper than can be read
again.

## Key results

- `Response.render_eq_iff`: texts determine responses
- `Diagnostic.restores_toJson`, `Output.restores_toJson`: texts are read back
- `Output.legible_of_decode`: what decoding makes of data
- `response_text_unambiguous`
-/

namespace TieredQuery

open Json (Value Record Filling greatestDepth decode decode_of_restores Yields yields_map of_decode)
open Json.Decoder (restores_any restores_string restores_word restores_null restores_optional
  restores_list yields_optional_any)
open Json.Filling (fits_of_restores)

/-! ## Places -/

namespace Location

/-- The members of a place. -/
def fillings (l : Location) : List (Filling Location) :=
  [⟨"line", .word l.line, fun read => { read with line := l.line }⟩,
    ⟨"column", .word l.column, fun read => { read with column := l.column }⟩]

/-- A place is read back. -/
theorem restores_toJson (l : Location) : record.decoder.Restores l.toJson l := by
  have hread : record.decoder.Restores (.obj (l.fillings.map Filling.shape))
      (record.filled l.fillings) := by
    apply Record.restores_record
    · intro filling hfilling
      simp only [fillings, List.mem_cons, List.not_mem_nil, or_false] at hfilling
      -- a place has two fields, each a word
      rcases hfilling with rfl | rfl
      · exact fits_of_restores (fun n (l : Location) => { l with line := n }) rfl
          (restores_word "usize" l.line)
      · exact fits_of_restores (fun n (l : Location) => { l with column := n }) rfl
          (restores_word "usize" l.column)
    · show ["line", "column"].Nodup
      decide
    · exact List.Subset.refl _
  exact hread

/-- Nothing is nested in a place. -/
theorem depth_toJson (l : Location) : l.toJson.depth = 1 := rfl

end Location

/-! ## Paths -/

namespace PathStep

/-- A step is not nested. -/
theorem depth_toJson (step : PathStep) : step.toJson.depth = 0 := by cases step <;> rfl

/-- A string is read as a name and an integer as an index, whatever their digits. -/
theorem restores_toJson (step : PathStep) : decoder.Restores step.toJson step := by
  have hcanonical : step.toJson.Canonical := by cases step <;> trivial
  have hintegral : step.toJson.Integral := by cases step <;> trivial
  -- the reader takes any value and then looks whether it is a name or an integer
  intro levels rest hrest
  have hread := restores_any hcanonical hintegral levels rest hrest
  rw [depth_toJson] at hread ⊢
  unfold decoder
  rw [hread.eq_ok (Nat.zero_le levels)]
  dsimp only
  rw [ofValue?_toJson]
  exact .flat levels step rest

end PathStep

/-! ## Diagnostics -/

/-- The member for a list that is left out when empty. -/
def listFilling {ρ : Type} (name : String) (items : List Value) (set : ρ → ρ) :
    List (Filling ρ) :=
  if items.isEmpty then [] else [⟨name, .arr items, set⟩]

/-- The member is that of the JSON form. -/
theorem shape_listFilling {ρ : Type} (name : String) (items : List Value) (set : ρ → ρ) :
    (listFilling name items set).map Filling.shape = Diagnostic.listMember name items := by
  unfold listFilling Diagnostic.listMember
  split <;> rfl

/-- The only member there can be for a list is the one that sets it. -/
theorem mem_listFilling {ρ : Type} {name : String} {items : List Value} {set : ρ → ρ}
    {filling : Filling ρ} (h : filling ∈ listFilling name items set) :
    filling = ⟨name, .arr items, set⟩ := by
  unfold listFilling at h
  split at h
  · exact absurd h List.not_mem_nil
  · exact List.mem_singleton.mp h

namespace Diagnostic

/-- The members of a diagnostic. -/
def fillings (d : Diagnostic) : List (Filling Diagnostic) :=
  ⟨"message", .str d.message, fun read => { read with message := d.message }⟩ ::
    (listFilling "locations" (d.locations.map Location.toJson)
        (fun read => { read with locations := d.locations }) ++
      listFilling "path" (d.path.map PathStep.toJson) (fun read => { read with path := d.path }))

/-- The members are those of the JSON form, in its order. -/
theorem shape_fillings (d : Diagnostic) : .obj (d.fillings.map Filling.shape) = d.toJson := by
  rw [fillings, List.map_cons, List.map_append, shape_listFilling, shape_listFilling]
  rfl

/-- Together the members set the whole diagnostic; lists that are left out are empty already. -/
theorem filled_fillings (d : Diagnostic) : record.filled d.fillings = d := by
  obtain ⟨message, locations, path⟩ := d
  cases locations <;> cases path <;> rfl

/-- No member of a diagnostic is there twice. -/
theorem nodup_names_fillings (d : Diagnostic) : (d.fillings.map Filling.name).Nodup := by
  obtain ⟨message, locations, path⟩ := d
  cases locations <;> cases path <;> simp [fillings, listFilling]

/-- Each member of a diagnostic is one that the reader knows. -/
theorem fits_fillings (d : Diagnostic) : ∀ filling ∈ d.fillings, filling.Fits record := by
  intro filling hfilling
  rcases List.mem_cons.mp hfilling with rfl | hfilling
  · exact fits_of_restores (fun m (d : Diagnostic) => { d with message := m }) rfl
      (restores_string d.message)
  -- the fields that are left out of the text have their defaults
  rcases List.mem_append.mp hfilling with hlocations | hpath
  · rw [mem_listFilling hlocations]
    have hread := restores_list (fun l _ => l.finite_toJson)
      fun (l : Location) (_ : l ∈ d.locations) => l.restores_toJson
    rw [List.map_id'] at hread
    exact fits_of_restores (fun ls (d : Diagnostic) => { d with locations := ls }) rfl hread
  · rw [mem_listFilling hpath]
    have hread := restores_list (fun step _ => step.finite_toJson)
      fun (step : PathStep) (_ : step ∈ d.path) => step.restores_toJson
    rw [List.map_id'] at hread
    exact fits_of_restores (fun p (d : Diagnostic) => { d with path := p }) rfl hread

/-- A diagnostic is read back: message, places and path. -/
theorem restores_toJson (d : Diagnostic) : record.decoder.Restores d.toJson d := by
  have hread := Record.restores_record d.fits_fillings d.nodup_names_fillings
    (List.cons_subset_cons "message" (List.nil_subset _))
  rwa [shape_fillings, filled_fillings] at hread

/-- A list adds one level to that of its items. -/
theorem depth_listMember_le {name : String} {items : List Value} {n : Nat}
    (h : ∀ v ∈ items, v.depth ≤ n) : ∀ member ∈ listMember name items, member.2.depth ≤ n + 1 := by
  intro member hmember
  rw [mem_listMember hmember]
  exact Nat.succ_le_succ (Value.depthItems_le_iff.mpr h)

/-- A diagnostic has three levels: its members, its lists, and the places in them. -/
theorem depth_toJson_le (d : Diagnostic) : d.toJson.depth ≤ 3 := by
  refine Nat.succ_le_succ (Value.depthMembers_le_iff.mpr fun member hmember => ?_)
  rcases List.mem_cons.mp hmember with rfl | hmember
  · exact Nat.zero_le 2
  rcases List.mem_append.mp hmember with hlocations | hpath
  · have hplaces : ∀ v ∈ d.locations.map Location.toJson, v.depth ≤ 1 := by
      simp [Location.depth_toJson]
    exact depth_listMember_le hplaces member hlocations
  · have hsteps : ∀ v ∈ d.path.map PathStep.toJson, v.depth ≤ 1 := by
      simp [PathStep.depth_toJson]
    exact depth_listMember_le hsteps member hpath

end Diagnostic

/-! ## Outputs -/

namespace Output

/-- Whether the keys of all objects in the data ascend. -/
def Canonical (output : Output) : Prop := (output.data.getD .null).Canonical

/-- Whether all numbers in the data are integers. -/
def Integral (output : Output) : Prop := (output.data.getD .null).Integral

/-- The output with data that is null taken for absent. -/
def settled (output : Output) : Output :=
  match output.data with
  | some .null => { output with data := none }
  | _ => output

variable {output : Output}

/-- An output whose numbers are integers is finite. -/
theorem finite_of_integral (h : output.Integral) : output.Finite :=
  Value.finite_of_integral _ h

/-- Which errors an output has does not depend on its data. -/
theorem errors_settled (output : Output) : output.settled.errors = output.errors := by
  unfold settled
  split <;> rfl

/-- Data that is there and is not null stays. -/
theorem settled_of_ne_null (h : ∀ v, output.data = some v → v.kind ≠ .null) :
    output.settled = output := by
  unfold settled
  split
  · next hnull => exact absurd rfl (h _ hnull)
  · rfl

/-- Null is read as absent data, and all else as what it is. -/
theorem restores_data (hcanonical : output.Canonical) (hintegral : output.Integral) :
    (Json.Decoder.optional .any).Restores (output.data.getD .null) output.settled.data := by
  obtain ⟨data, errors⟩ := output
  cases data with
  | none => exact restores_null _
  | some v =>
    by_cases hnull : v = .null
    · subst hnull
      exact restores_null _
    · -- a value that is not null is read as what it is
      have hkind : v.kind ≠ .null := by cases v <;> simp_all [Value.kind]
      rw [settled_of_ne_null fun v' hv' => by cases hv'; exact hkind]
      exact restores_optional (restores_any hcanonical hintegral)
        (Value.finite_of_integral v hintegral) hkind

/-- The members of an output, as they are read. -/
def fillings (output : Output) : List (Filling Output) :=
  ⟨"data", output.data.getD .null, fun read => { read with data := output.settled.data }⟩ ::
    listFilling "errors" (output.errors.map Diagnostic.toJson)
      (fun read => { read with errors := output.errors })

/-- Together the members set the whole output, with null taken for absent data. -/
theorem filled_fillings (output : Output) : record.filled output.fillings = output.settled := by
  have hdata : output.settled = ⟨output.settled.data, output.errors⟩ := by
    rw [← errors_settled output]
  rw [hdata]
  obtain ⟨data, errors⟩ := output
  cases errors <;> rfl

/-- An output is read back, but for data that is null. -/
theorem restores_toJson (hcanonical : output.Canonical) (hintegral : output.Integral) :
    record.decoder.Restores output.toJson output.settled := by
  have hread : record.decoder.Restores (.obj (output.fillings.map Filling.shape))
      (record.filled output.fillings) := by
    apply Record.restores_record
    · intro filling hfilling
      -- the data, and then the errors if there are any
      rcases List.mem_cons.mp hfilling with rfl | herrors
      · exact fits_of_restores (fun v (o : Output) => { o with data := v }) rfl
          (restores_data hcanonical hintegral)
      · rw [mem_listFilling herrors]
        have hlist := restores_list (fun d _ => d.finite_toJson)
          fun (d : Diagnostic) (_ : d ∈ output.errors) => d.restores_toJson
        rw [List.map_id'] at hlist
        exact fits_of_restores (fun es (o : Output) => { o with errors := es }) rfl hlist
    · obtain ⟨data, errors⟩ := output
      cases errors with
      | nil => show ["data"].Nodup; decide
      | cons _ _ => show ["data", "errors"].Nodup; decide
    · exact List.nil_subset _
  rw [filled_fillings] at hread
  rwa [fillings, List.map_cons, shape_listFilling] at hread

/-- Errors add little to the depth of an output. -/
theorem depth_toJson_le {n : Nat} (hdata : (output.data.getD .null).depth ≤ n) (hn : 4 ≤ n) :
    output.toJson.depth ≤ n + 1 := by
  refine Nat.succ_le_succ (Value.depthMembers_le_iff.mpr fun member hmember => ?_)
  rcases List.mem_cons.mp hmember with rfl | herrors
  · exact hdata
  · have hdiagnostics : ∀ v ∈ output.errors.map Diagnostic.toJson, v.depth ≤ 3 := by
      simpa using fun d _ => Diagnostic.depth_toJson_le d
    have hlist := Diagnostic.depth_listMember_le hdiagnostics member herrors
    omega

/-- Data that was decoded is not null, its keys ascend, and it can be read again. -/
theorem legible_of_decode {text : String} (h : decode record.decoder text = .ok output) :
    ∀ v, output.data = some v → v.kind ≠ .null ∧ v.Legible (greatestDepth - 1) := by
  -- Reading keeps this of the data: each member is read with it, and none takes it away.
  have hkeeps : record.Keeps fun levels output =>
      ∀ v, output.data = some v → v.kind ≠ .null ∧ v.Legible levels := by
    intro field hfield levels
    simp only [record, List.mem_cons, List.not_mem_nil, or_false] at hfield
    rcases hfield with rfl | rfl
    · refine yields_map (fun data (o : Output) => { o with data := data }) ?_
      exact (yields_optional_any levels).imp fun data hdata _ _ => hdata
    · -- errors do not touch the data
      refine yields_map (fun es (o : Output) => { o with errors := es }) ?_
      exact fun _ _ _ _ _ hdata => hdata
  have hblank : ∀ levels v, record.blank.data = some v → v.kind ≠ .null ∧ v.Legible levels := by
    intro levels v hv
    cases hv
  obtain ⟨inner, hinner, hdata⟩ :=
    of_decode (Record.yields_decoder hkeeps hblank greatestDepth) h
  rw [hinner]
  exact hdata

end Output

/-! ## Responses -/

namespace Response

/-- Whether all numbers in the data, if there is any, are integers. -/
def Integral : Response → Prop
  | executed output => output.Integral
  | _ => True

/-- The name of the first member of the JSON form, by which the three shapes are told apart. -/
def mark : Response → String
  | executed _ => "data"
  | rejected _ => "validationErrors"
  | failed _ => "errors"

/-- A response whose numbers are integers is finite. -/
theorem finite_of_integral {response : Response} (h : response.Integral) : response.Finite := by
  cases response with
  | executed output => exact Output.finite_of_integral h
  | _ => trivial

/-- The JSON form of a response is as finite as its data. -/
theorem finite_toJson {response : Response} (h : response.Finite) : response.toJson.Finite := by
  cases response with
  | executed output => exact Output.finite_toJson h
  | rejected errors => exact ⟨Diagnostic.finite_listToJson errors, trivial⟩
  | failed errors => exact ⟨Diagnostic.finite_listToJson errors, trivial⟩

/-- The first member of the JSON form has the name by which shapes are told apart. -/
theorem exists_toJson (response : Response) :
    ∃ v members, response.toJson = .obj ((response.mark, v) :: members) := by
  cases response <;> exact ⟨_, _, rfl⟩

/-- Of two responses with one JSON form, the shapes agree. -/
theorem mark_eq_of_toJson {response response' : Response}
    (h : response.toJson = response'.toJson) : response.mark = response'.mark := by
  obtain ⟨v, members, hjson⟩ := response.exists_toJson
  obtain ⟨v', members', hjson'⟩ := response'.exists_toJson
  rw [hjson, hjson'] at h
  exact (Prod.mk.inj (List.cons.inj (Value.obj.inj h)).1).1

/-- Absent data is written as null. -/
theorem toJson_filled (response : Response) : response.filled.toJson = response.toJson := by
  cases response <;> rfl

/-- The JSON form of a response determines it up to absent data. -/
theorem toJson_eq_iff {response response' : Response} :
    response.toJson = response'.toJson ↔ response.filled = response'.filled := by
  constructor
  · intro h
    -- the shapes agree, and the members of one shape are told apart by their values
    have hmark := mark_eq_of_toJson h
    cases response with
    | executed output =>
      cases response' with
      | executed output' =>
        obtain ⟨hdata, herrors⟩ := Output.toJson_eq_iff.mp h
        rw [filled, filled, hdata, herrors]
      | _ => exact absurd hmark (by simp [mark])
    | rejected errors =>
      cases response' with
      | rejected errors' =>
        obtain ⟨hlists, -⟩ := List.cons.inj (Value.obj.inj h)
        rw [Diagnostic.listToJson_injective (Prod.mk.inj hlists).2]
      | _ => exact absurd hmark (by simp [mark])
    | failed errors =>
      cases response' with
      | failed errors' => rw [Gateway.errors_injective h]
      | _ => exact absurd hmark (by simp [mark])
  · -- absent data and null are written alike, so filling them in changes no text
    intro h
    rw [← toJson_filled response, h, toJson_filled]

/-- Texts determine responses up to absent data. -/
theorem render_eq_iff {response response' : Response} (h : response.Finite)
    (h' : response'.Finite) :
    response.toJson.render = response'.toJson.render ↔ response.filled = response'.filled := by
  rw [← toJson_eq_iff]
  exact ⟨Value.render_injective (finite_toJson h) (finite_toJson h'), congrArg Value.render⟩

/-- Responses of different shapes have different texts. -/
theorem render_ne_of_mark_ne {response response' : Response} (h : response.Integral)
    (h' : response'.Integral) (hmark : response.mark ≠ response'.mark) :
    response.toJson.render ≠ response'.toJson.render := by
  intro hrender
  have hjson := Value.render_injective (finite_toJson (finite_of_integral h))
    (finite_toJson (finite_of_integral h')) hrender
  exact hmark (mark_eq_of_toJson hjson)

end Response

/-- The texts of responses, where the numbers in the data are integers. Two responses have one text
    only if they are equal up to absent data, which is written as null; responses of different
    shapes never have one, whatever their lists of errors. An output whose keys ascend is decoded
    from its text, if that is nested no deeper than a reader goes: its errors are the same, with
    their messages, places and paths, and so is its data, but null is read as absent. What decoding
    has made is decoded from its own text again, at any depth and without exception. -/
theorem response_text_unambiguous :
    (∀ response response' : Response, response.Integral → response'.Integral →
      (response.toJson.render = response'.toJson.render ↔
        response.filled = response'.filled)) ∧
    (∀ (output : Output) (errors errors' : List Diagnostic), output.Integral →
      (Response.executed output).toJson.render ≠ (Response.rejected errors).toJson.render ∧
      (Response.executed output).toJson.render ≠ (Response.failed errors').toJson.render ∧
      (Response.rejected errors).toJson.render ≠ (Response.failed errors').toJson.render) ∧
    (∀ output : Output, output.Canonical → output.Integral →
      output.toJson.depth ≤ greatestDepth →
      decode Output.record.decoder output.toJson.render = .ok output.settled) ∧
    ∀ (text : String) (output : Output), decode Output.record.decoder text = .ok output →
      output.Integral → decode Output.record.decoder output.toJson.render = .ok output := by
  have hread : ∀ output : Output, output.Canonical → output.Integral →
      output.toJson.depth ≤ greatestDepth →
      decode Output.record.decoder output.toJson.render = .ok output.settled :=
    fun output hcanonical hintegral =>
      (decode_of_restores (Output.restores_toJson hcanonical hintegral)).1
  refine ⟨?_, ?_, hread, ?_⟩
  · -- any two responses
    intro response response' h h'
    exact Response.render_eq_iff (Response.finite_of_integral h) (Response.finite_of_integral h')
  · -- two responses of different shapes
    intro output errors errors' h
    refine ⟨?_, ?_, ?_⟩
    · exact Response.render_ne_of_mark_ne h trivial (by simp [Response.mark])
    · exact Response.render_ne_of_mark_ne h trivial (by simp [Response.mark])
    · exact Response.render_ne_of_mark_ne trivial trivial (by simp [Response.mark])
  · -- what decoding has made is legible, so it can be read once more
    intro text output hdecode hintegral
    have hdata := Output.legible_of_decode hdecode
    -- absent data is written as null, which is legible as well
    have hlegible : (output.data.getD .null).Legible (greatestDepth - 1) := by
      cases hvalue : output.data with
      | none => exact Value.legible_of_depth_eq_zero rfl _
      | some v => exact (hdata v hvalue).2
    have hdepth : output.toJson.depth ≤ greatestDepth :=
      Output.depth_toJson_le hlegible.depth_le (by decide)
    have hsettled := hread output hlegible.canonical hintegral hdepth
    rwa [Output.settled_of_ne_null fun v hv => (hdata v hv).1] at hsettled

/-- Null data and an error at a path with the given steps. -/
def outputAt (path : List PathStep) : Output :=
  ⟨some .null, [⟨"not found", [⟨1, 3⟩], path⟩]⟩

/-- A name made of digits and an index are kept apart, and null data comes back as absent. -/
theorem response_text_unambiguous_outputAt :
    let output := outputAt [.field "2"]
    (Response.executed output).toJson.render =
      (Response.executed output.settled).toJson.render ∧
    (Response.executed output).toJson.render ≠
      (Response.executed (outputAt [.index 2])).toJson.render ∧
    (Response.executed output).toJson.render ≠ (Response.failed []).toJson.render ∧
    decode Output.record.decoder output.toJson.render = .ok ⟨none, output.errors⟩ ∧
    decode Output.record.decoder output.settled.toJson.render = .ok ⟨none, output.errors⟩ := by
  intro output
  obtain ⟨htexts, hshapes, hread, hreread⟩ := response_text_unambiguous
  have hdepth : output.toJson.depth ≤ greatestDepth :=
    Nat.le_trans (Output.depth_toJson_le (Nat.zero_le 4) (Nat.le_refl 4)) (by decide)
  have hdecode := hread output trivial trivial hdepth
  -- the two paths differ in the kind of their step, which the texts tell apart
  refine ⟨?_, ?_, (hshapes output [] [] trivial).2.1, hdecode,
    hreread _ output.settled hdecode trivial⟩
  · exact (htexts (.executed output) (.executed output.settled) trivial trivial).mpr rfl
  · intro hsame
    have hfilled := (htexts (.executed output) (.executed (outputAt [.index 2])) trivial
      trivial).mp hsame
    simp [Response.filled, output, outputAt] at hfilled

end TieredQuery
