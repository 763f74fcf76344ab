import Mathlib.Logic.Function.Basic
import TieredQuery.Gateway.Handler
import TieredQuery.Proofs.Json.Unambiguous

/-!
# Bodies determine responses

The JSON form of a diagnostic leaves out what is empty, but nothing else, so it determines the
diagnostic (`Diagnostic.toJson_injective`). That of an output determines the output up to absent
data, which is written as null. Together with the status, which tells the three shapes apart, the
body of a reply therefore determines the response up to absent data (`replyTo_eq_iff`).

The data of an output must be finite, as no JSON value holds an infinite double.

## Key results

- `Diagnostic.toJson_injective`, `Output.toJson_eq_iff`: JSON forms determine what they are of
- `Gateway.replyTo_eq_iff`: status and body determine the response
-/

namespace TieredQuery

open Json (Value)

/-! ## Diagnostics -/

/-- Different words are different values. -/
theorem Json.Value.word_injective : Function.Injective Value.word := by
  intro w w' h
  have hval : (w.toNat : Int) = w'.toNat := congrArg Json.Integer.val (Value.int.inj h)
  exact UInt64.toNat_inj.mp (Int.ofNat.inj hval)

namespace Location

/-- The JSON form of a place determines the place. -/
theorem toJson_injective : Function.Injective toJson := by
  rintro ⟨line, column⟩ ⟨line', column'⟩ h
  simp only [toJson, Value.obj.injEq, List.cons.injEq, Prod.mk.injEq, true_and, and_true] at h
  rw [Json.Value.word_injective h.1, Json.Value.word_injective h.2]

/-- A place is written with two integers. -/
theorem finite_toJson (l : Location) : l.toJson.Finite := ⟨trivial, trivial, trivial⟩

end Location

namespace PathStep

/-- The JSON form of a step determines the step, for it is read back. -/
theorem toJson_injective : Function.Injective toJson := by
  intro step step' h
  -- the reader inverts the JSON form
  have hstep := ofValue?_toJson step
  rw [h, ofValue?_toJson] at hstep
  exact (Option.some.inj hstep).symm

/-- A step is written as a name or as an integer. -/
theorem finite_toJson (step : PathStep) : step.toJson.Finite := by
  cases step <;> exact trivial

end PathStep

namespace Diagnostic

/-- The only member there can be for a list is the one with its items. -/
theorem mem_listMember {name : String} {items : List Value} {member : String × Value}
    (h : member ∈ listMember name items) : member = (name, .arr items) := by
  unfold listMember at h
  split at h
  · cases h
  · exact List.mem_singleton.mp h

/-- Whether a list is left out or not, the members after it can be told from it by their names. -/
theorem listMember_append_inj {name : String} {items items' : List Value}
    {rest rest' : List (String × Value)} (hrest : ∀ member ∈ rest, member.1 ≠ name)
    (hrest' : ∀ member ∈ rest', member.1 ≠ name)
    (h : listMember name items ++ rest = listMember name items' ++ rest') :
    items = items' ∧ rest = rest' := by
  -- Split by which of the two lists are left out.
  cases items with
  | nil =>
    cases items' with
    | nil => exact ⟨rfl, h⟩
    | cons v' items' =>
      -- a member of the name would stand among those after the list
      have hcons : rest = (name, Value.arr (v' :: items')) :: rest' := h
      exact absurd rfl (hrest _ (hcons ▸ List.mem_cons_self))
  | cons v items =>
    cases items' with
    | nil =>
      have hcons : (name, Value.arr (v :: items)) :: rest = rest' := h
      exact absurd rfl (hrest' _ (hcons ▸ List.mem_cons_self))
    | cons v' items' => simpa [listMember] using h

/-- The member for a list determines the list. -/
theorem listMember_injective (name : String) : Function.Injective (listMember name) := by
  intro items items' h
  -- there are no members after it that it could be confused with
  have habsent : ∀ member ∈ ([] : List (String × Value)), member.1 ≠ name := fun _ hmember =>
    absurd hmember List.not_mem_nil
  refine (listMember_append_inj habsent habsent ?_).1
  rw [h]

/-- The member for a list is as finite as its items. -/
theorem finiteMembers_listMember (name : String) {items : List Value} (h : ∀ v ∈ items, v.Finite) :
    ∀ member ∈ listMember name items, member.2.Finite := by
  intro member hmember
  rw [mem_listMember hmember]
  exact Value.finiteItems_iff.mpr h

/-- The JSON form of a diagnostic determines its message, its places and its path. -/
theorem toJson_injective : Function.Injective toJson := by
  intro d d' h
  -- where no places are listed, the path is not taken for them
  have hpath : ∀ items, ∀ member ∈ listMember "path" items, member.1 ≠ "locations" := by
    intro items member hmember
    rw [mem_listMember hmember]
    show "path" ≠ "locations"
    decide
  -- the message comes first, the two lists after it
  obtain ⟨hmessage, hmembers⟩ := List.cons.inj (Value.obj.inj h)
  obtain ⟨hlocations, hpaths⟩ := listMember_append_inj (hpath _) (hpath _) hmembers
  obtain ⟨message, locations, path⟩ := d
  obtain ⟨message', locations', path'⟩ := d'
  obtain rfl : message = message' := Value.str.inj (Prod.mk.inj hmessage).2
  obtain rfl : locations = locations' :=
    List.map_injective_iff.mpr Location.toJson_injective hlocations
  obtain rfl : path = path' :=
    List.map_injective_iff.mpr PathStep.toJson_injective (listMember_injective "path" hpaths)
  rfl

/-- Whatever a diagnostic says, its JSON form is finite. -/
theorem finite_toJson (d : Diagnostic) : d.toJson.Finite := by
  refine Value.finiteMembers_iff.mpr fun member hmember => ?_
  rcases List.mem_cons.mp hmember with rfl | hmember
  · exact trivial
  rcases List.mem_append.mp hmember with hmember | hmember
  · exact finiteMembers_listMember _ (by simpa using fun l _ => l.finite_toJson) _ hmember
  · exact finiteMembers_listMember _ (by simpa using fun step _ => step.finite_toJson) _ hmember

/-- The same holds of a list of diagnostics. -/
theorem finite_listToJson (ds : List Diagnostic) : (listToJson ds).Finite :=
  Value.finiteItems_iff.mpr (by simpa using fun d _ => d.finite_toJson)

/-- The JSON form of a list of diagnostics determines the list. -/
theorem listToJson_injective : Function.Injective listToJson := fun _ _ h =>
  List.map_injective_iff.mpr toJson_injective (Value.arr.inj h)

end Diagnostic

/-! ## Outputs and responses -/

namespace Output

/-- Whether the data has no infinite doubles. -/
def Finite (output : Output) : Prop := (output.data.getD .null).Finite

/-- An output is written with its data and its errors, so it is as finite as its data. -/
theorem finite_toJson {output : Output} (h : output.Finite) : output.toJson.Finite := by
  refine Value.finiteMembers_iff.mpr fun member hmember => ?_
  rcases List.mem_cons.mp hmember with rfl | hmember
  · exact h
  · exact Diagnostic.finiteMembers_listMember _ (by simpa using fun d _ => d.finite_toJson) _
      hmember

/-- The JSON form of an output determines its errors, and its data if it is there. -/
theorem toJson_eq_iff {output output' : Output} : output.toJson = output'.toJson ↔
    output.data.getD .null = output'.data.getD .null ∧ output.errors = output'.errors := by
  constructor
  · intro h
    obtain ⟨hdata, herrors⟩ := List.cons.inj (Value.obj.inj h)
    exact ⟨(Prod.mk.inj hdata).2, List.map_injective_iff.mpr Diagnostic.toJson_injective
      (Diagnostic.listMember_injective "errors" herrors)⟩
  · rintro ⟨hdata, herrors⟩
    rw [toJson, toJson, hdata, herrors]

end Output

namespace Response

/-- Whether the data, if there is any, has no infinite doubles. -/
def Finite : Response → Prop
  | executed output => output.Finite
  | _ => True

/-- The response with null for absent data. -/
def filled : Response → Response
  | executed output => executed { output with data := some (output.data.getD .null) }
  | response => response

end Response

namespace Gateway

/-- The body of a refusal determines its errors. -/
theorem errors_injective :
    Function.Injective fun errors => Value.obj [("errors", Diagnostic.listToJson errors)] := by
  intro errors errors' h
  refine Diagnostic.listToJson_injective ?_
  simpa using h

/-- The body of a reply is as finite as the response. -/
theorem finite_replyTo {response : Response} (h : response.Finite) :
    (replyTo response).2.Finite := by
  cases response with
  | executed output => exact Output.finite_toJson h
  | rejected errors => exact ⟨Diagnostic.finite_listToJson errors, trivial⟩
  | failed errors => exact ⟨Diagnostic.finite_listToJson errors, trivial⟩

/-- Status and body are those of one response, up to absent data. -/
theorem replyTo_eq_iff {response response' : Response} :
    replyTo response = replyTo response' ↔ response.filled = response'.filled := by
  constructor
  · intro h
    -- the status says which shape the response has, and the body all else
    obtain ⟨hstatus, hbody⟩ := Prod.mk.inj h
    cases response with
    | executed output =>
      cases response' with
      | executed output' =>
        obtain ⟨hdata, herrors⟩ := Output.toJson_eq_iff.mp hbody
        rw [Response.filled, Response.filled, hdata, herrors]
      | _ => exact absurd hstatus (by simp)
    | rejected errors =>
      cases response' with
      | rejected errors' => rw [errors_injective hbody]
      | _ => exact absurd hstatus (by simp)
    | failed errors =>
      cases response' with
      | failed errors' => rw [errors_injective hbody]
      | _ => exact absurd hstatus (by simp)
  · intro h
    -- absent data is written as null, so a reply does not tell the two apart
    have hfilled : ∀ r : Response, replyTo r.filled = replyTo r := fun r => by cases r <;> rfl
    rw [← hfilled response, h, hfilled response']

end Gateway
end TieredQuery
