import Mentions.Proofs.Node.Codec
import Mentions.Visit.Dump

/-! # Recorded visits are read back from JSON

All that is written of a visit is read back; the source unit of its element is not written.
-/

namespace Mentions

open Json (fields? member? required withDefault nullable_ofOption legible_ofOption)

namespace Element

theorem ofJson?_toJson (e : Element) : ofJson? e.toJson = some { e with unit := none } := by
  have hnull : ∀ s : String, Json.string s ≠ .null := nofun
  have hresource : Json.nullable Json.string? (some (Json.ofOption .string e.resource)) =
      some e.resource := nullable_ofOption hnull (fun _ => rfl) e.resource
  simp [ofJson?, toJson, fields?, member?, required, Json.string?, hresource]

theorem unit_of_ofJson? {v : Json} {e : Element} (h : ofJson? v = some e) : e.unit = none := by
  unfold ofJson? at h
  split at h
  · simp only [Option.bind_eq_bind, Option.bind_eq_some_iff, Option.pure_def,
      Option.some.injEq] at h
    obtain ⟨_, -, _, -, rfl⟩ := h
    rfl
  · cases h

theorem legible_toJson (e : Element) : e.toJson.Legible := by
  have hresource := legible_ofOption Json.Legible.string e.resource
  refine .object ?_
  simp [hresource, Json.Legible.string]

end Element

namespace Visit

/-- The visit without the source unit of its element, as it is recorded. -/
def withoutUnit (v : Visit) : Visit := { v with element := { v.element with unit := none } }

theorem withoutUnit_of_no_source {v : Visit} (h : v.element.unit = none) : v.withoutUnit = v := by
  rw [withoutUnit, ← h]

theorem ofJson?_toJson (v : Visit) : ofJson? v.toJson = some v.withoutUnit := by
  simp [ofJson?, toJson, fields?, member?, required, withDefault, Node.ofJson?_toJson,
    Inference.ofJson?_toJson, Element.ofJson?_toJson, withoutUnit]

theorem unit_of_ofJson? {v : Json} {visit : Visit} (h : ofJson? v = some visit) :
    visit.element.unit = none := by
  unfold ofJson? at h
  split at h
  · simp only [Option.bind_eq_bind, Option.bind_eq_some_iff, Option.pure_def,
      Option.some.injEq] at h
    obtain ⟨_, -, _, -, e, he, rfl⟩ := h
    obtain ⟨field, -, he⟩ := Option.bind_eq_some_iff.mp he
    exact Element.unit_of_ofJson? he
  · cases h

theorem legible_toJson (v : Visit) : v.toJson.Legible := by
  refine .object ?_
  simp [Node.legible_toJson, Inference.legible_toJson, Element.legible_toJson]

end Visit

namespace Dump

theorem ofJson?_toJson (visits : List Visit) :
    ofJson? (toJson visits) = some (visits.map Visit.withoutUnit) := by
  have hvisits : (visits.map Visit.toJson).mapM Visit.ofJson? =
      some (visits.map Visit.withoutUnit) := by
    induction visits with
    | nil => rfl
    | cons v rest ih => simp [Visit.ofJson?_toJson, ih]
  simp [ofJson?, toJson, Json.items?, hvisits]

theorem legible_toJson (visits : List Visit) : (toJson visits).Legible := by
  refine .array ?_
  simp [Visit.legible_toJson]

theorem unit_of_mapM_ofJson? {items : List Json} {visits : List Visit}
    (h : items.mapM Visit.ofJson? = some visits) : ∀ v ∈ visits, v.element.unit = none := by
  induction items generalizing visits with
  | nil =>
    cases h
    intro v hv
    cases hv
  | cons item items ih =>
    simp only [List.mapM_cons, Option.pure_def, Option.bind_eq_bind, Option.bind_eq_some_iff,
      Option.some.injEq] at h
    obtain ⟨v, hv, rest, hrest, rfl⟩ := h
    exact List.forall_mem_cons.mpr ⟨Visit.unit_of_ofJson? hv, ih hrest⟩

/-- No recorded visit has a source unit. -/
theorem unit_of_parse? {text : String} {visits : List Visit} (h : parse? text = some visits) :
    ∀ v ∈ visits, v.element.unit = none := by
  obtain ⟨json, -, hjson⟩ := Option.bind_eq_some_iff.mp h
  obtain ⟨items, -, hitems⟩ := Option.bind_eq_some_iff.mp hjson
  exact unit_of_mapM_ofJson? hitems

theorem map_withoutUnit {visits : List Visit}
    (h : ∀ v ∈ visits, v.element.unit = none) : visits.map Visit.withoutUnit = visits := by
  rw [List.map_congr_left fun v hv => Visit.withoutUnit_of_no_source (h v hv), List.map_id']

/-- **What is recorded is read back.** Types, nodes and visits of elements without a source unit are
read back from what they are written as: from the JSON value, however deep it is nested, and from
its compact text, unless that nests more than 127 levels. So is a dump of such visits. -/
theorem reads_back_recorded :
    (∀ t, ReadsBack TypeNode.toJson TypeNode.ofJson? t) ∧
    (∀ n, ReadsBack Node.toJson Node.ofJson? n) ∧
    (∀ v : Visit, v.element.unit = none → ReadsBack Visit.toJson Visit.ofJson? v) ∧
    ∀ visits : List Visit, (∀ v ∈ visits, v.element.unit = none) →
      ofJson? (toJson visits) = some visits ∧
        ((toJson visits).height ≤ 127 → parse? (toJson visits).render = some visits) := by
  refine ⟨?_, ?_, ?_, ?_⟩
  · exact fun t => .of_value t.legible_toJson t.ofJson?_toJson
  · exact fun n => .of_value n.legible_toJson n.ofJson?_toJson
  · intro v hunit
    have hvalue : Visit.ofJson? v.toJson = some v := by
      rw [Visit.ofJson?_toJson, Visit.withoutUnit_of_no_source hunit]
    exact .of_value v.legible_toJson hvalue
  · intro visits hunit
    have hvalue : ofJson? (toJson visits) = some visits := by
      rw [ofJson?_toJson, map_withoutUnit hunit]
    refine ⟨hvalue, fun hheight => ?_⟩
    exact (ReadsBack.of_value (legible_toJson visits) hvalue).text hheight

namespace Sample

/-- An array of arrays, of which only the innermost type records where it stands. -/
def layered : TypeNode :=
  .arrayOf (.arrayOf ((TypeNode.named "pkg.Foo").withExtent (-1) 2147483647))

/-- Visits of a constructor and of an annotation in a compiled class. -/
def visits : List Visit :=
  [⟨.constructor layered (-2147483648) 0 none, ⟨some (layered.declared 7), .looselyInferred⟩,
      ⟨"Bar.class/\"Bar\"\n\x01", some "lib\\😀.class", none⟩⟩,
    ⟨.annotationUse layered (some ⟨3, 1⟩), .untyped, ⟨"", none, none⟩⟩]

end Sample

theorem sample_visits_read_back :
    Sample.layered.toJson.height ≤ 127 ∧
    (Json.parse? Sample.layered.toJson.render).bind TypeNode.ofJson? = some Sample.layered ∧
    (∀ v ∈ Sample.visits, v.element.unit = none) ∧ (toJson Sample.visits).height ≤ 127 ∧
    parse? (toJson Sample.visits).render = some Sample.visits := by
  obtain ⟨htype, -, -, hdump⟩ := reads_back_recorded
  have hlayered : Sample.layered.toJson.height ≤ 127 := by decide
  have hunit : ∀ v ∈ Sample.visits, v.element.unit = none := by
    simp [Sample.visits]
  have hheight : (toJson Sample.visits).height ≤ 127 := by decide
  exact ⟨hlayered, (htype Sample.layered).text hlayered, hunit, hheight,
    (hdump Sample.visits hunit).2 hheight⟩

end Dump
end Mentions
