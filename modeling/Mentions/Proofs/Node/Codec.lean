import Mentions.Node.Codec
import Mentions.Proofs.Json.Fields
import Mentions.Proofs.Json.Parse

/-! # Types and nodes are read back from JSON

Every field is written, so each is found again under its name; what is inside a node keeps its names
apart from the name of the kind.
-/

namespace Mentions

/-- What is written is read back: from its value, and from its compact text unless it is nested too
deep. -/
structure ReadsBack {α : Type} (encode : α → Json) (decode : Json → Option α) (a : α) : Prop where
  value : decode (encode a) = some a
  text : (encode a).height ≤ Json.maxLevel → (Json.parse? (encode a).render).bind decode = some a

theorem ReadsBack.of_value {α : Type} {encode : α → Json} {decode : Json → Option α} {a : α}
    (hlegible : (encode a).Legible) (hvalue : decode (encode a) = some a) :
    ReadsBack encode decode a where
  value := hvalue
  text hheight := by rw [Json.parse?_render hlegible hheight, Option.bind_some, hvalue]

namespace Json

theorem soundItems_eq_all (items : List Json) : soundItems items = items.all sound := by
  induction items with
  | nil => rfl
  | cons v rest ih => rw [soundItems, ih, List.all_cons]

theorem soundMembers_eq_all (members : List (String × Json)) :
    soundMembers members = members.all (·.2.sound) := by
  induction members with
  | nil => rfl
  | cons m rest ih => rw [soundMembers, ih, List.all_cons]

theorem Legible.sound {v : Json} (h : v.Legible) : v.sound = true := by
  induction h with
  | null => rfl
  | bool b => rfl
  | integer h => rfl
  | string s => rfl
  | array _ ih => rwa [Json.sound, soundItems_eq_all, List.all_eq_true]
  | object _ ih => rwa [Json.sound, soundMembers_eq_all, List.all_eq_true]

theorem legible_toInt (n : Int32) : Legible (.integer n.toInt) := by
  have hlow := n.le_toInt
  have hhigh := n.toInt_lt
  exact .integer (show _ < 2 ^ 64 by omega)

theorem legible_ofOption {α : Type} {encode : α → Json} (h : ∀ a, (encode a).Legible)
    (o : Option α) : (ofOption encode o).Legible := by
  cases o with
  | none => exact .null
  | some a => exact h a

end Json

open Json (fields? member? required withDefault nullable_ofOption int32?_toInt legible_ofOption
  legible_toInt)

namespace Extent

theorem ofJson?_toJson (e : Extent) : ofJson? e.toJson = some e := by
  simp [ofJson?, toJson, fields?, member?, required, int32?_toInt]

theorem legible_toJson (e : Extent) : e.toJson.Legible := by
  refine .object ?_
  simp [legible_toInt]

theorem nullable_ofJson? (extent : Option Extent) :
    Json.nullable ofJson? (some (Json.ofOption toJson extent)) = some extent :=
  nullable_ofOption nofun ofJson?_toJson extent

end Extent

namespace TypeNode

/-- The fields of a type are read back with what is read from the component. -/
theorem decode_fieldsOf {l : TypeLabel} {component : Json} {c : Option TypeNode} {depth : Nat}
    (hc : Json.nullable (decode depth) (some component) = some c) :
    decode (depth + 1) (.object (fieldsOf l component)) = some (ofParts l c) := by
  have hextent := Extent.nullable_ofJson? l.extent
  have hend : Json.nullable Json.int32? (some (Json.ofOption (.integer ·.toInt) l.nameEnd)) =
      some l.nameEnd := nullable_ofOption nofun int32?_toInt l.nameEnd
  simp [decode, fieldsOf, fields?, member?, required, withDefault, Json.string?, Json.bool?, hc,
    hextent, hend]

theorem toJson_plain (l : TypeLabel) : (plain l).toJson = .object (fieldsOf l .null) := by
  rw [toJson, members]

theorem toJson_array (l : TypeLabel) (component : TypeNode) :
    (array l component).toJson = .object (fieldsOf l component.toJson) := by
  rw [toJson, members, toJson]

theorem height_component_lt (l : TypeLabel) (component : Json) :
    component.height < (Json.object (fieldsOf l component)).height := by
  rw [Json.height]
  have hmem : ("component", component) ∈ fieldsOf l component := by simp [fieldsOf]
  exact Nat.lt_succ_of_le (Json.height_le_heightMembers hmem)

theorem decode_toJson (t : TypeNode) :
    ∀ depth, t.toJson.height < depth → decode depth t.toJson = some t := by
  induction t with
  | plain l =>
    intro depth h
    rw [toJson_plain] at h ⊢
    cases depth with
    | zero => omega
    | succ depth =>
      have hc : Json.nullable (decode depth) (some .null) = some none := rfl
      exact decode_fieldsOf hc
  | array l component ih =>
    intro depth h
    rw [toJson_array] at h ⊢
    have hlt := height_component_lt l component.toJson
    cases depth with
    | zero => omega
    | succ depth =>
      have hc : Json.nullable (decode depth) (some component.toJson) = some (some component) := by
        have hnull : component.toJson ≠ .null := nofun
        rw [Json.nullable_of_ne_null hnull, ih depth (by omega), Option.map_some]
      exact decode_fieldsOf hc

theorem ofJson?_toJson (t : TypeNode) : ofJson? t.toJson = some t :=
  decode_toJson t _ (Nat.lt_succ_self _)

theorem nullable_ofJson? (type : Option TypeNode) :
    Json.nullable ofJson? (some (Json.ofOption toJson type)) = some type :=
  nullable_ofOption nofun ofJson?_toJson type

theorem legible_fieldsOf (l : TypeLabel) {component : Json} (hc : component.Legible) :
    ∀ m ∈ fieldsOf l component, m.2.Legible := by
  have hextent := legible_ofOption Extent.legible_toJson l.extent
  have hend := legible_ofOption legible_toInt l.nameEnd
  simp [fieldsOf, hextent, hend, hc, Json.Legible.string, Json.Legible.bool]

theorem legible_members (t : TypeNode) : ∀ m ∈ t.members, m.2.Legible := by
  induction t with
  | plain l => exact legible_fieldsOf l .null
  | array l component ih => exact legible_fieldsOf l (.object ih)

theorem legible_toJson (t : TypeNode) : t.toJson.Legible := .object t.legible_members

/-- No field of a type has the name of the kind. -/
theorem ne_kind_of_mem_members (t : TypeNode) : ∀ m ∈ t.members, m.1 ≠ "kind" := by
  cases t <;> simp [members, fieldsOf]

end TypeNode

namespace Node

theorem ofJson?_kind {kind : String} {fields : List (String × Json)}
    (hlegible : (Json.object (("kind", .string kind) :: fields)).Legible)
    (hkind : ∀ m ∈ fields, m.1 ≠ "kind") :
    ofJson? (.object (("kind", .string kind) :: fields)) = ofFields? kind (.object fields) := by
  have hnone : fields.filter (·.1 == "kind") = [] := by simpa using hkind
  have hall : fields.filter (·.1 != "kind") = fields := by simpa using hkind
  simp [ofJson?, hlegible.sound, member?, hnone, hall]

theorem legible_toJson (n : Node) : n.toJson.Legible := by
  have hextent := fun extent => legible_ofOption Extent.legible_toJson extent
  refine .object ?_
  cases n with
  | typeUse type => exact List.forall_mem_cons.mpr ⟨.string _, type.legible_members⟩
  | _ => simp [members, hextent, TypeNode.legible_toJson, legible_toInt, Json.Legible.string]

theorem ofJson?_toJson (n : Node) : ofJson? n.toJson = some n := by
  have hlegible := n.legible_toJson
  rw [toJson] at hlegible ⊢
  cases n with
  | classLiteral operand extent =>
    rw [members, ofJson?_kind hlegible (by simp)]
    simp [ofFields?, fields?, member?, required, TypeNode.ofJson?_toJson, Extent.nullable_ofJson?]
  | typeUse type =>
    rw [members, ofJson?_kind hlegible type.ne_kind_of_mem_members]
    have htype : TypeNode.ofJson? (.object type.members) = some type := type.ofJson?_toJson
    simp [ofFields?, htype]
  | importLine extent =>
    rw [members, ofJson?_kind hlegible (by simp)]
    simp [ofFields?, fields?, member?, Extent.nullable_ofJson?]
  | annotationUse type extent =>
    rw [members, ofJson?_kind hlegible (by simp)]
    simp [ofFields?, fields?, member?, required, TypeNode.ofJson?_toJson, Extent.nullable_ofJson?]
  | constructor declaring nameStart nameEnd extent =>
    rw [members, ofJson?_kind hlegible (by simp)]
    simp [ofFields?, fields?, member?, required, TypeNode.ofJson?_toJson, Extent.nullable_ofJson?,
      int32?_toInt]
  | other =>
    rw [members, ofJson?_kind hlegible (by simp)]
    rfl

end Node

theorem Confidence.ofJson?_toJson (c : Confidence) : ofJson? c.toJson = some c := by
  cases c <;> rfl

namespace Inference

theorem legible_toJson (i : Inference) : i.toJson.Legible := by
  have htype := legible_ofOption TypeNode.legible_toJson i.type?
  have hconfidence : i.confidence.toJson.Legible := .string _
  refine .object ?_
  simp [htype, hconfidence]

theorem ofJson?_toJson (i : Inference) : ofJson? i.toJson = some i := by
  have htype := TypeNode.nullable_ofJson? i.type?
  simp [ofJson?, toJson, fields?, member?, withDefault, htype, Confidence.ofJson?_toJson]

end Inference
end Mentions
