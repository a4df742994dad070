import Mentions.Span.Codec

/-! # Types and nodes as JSON

Every record is written as an object with all of its fields, and read from an object or from an
array of the fields in order. A node carries its kind under the name `kind`, or as the first item
of an array; nothing inside a node may be unreadable, wherever it stands.
-/

namespace Mentions

open Json (fields? required withDefault nullable)

namespace TypeNode

/-- A type from its label and its component. -/
def ofParts (label : TypeLabel) : Option TypeNode → TypeNode
  | none => plain label
  | some component => array label component

/-- Reads a type with at most `depth` layers of components. -/
def decode : Nat → Json → Option TypeNode
  | 0, _ => none
  | depth + 1, v =>
    match fields? ["name", "range", "component", "nameEnd", "selfRedirect"] v with
    | some [name, range, component, nameEnd, selfRedirect] => do
      let name ← required Json.string? name
      let extent ← nullable Extent.ofJson? range
      let component ← nullable (decode depth) component
      let nameEnd ← nullable Json.int32? nameEnd
      let selfRedirect ← withDefault false Json.bool? selfRedirect
      return ofParts ⟨name, extent, nameEnd, selfRedirect⟩ component
    | _ => none

def ofJson? (v : Json) : Option TypeNode := decode (v.height + 1) v

/-- The fields of a type, given its component. -/
def fieldsOf (l : TypeLabel) (component : Json) : List (String × Json) :=
  [("name", .string l.name), ("range", Json.ofOption Extent.toJson l.extent),
    ("component", component), ("nameEnd", Json.ofOption (.integer ·.toInt) l.nameEnd),
    ("selfRedirect", .bool l.selfRedirect)]

def members : TypeNode → List (String × Json)
  | plain l => fieldsOf l .null
  | array l component => fieldsOf l (.object component.members)

def toJson (t : TypeNode) : Json := .object t.members

end TypeNode

namespace Node

/-- Reads a node of the given kind from a record of the fields beside the kind. A kind that is not
known is a node of another sort, of which nothing else is read. -/
def ofFields? (kind : String) (body : Json) : Option Node :=
  match kind with
  | "classExpression" =>
    match fields? ["operand", "range"] body with
    | some [operand, range] => do
      return classLiteral (← required TypeNode.ofJson? operand) (← nullable Extent.ofJson? range)
    | _ => none
  | "classReference" => (TypeNode.ofJson? body).map typeUse
  | "import" =>
    match fields? ["range"] body with
    | some [range] => (nullable Extent.ofJson? range).map importLine
    | _ => none
  | "annotation" =>
    match fields? ["class", "range"] body with
    | some [type, range] => do
      return annotationUse (← required TypeNode.ofJson? type) (← nullable Extent.ofJson? range)
    | _ => none
  | "constructor" =>
    match fields? ["declaringClass", "nameStart", "nameEnd", "range"] body with
    | some [declaring, nameStart, nameEnd, range] => do
      return constructor (← required TypeNode.ofJson? declaring)
        (← required Json.int32? nameStart) (← required Json.int32? nameEnd)
        (← nullable Extent.ofJson? range)
    | _ => none
  | _ =>
    match body with
    | .array (_ :: _) => none
    | _ => some other

def ofJson? (v : Json) : Option Node :=
  if v.sound then
    match v with
    | .object members =>
      match Json.member? members "kind" with
      | some (some (.string kind)) => ofFields? kind (.object (members.filter (·.1 != "kind")))
      | _ => none
    | .array (.string kind :: rest) => ofFields? kind (.array rest)
    | _ => none
  else none

/-- The kind of a node and its fields. -/
def members : Node → List (String × Json)
  | classLiteral operand extent =>
    [("kind", .string "classExpression"), ("operand", operand.toJson),
      ("range", Json.ofOption Extent.toJson extent)]
  | typeUse type => ("kind", .string "classReference") :: type.members
  | importLine extent =>
    [("kind", .string "import"), ("range", Json.ofOption Extent.toJson extent)]
  | annotationUse type extent =>
    [("kind", .string "annotation"), ("class", type.toJson),
      ("range", Json.ofOption Extent.toJson extent)]
  | constructor declaring nameStart nameEnd extent =>
    [("kind", .string "constructor"), ("declaringClass", declaring.toJson),
      ("nameStart", .integer nameStart.toInt), ("nameEnd", .integer nameEnd.toInt),
      ("range", Json.ofOption Extent.toJson extent)]
  | other => [("kind", .string "other")]

def toJson (n : Node) : Json := .object n.members

end Node

namespace Confidence

def name : Confidence → String
  | exact => "EXACT"
  | inferred => "INFERRED"
  | looselyInferred => "LOOSELY_INFERRED"
  | unknown => "UNKNOWN"

def ofName? : String → Option Confidence
  | "EXACT" => some exact
  | "INFERRED" => some inferred
  | "LOOSELY_INFERRED" => some looselyInferred
  | "UNKNOWN" => some unknown
  | _ => none

def ofJson? (v : Json) : Option Confidence := v.case?.bind ofName?

def toJson (c : Confidence) : Json := .string c.name

end Confidence

namespace Inference

def ofJson? (v : Json) : Option Inference :=
  match fields? ["type", "confidence"] v with
  | some [type, confidence] => do
    return ⟨← nullable TypeNode.ofJson? type,
      ← withDefault .unknown Confidence.ofJson? confidence⟩
  | _ => none

def toJson (i : Inference) : Json :=
  .object [("type", Json.ofOption TypeNode.toJson i.type?), ("confidence", i.confidence.toJson)]

end Inference
end Mentions
