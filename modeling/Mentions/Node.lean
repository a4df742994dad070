/-! # Types and nodes of a visited syntax tree

A visitor that infers types reports the nodes it passes. Recorded offsets are signed 32-bit words
and only a hint: they may be missing, negative or off by one, and an array type may carry none
while the type of its elements does. Code that computes with offsets widens them to integers.
-/

namespace Mentions

abbrev Offset := Int32

/-- What a start or an end reads as when none was recorded. -/
def noOffset : Int := -1

structure Extent where
  start : Offset
  stop : Offset
  deriving DecidableEq, Repr

def startOf (extent : Option Extent) : Int := (extent.map (·.start.toInt)).getD noOffset

def stopOf (extent : Option Extent) : Int := (extent.map (·.stop.toInt)).getD noOffset

/-- What is recorded of a type apart from its elements. `nameEnd` is set where the type is
declared; a type that redirects to itself without one is the class made up for a script. -/
structure TypeLabel where
  name : String
  extent : Option Extent
  nameEnd : Option Offset
  selfRedirect : Bool
  deriving DecidableEq, Repr

/-- A type as a visitor sees it: one with a name alone, or an array of another. -/
inductive TypeNode where
  | plain (label : TypeLabel)
  | array (label : TypeLabel) (component : TypeNode)
  deriving DecidableEq, Repr

/-- The part of a qualified name after its last dot. -/
def simpleName (name : String) : String :=
  String.ofList (name.toList.reverse.takeWhile (· != '.')).reverse

namespace TypeNode

def label : TypeNode → TypeLabel
  | plain l => l
  | array l _ => l

def withLabel (l : TypeLabel) : TypeNode → TypeNode
  | plain _ => plain l
  | array _ component => array l component

def component? : TypeNode → Option TypeNode
  | plain _ => none
  | array _ component => some component

def name (t : TypeNode) : String := t.label.name

def start (t : TypeNode) : Int := startOf t.label.extent

def stop (t : TypeNode) : Int := stopOf t.label.extent

/-- The name without its package; the parts of a nested name stay together. -/
def simpleName (t : TypeNode) : String := Mentions.simpleName t.name

def isArray (t : TypeNode) : Bool := t.component?.isSome

/-- A declaration records where the declared name ends. -/
def isDeclaration (t : TypeNode) : Bool := t.label.nameEnd.any (0 < ·.toInt)

def innermost : TypeNode → TypeNode
  | plain l => plain l
  | array _ component => component.innermost

/-- The direct component where that has an extent, else the type itself. -/
def located : TypeNode → TypeNode
  | plain l => plain l
  | array l component => if component.label.extent.isSome then component else array l component

/-- A type of which only the name is known. -/
def named (name : String) : TypeNode := plain ⟨name, none, none, false⟩

/-- The array type over a component; it records nothing but its name. -/
def arrayOf (component : TypeNode) : TypeNode :=
  array ⟨component.name ++ "[]", none, none, false⟩ component

def withExtent (t : TypeNode) (start stop : Offset) : TypeNode :=
  t.withLabel { t.label with extent := some ⟨start, stop⟩ }

/-- The declaration of the type, whose name ends at the given offset. -/
def declared (t : TypeNode) (nameEnd : Offset) : TypeNode :=
  t.withLabel { t.label with nameEnd := some nameEnd, selfRedirect := true }

def scriptClass (t : TypeNode) : TypeNode :=
  t.withLabel { t.label with selfRedirect := true }

end TypeNode

/-- The nodes a visitor reports, by what they can refer to. -/
inductive Node where
  /-- A class used as a value, such as `Foo.class`; `operand` is the class it names. -/
  | classLiteral (operand : TypeNode) (extent : Option Extent)
  | typeUse (type : TypeNode)
  /-- An import, whose extent spans the whole statement. -/
  | importLine (extent : Option Extent)
  | annotationUse (type : TypeNode) (extent : Option Extent)
  | constructor (declaring : TypeNode) (nameStart nameEnd : Offset) (extent : Option Extent)
  /-- Any other node; none of them refers to a type. -/
  | other
  deriving DecidableEq, Repr

namespace Node

/-- The word for the kind of node in log lines. -/
def kindName : Node → String
  | classLiteral .. => "class-expression"
  | typeUse .. => "class-reference"
  | importLine .. => "import"
  | annotationUse .. => "annotation"
  | constructor .. => "constructor"
  | other => "other"

def extent? : Node → Option Extent
  | classLiteral _ e | importLine e | annotationUse _ e | constructor _ _ _ e => e
  | typeUse t => t.label.extent
  | other => none

def start (n : Node) : Int := startOf n.extent?

def stop (n : Node) : Int := stopOf n.extent?

end Node

inductive Confidence where
  | exact
  | inferred
  | looselyInferred
  | unknown
  deriving DecidableEq, Repr

structure Inference where
  type? : Option TypeNode
  confidence : Confidence
  deriving DecidableEq, Repr

/-- The type that class literals are inferred to have. -/
def metatype : String := "java.lang.Class"

namespace Inference

def untyped : Inference := ⟨none, .unknown⟩

def isMetatype (i : Inference) : Bool := i.type?.any (·.name == metatype)

end Inference
end Mentions
