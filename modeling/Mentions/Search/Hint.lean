import Mentions.Node
import Mentions.Notice
import Mentions.Text.Scan

/-! # Where a reference probably stands

The node says which type it refers to and between which offsets, its hint. The hint is only where
the look for the name begins and ends; one unit past its end is looked at too.
-/

namespace Mentions

/-- The offsets between which a name is looked for. -/
structure Hint where
  start : Int
  stop : Int
  deriving DecidableEq, Repr

namespace Node

/-- The type that the node refers to. A class literal is inferred as the type of classes, but what
it refers to is the class it names. -/
def referredType? (n : Node) (i : Inference) : Option TypeNode :=
  match n with
  | annotationUse type _ => some type
  | constructor declaring .. => some declaring
  | classLiteral operand _ => if i.isMetatype then some operand else i.type?
  | _ => i.type?

/-- The recorded end that has to be positive for the node to stand in a source at all. -/
def sourceEnd : Node → Int
  | typeUse type => type.located.stop
  | n => n.stop

/-- The greatest offset. -/
def maxOffset : Int := 2147483647

/-- The hint of a node, or why it is no reference. The name of a constructor made up for a script
is recorded as the first character. -/
def hint : Node → Except SkipReason Hint
  | importLine extent | classLiteral _ extent => .ok ⟨startOf extent, stopOf extent⟩
  | typeUse type =>
    if type.isDeclaration then .error .declaration
    else if type.label.selfRedirect then .error .scriptClass
    else .ok ⟨type.located.start, type.located.stop⟩
  | constructor _ nameStart nameEnd _ =>
    let stop := min (nameEnd.toInt + 1) maxOffset
    if nameStart.toInt = 0 ∧ stop = 1 then .error .scriptConstructor
    else .ok ⟨nameStart.toInt, stop⟩
  | annotationUse type _ => .ok ⟨type.start, type.stop⟩
  | other => .error .noReference

end Node

/-- Looks for one spelling of a name near the hint. -/
def findSpelling (spelling : String) (source : SourceText) (h : Hint) (caseSensitive : Bool) :
    Option Span :=
  let needle := Text.units spelling
  (Text.find? needle source.units caseSensitive h.start (h.stop + 1)).map (⟨·, needle.length⟩)

/-- The span of the type's name near the hint: of the qualified name, if the hint has room for it
and it is there, else of the simple name. -/
def locateInText (type : TypeNode) (source : SourceText) (h : Hint) (caseSensitive : Bool) :
    Option Span :=
  let qualified :=
    if (Text.unitLength type.name : Int) ≤ h.stop - h.start then
      findSpelling type.name source h caseSensitive
    else none
  qualified <|> findSpelling type.simpleName source h caseSensitive

/-- What is logged about looking for a name. -/
def locateNotices (type : TypeNode) (h : Hint) : Option Span → List Notice
  | some _ => []
  | none => [.absent type.name h.start h.stop]

/-- The span of the type's own recorded offsets, if they enclose anything. -/
def recordedSpan (type : TypeNode) : Option Span :=
  if 0 ≤ type.start ∧ type.start < type.stop then
    some ⟨type.start.toNat, (type.stop - type.start).toNat⟩
  else none

end Mentions
