import Mentions.Files
import Mentions.Path
import Mentions.Text.Source

/-! # Source units and enclosing elements

Matches are reported against the declaration a node sits in, its element. The source unit of the
element, where one is loaded, is the text in which the reference is looked for.
-/

namespace Mentions

/-- A source file whose text is loaded. -/
structure SourceUnit where
  id : String
  source : SourceText

namespace SourceUnit

/-- The identity of the file at a path: the canonical path where there is one. -/
def idOfPath {m : Type → Type} [Monad m] (files : Files m) (path : String) : m String := do
  return (← files.canonical path).getD path

/-- Loads the file at a path. -/
def load {m : Type → Type} [Monad m] (files : Files m) (path : String) :
    m (Except ReadError SourceUnit) := do
  match ← files.read path with
  | .error e => return .error e
  | .ok text => return .ok ⟨← idOfPath files path, .ofString text⟩

end SourceUnit

/-- The declaration around a visited node. -/
structure Element where
  /-- A stable name for the declaration. -/
  handle : String
  resource : Option String
  unit : Option SourceUnit

namespace Element

/-- Elements are told apart by handle and resource, resources as paths. -/
def same (a b : Element) : Bool :=
  a.handle == b.handle &&
    match a.resource, b.resource with
    | none, none => true
    | some r, some s => Path.same r s
    | _, _ => false

/-- The name of the text that offsets in this element index: the unit's identity, else the
resource. Elements with neither share one key. -/
def key (e : Element) : String :=
  match e.unit, e.resource with
  | some unit, _ => unit.id
  | none, some resource => resource
  | none, none => ""

end Element
end Mentions
