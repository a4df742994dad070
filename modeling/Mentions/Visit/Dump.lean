import Mentions.Json.Reader
import Mentions.Node.Codec
import Mentions.Visit

/-! # Recorded visits as JSON

A dump is a JSON array of visits. Source units are not part of it; the loader gives every element
the unit it is called with, if any.
-/

namespace Mentions

open Json (fields? required withDefault nullable)

namespace Element

def ofJson? (v : Json) : Option Element :=
  match fields? ["handle", "resource"] v with
  | some [handle, resource] => do
    return ⟨← required Json.string? handle, ← nullable Json.string? resource, none⟩
  | _ => none

def toJson (e : Element) : Json :=
  .object [("handle", .string e.handle), ("resource", Json.ofOption .string e.resource)]

end Element

namespace Visit

def ofJson? (v : Json) : Option Visit :=
  match fields? ["node", "result", "element"] v with
  | some [node, result, element] => do
    return ⟨← required Node.ofJson? node, ← withDefault .untyped Inference.ofJson? result,
      ← required Element.ofJson? element⟩
  | _ => none

def toJson (v : Visit) : Json :=
  .object [("node", v.node.toJson), ("result", v.inference.toJson),
    ("element", v.element.toJson)]

/-- The visit with another source unit for its element. -/
def withUnit (unit : SourceUnit) (v : Visit) : Visit :=
  { v with element := { v.element with unit := some unit } }

end Visit

namespace Dump

def ofJson? (v : Json) : Option (List Visit) := do (← v.items?).mapM Visit.ofJson?

def toJson (visits : List Visit) : Json := .array (visits.map Visit.toJson)

/-- Reads the text of a dump. -/
def parse? (text : String) : Option (List Visit) := do ofJson? (← Json.parse? text)

/-- Why visits or a source cannot be loaded. -/
inductive LoadError where
  | unreadable (path : String) (error : ReadError)
  | malformed (path reason : String)
  deriving DecidableEq, Repr

def LoadError.message : LoadError → String
  | unreadable path error => "failed to read " ++ path ++ ": " ++ error.message
  | malformed path reason => "malformed events in " ++ path ++ ": " ++ reason

variable {m : Type → Type} [Monad m]

/-- Loads the visits of a dump file and gives their elements the unit, if there is one. -/
def load (files : Files m) (path : String) (unit : Option SourceUnit) :
    m (Except LoadError (List Visit)) := do
  match ← files.read path with
  | .error e => return .error (.unreadable path e)
  | .ok text =>
    match parse? text with
    | none => return .error (.malformed path "not a list of visits")
    | some visits =>
      match unit with
      | none => return .ok visits
      | some unit => return .ok (visits.map (·.withUnit unit))

/-- Loads a source unit. -/
def loadUnit (files : Files m) (path : String) : m (Except LoadError SourceUnit) := do
  match ← SourceUnit.load files path with
  | .error e => return .error (.unreadable path e)
  | .ok unit => return .ok unit

end Dump
end Mentions
