import Mentions.Json
import Mentions.Node
import Mentions.Text.Source

/-! # Stretches of text as JSON

Recorded extents and spans are read from an object or an array of their two fields. Extents are
written as they are read; a range is written with the positions of both its ends.
-/

namespace Mentions

open Json (fields? required)

namespace Extent

def ofJson? (v : Json) : Option Extent :=
  match fields? ["start", "end"] v with
  | some [start, stop] => do
    return ⟨← required Json.int32? start, ← required Json.int32? stop⟩
  | _ => none

def toJson (e : Extent) : Json :=
  .object [("start", .integer e.start.toInt), ("end", .integer e.stop.toInt)]

end Extent

def Span.ofJson? (v : Json) : Option Span :=
  match fields? ["offset", "length"] v with
  | some [offset, length] => do
    return ⟨← required Json.nat64? offset, ← required Json.nat64? length⟩
  | _ => none

def Position.toJson (p : Position) : Json :=
  .object [("line", .integer p.line), ("character", .integer p.character)]

/-- The two ends of a range as JSON. -/
def rangeJson (r : Position × Position) : Json :=
  .object [("start", r.1.toJson), ("end", r.2.toJson)]

end Mentions
