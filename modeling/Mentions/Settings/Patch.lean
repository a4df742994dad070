import Mentions.Json
import Mentions.Settings

/-! # Settings from payloads

A payload is any JSON value, and so is its member for the settings section. Each of the two is read
as a patch, and one that does not read as a patch changes nothing. In a patch, sections and fields
may be absent or null, and other names do not count.
-/

namespace Mentions

open Json (fields? nullable)

structure Patch where
  includeConstructors : Option Bool
  caseSensitive : Option Bool
  fallbackToOffsets : Option Bool
  alwaysAccurateMarker : Option String
  level : Option Level
  deriving DecidableEq, Repr

namespace Patch

/-- Reads the named fields of an object; an absent section has none of them. -/
def sectionFields? (names : List String) : Option Json → Option (List (Option Json))
  | none | some .null => some (names.map fun _ => none)
  | some (.object members) => fields? names (.object members)
  | some _ => none

def level? (v : Json) : Option Level := v.case?.bind Level.ofName?

/-- Reads a patch. One wrong section or field makes the whole value no patch. -/
def ofJson? : Json → Option Patch
  | .object members =>
    match fields? ["matching", "textSearch", "accuracy", "logging"] (.object members) with
    | some [matching, textSearch, accuracy, logging] =>
      match sectionFields? ["includeConstructors"] matching,
        sectionFields? ["caseSensitive", "fallbackToAstOffsets"] textSearch,
        sectionFields? ["alwaysAccurateMarker"] accuracy, sectionFields? ["level"] logging with
      | some [constructors], some [caseSensitive, fallback], some [marker], some [level] => do
        return ⟨← nullable Json.bool? constructors, ← nullable Json.bool? caseSensitive,
          ← nullable Json.bool? fallback, ← nullable Json.string? marker, ← nullable level? level⟩
      | _, _, _, _ => none
    | _ => none
  | _ => none

end Patch

namespace Settings

/-- The settings with the fields of a patch in place of their own. -/
def apply (s : Settings) (p : Patch) : Settings where
  includeConstructors := p.includeConstructors.getD s.includeConstructors
  caseSensitive := p.caseSensitive.getD s.caseSensitive
  fallbackToOffsets := p.fallbackToOffsets.getD s.fallbackToOffsets
  alwaysAccurateMarker := p.alwaysAccurateMarker.getD s.alwaysAccurateMarker
  level := p.level.getD s.level

/-- The values in a payload that can be patches: itself, then its settings section. -/
def candidates (payload : Json) : List Json :=
  match payload with
  | .object members =>
    match members.lookup settingsKey with
    | some inner => [payload, inner]
    | none => [payload]
  | _ => [payload]

/-- Applies a candidate, if it is a patch. -/
def applyCandidate (s : Settings) (candidate : Json) : Settings :=
  match Patch.ofJson? candidate with
  | some p => s.apply p
  | none => s

def merge (s : Settings) (payload : Json) : Settings :=
  ((candidates payload).foldl applyCandidate s).normalize

/-- The default settings after a payload, if there is one. -/
def ofPayload : Option Json → Settings
  | none => .default
  | some payload => Settings.default.merge payload

end Settings
end Mentions
