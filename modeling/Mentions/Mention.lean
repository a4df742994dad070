import Mentions.Element
import Mentions.Json.Printer
import Mentions.Span.Codec

/-! # Mentions, their reports and their consumers

A mention is a reference to the searched type with its exact place. What is printed of it is its
report, with the mentioned text and its range when the source unit is loaded. Mentions are offered
to a sink, which may refuse them. A sink says under which path it is known, and its module, the path
without generic arguments and without the last segment, decides whether it gets mentions as
accurate.
-/

namespace Mentions

/-- How far a consumer can trust a mention. -/
inductive Accuracy where
  | accurate
  /-- The type was inferred rather than known. -/
  | inaccurate
  deriving DecidableEq, Repr

namespace Accuracy

def name : Accuracy → String
  | accurate => "accurate"
  | inaccurate => "inaccurate"

def ofName? : String → Option Accuracy
  | "accurate" => some accurate
  | "inaccurate" => some inaccurate
  | _ => none

def ofJson? (v : Json) : Option Accuracy := v.case?.bind ofName?

end Accuracy

/-- The participant that mentions are reported for when no other is named. -/
def defaultParticipant : String := "typeref-search"

structure Mention where
  element : Element
  accuracy : Accuracy
  span : Span
  insideDocComment : Bool
  participant : String
  resource : Option String

/-! ## Reports -/

structure Report where
  element : String
  accuracy : Accuracy
  span : Span
  text : Option String
  range : Option (Position × Position)

namespace Report

def ofMention (m : Mention) : Report where
  element := m.element.handle
  accuracy := m.accuracy
  span := m.span
  text := m.element.unit.map (·.source.slice m.span.offset m.span.length)
  range := m.element.unit.map (·.source.range m.span)

/-- The report as JSON; an absent text or range is left out. -/
def toJson (r : Report) : Json :=
  .object <|
    [("element", .string r.element), ("accuracy", .string r.accuracy.name),
      ("offset", .integer r.span.offset), ("length", .integer r.span.length)]
    ++ (r.text.map fun t => ("text", Json.string t)).toList
    ++ (r.range.map fun range => ("range", rangeJson range)).toList

/-- The line that is printed. -/
def line (r : Report) : String := r.toJson.render

end Report

/-! ## Consumers -/

inductive Refusal where
  | rejected (reason : String)
  | closed
  deriving DecidableEq, Repr

def Refusal.message : Refusal → String
  | rejected reason => "match rejected: " ++ reason
  | closed => "requestor is closed"

/-- A consumer of mentions, as a machine over its states. -/
structure Sink (σ : Type) where
  /-- The path under which the sink is known. -/
  origin : String
  /-- The answer to an offered mention: a refusal, or none when it is taken. -/
  offer : σ → Mention → Option Refusal × σ

/-- The text before the last double colon, if there is one. -/
def beforeLastSeparator : List Char → Option (List Char)
  | [] => none
  | c :: rest =>
    match beforeLastSeparator rest with
    | some kept => some (c :: kept)
    | none => if c = ':' && rest.head? = some ':' then some [] else none

/-- The module of a path: generic arguments and the last segment are dropped. -/
def owningModule (path : String) : String :=
  String.ofList ((beforeLastSeparator (path.toList.takeWhile (· != '<'))).getD [])

/-- Whether the text occurs in another, the empty text everywhere. -/
def occursIn (needle : List Char) : List Char → Bool
  | [] => needle.isEmpty
  | c :: rest => needle.isPrefixOf (c :: rest) || occursIn needle rest

/-- The sink that takes every mention and keeps them in order. -/
def collector : Sink (Array Mention) where
  origin := "typeref_search::search::requestor::CollectingRequestor"
  offer kept m := (none, kept.push m)

end Mentions
