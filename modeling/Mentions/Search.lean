import Mentions.Query
import Mentions.Search.Hint
import Mentions.Settings

/-! # Searches

A search turns visits into located mentions of one type and offers each to a sink. What a visit
would yield does not depend on earlier visits; only the spans already taken do, and they keep a
span from being offered again, since initializers are visited once for each constructor they end
up in. A refused span is not remembered, so a later visit offers it again.
-/

namespace Mentions

/-- What is fixed during a search. -/
structure Search where
  target : String
  caseSensitive : Bool
  camelCase : Bool
  /-- Whether the sink gets every mention as accurate. -/
  alwaysAccurate : Bool
  participant : String
  settings : Settings

/-- A span together with the key of the text it lies in. -/
abbrev Spot := String × Span

/-- What changes during a search: the spots taken, latest first, and the sink. -/
structure SearchState (σ : Type) where
  taken : List Spot
  sink : σ

structure SearchStep (σ : Type) where
  offered : Option Mention
  notices : List Notice
  next : SearchState σ

def Mention.spot (m : Mention) : Spot := (m.element.key, m.span)

namespace Search

def ofQuery (q : Query) (origin participant : String) (settings : Settings) : Search where
  target := q.target
  caseSensitive := q.caseSensitive
  camelCase := q.camelCase
  alwaysAccurate :=
    occursIn settings.alwaysAccurateMarker.toList (owningModule origin).toList
  participant
  settings

def looksAt (s : Search) : Node → Bool
  | .classLiteral .. | .typeUse .. | .importLine .. | .annotationUse .. => true
  | .constructor .. => s.settings.includeConstructors
  | .other => false

/-- The type, without array layers, that a visit is a candidate mention of. -/
def candidate? (s : Search) (v : Visit) : Option TypeNode := do
  guard (s.looksAt v.node)
  let type := (← v.node.referredType? v.inference).innermost
  guard (type.name == s.target && 0 < v.node.sourceEnd)
  return type

/-- Locates a type in an element, and says what is logged on the way. -/
def locate (s : Search) (type : TypeNode) (e : Element) (h : Hint) : Option Span × List Notice :=
  match e.unit with
  | some unit =>
    let span := locateInText type unit.source h s.settings.caseSensitive
    (span, locateNotices type h span)
  | none =>
    if s.settings.fallbackToOffsets then
      (recordedSpan type, [.noSource e.handle type.name])
    else (none, [])

def accuracy (s : Search) (c : Confidence) : Accuracy :=
  if s.alwaysAccurate || c = .exact then .accurate else .inaccurate

/-- The mention that a visit yields by itself. -/
def mention (s : Search) (v : Visit) (span : Span) : Mention where
  element := v.element
  accuracy := s.accuracy v.inference.confidence
  span
  insideDocComment := false
  participant := s.participant
  resource := v.element.resource

/-- The mention that a visit yields, whatever was taken before, and what is logged until then. -/
def resolve (s : Search) (v : Visit) : Option Mention × List Notice :=
  match s.candidate? v with
  | none => (none, [])
  | some type =>
    match v.node.hint with
    | .error reason => (none, [.skipped v.node.kindName type.name reason])
    | .ok h =>
      let (span, notices) := s.locate type v.element h
      ((span.filter (!·.isEmpty)).map (s.mention v), notices)

/-- Offers the mention of a visit, unless its spot is taken. -/
def step {σ : Type} (s : Search) (sink : Sink σ) (state : SearchState σ) (v : Visit) :
    SearchStep σ :=
  match s.resolve v with
  | (none, notices) => ⟨none, notices, state⟩
  | (some m, notices) =>
    if m.spot ∈ state.taken then ⟨none, notices, state⟩
    else
      match sink.offer state.sink m with
      | (none, after) =>
        ⟨some m, notices ++ [.taken v.node.kindName s.target m.span],
          ⟨m.spot :: state.taken, after⟩⟩
      | (some refusal, after) =>
        ⟨some m, notices ++ [.refused v.element.handle refusal], ⟨state.taken, after⟩⟩

/-- The state of a search as a consumer of visits, with the log so far. -/
structure Progress (σ : Type) where
  state : SearchState σ
  log : Array Notice

def begin {σ : Type} (sink : σ) : Progress σ := ⟨⟨[], sink⟩, #[]⟩

/-- The search as a consumer of visits; it never asks to stop. -/
def visitor {σ : Type} (s : Search) (sink : Sink σ) : Visitor (Progress σ) := fun p v =>
  let done := s.step sink p.state v
  (.continue, ⟨done.next, p.log ++ done.notices⟩)

end Search
end Mentions
