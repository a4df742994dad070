import Mentions.Proofs.Search.Reference
import Mentions.Proofs.Text.Boundary
import Mentions.Mention

/-! # What is offered of a visit with a source

After any visits, a mention is offered exactly when the visit refers to the searched type, one of
the two spellings of the name stands near what the node records, and no mention was accepted there
before. The offered span reads that spelling, in whole characters.
-/

namespace Mentions.Search

/-! ## A source in which units and characters differ -/

namespace Sample

def file : SourceUnit := ⟨"Bar.groovy", .ofString "/*😀*/ import pkg.Foo😀; foo😀 x"⟩

def type (extent : Option Extent) : TypeNode := .plain ⟨"pkg.Foo😀", extent, none, false⟩

/-- The visit of a node of the source. -/
def visit (node : Node) : Visit :=
  ⟨node, ⟨some (type none), .exact⟩, ⟨"Bar.groovy/Bar", none, some file⟩⟩

def importVisit : Visit := visit (.importLine (some ⟨7, 23⟩))

/-- A use in lowercase, whose recorded end is one unit early and would cut a pair. -/
def useVisit : Visit := visit (.typeUse (type (some ⟨25, 29⟩)))

def search : Search :=
  .ofQuery ((Query.ofName "Foo😀").qualified "pkg") collector.origin defaultParticipant .default

def useMention : Mention := search.mention useVisit ⟨25, 5⟩

theorem use_offered : (search.step collector
    (search.after collector (begin #[]).state [importVisit]) useVisit).offered = some useMention :=
  rfl

end Sample

/-! ## Spans -/

variable {σ : Type} {s : Search} {sink : Sink σ} {start : σ} {visits : List Visit} {v : Visit}
  {unit : SourceUnit} {m : Mention}

theorem placed_of_offered {state : SearchState σ} (hu : v.element.unit = some unit)
    (hm : (s.step sink state v).offered = some m) :
    m.element = v.element ∧
      Placed s.target unit.source v.node.recorded.capped s.settings.caseSensitive m.span := by
  obtain ⟨-, -, -, -, span, hp, rfl⟩ :=
    (yields_eq_some_iff hu).mp (offered_eq_some_iff.mp hm).1
  exact ⟨rfl, hp⟩

/-- **An offered span reads the searched name.** It is not empty and lies in the source; there the
source reads the searched name or its part after the last dot, in the case that the settings ask
for; and it lies between the offsets recorded for the node, or ends one unit past them. -/
theorem offered_span_reads_name (hu : v.element.unit = some unit)
    (hm : (s.step sink (s.after sink (begin start).state visits) v).offered = some m) :
    0 < m.span.length ∧ m.span.offset + m.span.length ≤ unit.source.length ∧
      (∃ w, (w = s.target ∨ w = simpleName s.target) ∧ m.span.length = Text.unitLength w ∧
        Text.ReadsAt s.settings.caseSensitive (Text.units w) unit.source.units m.span.offset) ∧
      v.node.recorded.start ≤ m.span.offset ∧
      (m.span.offset + m.span.length : Int) ≤ v.node.recorded.stop + 1 := by
  obtain ⟨-, hp⟩ := placed_of_offered hu hm
  obtain ⟨w, hw, hl, ho⟩ := hp.spelled
  have hstart : v.node.recorded.start ≤ m.span.offset := ho.start_le
  have hstop : (m.span.offset + m.span.length : Int) ≤
      min (v.node.recorded.capped.stop + 1) unit.source.length := by
    rw [hl]; exact ho.le_stop
  have hcap : v.node.recorded.capped.stop ≤ v.node.recorded.stop := Int.min_le_left ..
  exact ⟨hp.length_pos, by omega, ⟨w, hw, hl, ho.reads⟩, hstart, by omega⟩

theorem sample_use_reads_name :
    Sample.useVisit.element.unit = some Sample.file ∧
    (Sample.search.step collector (Sample.search.after collector (begin #[]).state
      [Sample.importVisit]) Sample.useVisit).offered = some Sample.useMention ∧
    0 < Sample.useMention.span.length ∧
    25 + Sample.useMention.span.length ≤ Sample.file.source.length ∧
    (∃ w, (w = Sample.search.target ∨ w = simpleName Sample.search.target) ∧
      Sample.useMention.span.length = Text.unitLength w ∧
      Text.ReadsAt false (Text.units w) Sample.file.source.units 25) ∧
    25 ≤ (25 : Int) ∧ 25 + 5 ≤ (29 + 1 : Int) :=
  ⟨rfl, Sample.use_offered, offered_span_reads_name (v := Sample.useVisit) rfl Sample.use_offered⟩

/-- **An offered span is made of whole characters.** The source divides into what is before the
span, the span and what is after it, so that the reported text is that piece of the source, and its
units are those of the source at the span. -/
theorem offered_span_is_piece (hu : v.element.unit = some unit)
    (hm : (s.step sink (s.after sink (begin start).state visits) v).offered = some m) :
    ∃ before piece after : String, unit.source.text = before ++ piece ++ after ∧
      Text.unitLength before = m.span.offset ∧ Text.unitLength piece = m.span.length ∧
      (Report.ofMention m).text = some piece ∧
      Text.units piece = (unit.source.units.drop m.span.offset).take m.span.length := by
  obtain ⟨he, hp⟩ := placed_of_offered hu hm
  obtain ⟨w, -, hl, ho⟩ := hp.spelled
  have hread := ho.reads
  have hlen := hread.length_le ho.nonempty
  rw [unit.source.units_eq] at hread hlen
  obtain ⟨hstart, hstop⟩ := hread.uncut ho.nonempty
  rw [← hl] at hstop
  obtain ⟨before, piece, after, hs, hb, hpiece⟩ :=
    Text.exists_piece (by rw [hl]; exact hlen) hstart hstop
  obtain ⟨hunits, hslice⟩ := unit.source.slice_piece hs
  rw [hb, hpiece] at hunits hslice
  refine ⟨before, piece, after, hs, hb, hpiece, ?_, hunits.symm⟩
  simp [Report.ofMention, he, hu, hslice]

theorem sample_use_is_piece :
    Sample.useVisit.element.unit = some Sample.file ∧
    (Sample.search.step collector (Sample.search.after collector (begin #[]).state
      [Sample.importVisit]) Sample.useVisit).offered = some Sample.useMention ∧
    ∃ before piece after : String, Sample.file.source.text = before ++ piece ++ after ∧
      Text.unitLength before = 25 ∧ Text.unitLength piece = 5 ∧
      (Report.ofMention Sample.useMention).text = some piece ∧
      Text.units piece = (Sample.file.source.units.drop 25).take 5 :=
  ⟨rfl, Sample.use_offered, offered_span_is_piece (v := Sample.useVisit) rfl Sample.use_offered⟩

/-! ## Which visits are offered -/

/-- **What is offered.** After any visits, a visit with a source gets a mention offered exactly
when its node can refer, refers to a type whose innermost elements are of the searched name, has a
recorded end, and does not only name the type; when the searched name stands near what the node
records, in full where there is room for it or from its last dot on; and when no mention accepted
so far lies at the place of the name. -/
theorem offered_iff_refers (hu : v.element.unit = some unit) :
    (∃ m, (s.step sink (s.after sink (begin start).state visits) v).offered = some m) ↔
      v.node.CanRefer s.settings.includeConstructors ∧
      (∃ t, v.node.RefersTo v.inference t ∧ t.innermost.name = s.target) ∧
      0 < v.node.sourceEnd ∧ ¬ v.node.OnlyNames ∧
      (((Text.unitLength s.target : Int) ≤
            v.node.recorded.capped.stop - v.node.recorded.capped.start ∧
          ∃ i, SpelledAt s.target unit.source v.node.recorded.capped s.settings.caseSensitive i) ∨
        ∃ i, SpelledAt (simpleName s.target) unit.source v.node.recorded.capped
          s.settings.caseSensitive i) ∧
      ∀ span, Placed s.target unit.source v.node.recorded.capped s.settings.caseSensitive span →
        (unit.id, span) ∉ (s.accepted sink (begin start).state visits).map Mention.spot := by
  -- the key of an element with a source is the identity of the source
  have hspot : ∀ span, (s.mention v span).spot = (unit.id, span) := fun span => by
    simp [Mention.spot, mention, Element.key, hu]
  rw [← exists_placed_iff]
  refine ⟨fun h => ?_, fun h => ?_⟩
  · obtain ⟨m, hm⟩ := h
    obtain ⟨hy, hn⟩ := offered_eq_some_iff.mp hm
    obtain ⟨hrefer, htype, hend, honly, span, hp, rfl⟩ := (yields_eq_some_iff hu).mp hy
    refine ⟨hrefer, htype, hend, honly, ⟨span, hp⟩, fun span' hp' => ?_⟩
    rw [hp'.unique hp, ← hspot]
    exact fun h => hn (mem_taken_after.mpr h)
  · obtain ⟨hrefer, htype, hend, honly, ⟨span, hp⟩, hn⟩ := h
    refine ⟨s.mention v span, offered_eq_some_iff.mpr ⟨?_, ?_⟩⟩
    · exact (yields_eq_some_iff hu).mpr ⟨hrefer, htype, hend, honly, span, hp, rfl⟩
    · rw [mem_taken_after, hspot]
      exact hn span hp

theorem sample_import_offered_once :
    Sample.importVisit.element.unit = some Sample.file ∧
    ¬ ∃ m, (Sample.search.step collector (Sample.search.after collector (begin #[]).state
      [Sample.importVisit]) Sample.importVisit).offered = some m := by
  refine ⟨rfl, fun h => ?_⟩
  obtain ⟨-, -, -, -, -, hn⟩ := (offered_iff_refers (v := Sample.importVisit) rfl).mp h
  have hp : Placed Sample.search.target Sample.file.source ⟨7, 23⟩ false ⟨14, 9⟩ :=
    locateInText_eq_some_iff.mp (show locateInText (Sample.type none) _ _ _ = _ from rfl)
  exact hn ⟨14, 9⟩ hp (by decide)

end Mentions.Search
