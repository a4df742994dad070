import Mentions.Proofs.Search.Offered

/-! # What is offered of a visit without a source

Without a source there is no text to read a name in. The offsets recorded with the type itself are
then reported as they stand, where the settings allow it; what the node records of the reference
plays no part. So a constructor is placed by its name in a source only.
-/

namespace Mentions

/-- The offsets recorded with the type are the two ends of the span, which is not empty. -/
structure TypeNode.Encloses (t : TypeNode) (span : Span) : Prop where
  start : t.start = span.offset
  stop : t.stop = span.stop
  nonempty : 0 < span.length

theorem recordedSpan_eq_some_iff {t : TypeNode} {span : Span} :
    recordedSpan t = some span ↔ t.Encloses span := by
  obtain ⟨offset, length⟩ := span
  unfold recordedSpan
  constructor
  · intro h
    split at h
    · cases h
      exact ⟨by dsimp only; omega, by simp only [Span.stop]; omega, by dsimp only; omega⟩
    · cases h
  · rintro ⟨hstart, hstop, hlen⟩
    simp only [Span.stop] at hstart hstop hlen
    rw [if_pos (by omega), Option.some.injEq, Span.mk.injEq]
    omega

namespace Search

/-- **What a visit without a source yields.** It yields the span of the offsets recorded with the
type it refers to, if the settings fall back to these. -/
theorem yields_eq_some_iff_recorded {s : Search} {v : Visit} {m : Mention}
    (hu : v.element.unit = none) :
    s.yields v = some m ↔ v.node.CanRefer s.settings.includeConstructors ∧
      0 < v.node.sourceEnd ∧ ¬ v.node.OnlyNames ∧ s.settings.fallbackToOffsets = true ∧
      ∃ t span, v.node.RefersTo v.inference t ∧ t.innermost.name = s.target ∧
        t.innermost.Encloses span ∧ m = s.mention v span := by
  rw [yields_eq_some_iff_located]
  by_cases hf : s.settings.fallbackToOffsets = true
  · simp only [locate, hu, hf, if_true, recordedSpan_eq_some_iff]
    constructor
    · rintro ⟨hn, hstop, honly, t, span, ht, hname, he, _, hm⟩
      exact ⟨hn, hstop, honly, trivial, t, span, ht, hname, he, hm⟩
    · rintro ⟨hn, hstop, honly, _, t, span, ht, hname, he, hm⟩
      exact ⟨hn, hstop, honly, t, span, ht, hname, he, he.nonempty, hm⟩
  · simp [locate, hu, hf]

/-! ## Constructors -/

variable {σ : Type} {s : Search} {sink : Sink σ} {start : σ} {visits : List Visit} {v : Visit}
  {m : Mention} {declaring : TypeNode} {nameStart nameEnd : Offset} {extent : Option Extent}

variable (sink start visits) in
/-- **A constructor is placed by its name in a source only.** In a source its mention lies between
the offsets recorded for its name, the last unit and one of slack included. Without one it covers
what is recorded with the declaring type, which the settings must allow, wherever the name is. -/
theorem constructor_placed_by_name_in_source
    (hv : v.node = .constructor declaring nameStart nameEnd extent)
    (hm : (s.step sink (s.after sink (begin start).state visits) v).offered = some m) :
    s.settings.includeConstructors = true ∧
      (v.element.unit.isSome = true →
        nameStart.toInt ≤ m.span.offset ∧ (m.span.stop : Int) ≤ nameEnd.toInt + 2) ∧
      (v.element.unit = none → s.settings.fallbackToOffsets = true ∧
        declaring.innermost.start = m.span.offset ∧ declaring.innermost.stop = m.span.stop) := by
  obtain ⟨hy, -⟩ := offered_eq_some_iff.mp hm
  have hn := (yields_eq_some_iff_located.mp hy).1
  rw [hv] at hn
  refine ⟨hn, fun hu => ?_, fun hu => ?_⟩
  · obtain ⟨unit, hu⟩ := Option.isSome_iff_exists.mp hu
    obtain ⟨-, hp⟩ := placed_of_offered hu hm
    obtain ⟨w, -, hl, ho⟩ := hp.spelled
    have hstart := ho.start_le
    have hstop := ho.le_stop
    rw [hv] at hstart hstop
    simp only [Node.recorded, Hint.capped] at hstart hstop
    have hlen : m.span.length = (Text.units w).length := hl
    simp only [Span.stop]
    omega
  · obtain ⟨-, -, -, hf, t, span, ht, -, he, rfl⟩ := (yields_eq_some_iff_recorded hu).mp hy
    rw [hv] at ht
    cases ht
    exact ⟨hf, he.start, he.stop⟩

namespace Sample

def classFile : SourceUnit := ⟨"Foo.groovy", .ofString "class Foo { Foo(int x) {} }"⟩

/-- A constructor whose class is recorded with all of its body. -/
def constructorNode : Node :=
  .constructor (.plain ⟨"pkg.Foo", some ⟨0, 27⟩, none, false⟩) 12 14 (some ⟨12, 25⟩)

def constructorVisit (unit : Option SourceUnit) : Visit :=
  ⟨constructorNode, .untyped, ⟨"Foo.groovy/Foo#Foo(int)", none, unit⟩⟩

def constructorSearch : Search :=
  .ofQuery ((Query.ofName "Foo").qualified "pkg") collector.origin defaultParticipant
    { Settings.default with includeConstructors := true }

def constructorMention (unit : Option SourceUnit) (span : Span) : Mention :=
  constructorSearch.mention (constructorVisit unit) span

theorem constructor_offered_in_source : (constructorSearch.step collector (begin #[]).state
    (constructorVisit (some classFile))).offered =
      some (constructorMention (some classFile) ⟨12, 3⟩) :=
  rfl

theorem constructor_offered_without_source : (constructorSearch.step collector (begin #[]).state
    (constructorVisit none)).offered = some (constructorMention none ⟨0, 27⟩) :=
  rfl

end Sample

theorem sample_constructor_placed :
    (Sample.constructorSearch.step collector (begin #[]).state
        (Sample.constructorVisit (some Sample.classFile))).offered =
      some (Sample.constructorMention (some Sample.classFile) ⟨12, 3⟩) ∧
    ((12 : Int) ≤ 12 ∧ (15 : Int) ≤ 14 + 2) ∧
    (Sample.constructorSearch.step collector (begin #[]).state
        (Sample.constructorVisit none)).offered = some (Sample.constructorMention none ⟨0, 27⟩) ∧
    Sample.constructorSearch.settings.fallbackToOffsets = true := by
  obtain ⟨-, hsource, -⟩ := constructor_placed_by_name_in_source collector #[] [] rfl
    Sample.constructor_offered_in_source
  obtain ⟨-, -, hnone⟩ := constructor_placed_by_name_in_source collector #[] [] rfl
    Sample.constructor_offered_without_source
  exact ⟨Sample.constructor_offered_in_source, hsource rfl,
    Sample.constructor_offered_without_source, (hnone rfl).1⟩

/-- Constructors are not always placed by their names: without a source, one may be reported with
all of its class. -/
theorem constructor_not_always_placed_by_name :
    ¬ ∀ (s : Search) (v : Visit) (m : Mention) (declaring : TypeNode) (nameStart nameEnd : Offset)
      (extent : Option Extent), s.settings.includeConstructors = true →
      v.node = .constructor declaring nameStart nameEnd extent →
      (s.step collector (begin #[]).state v).offered = some m →
      nameStart.toInt ≤ m.span.offset ∧ (m.span.stop : Int) ≤ nameEnd.toInt + 2 := by
  intro h
  have hplaced := h Sample.constructorSearch (Sample.constructorVisit none) _ _ _ _ _ rfl rfl
    Sample.constructor_offered_without_source
  exact absurd hplaced.1 (by decide)

end Search
end Mentions
