import Mentions.Proofs.Search.Location
import Mentions.Proofs.Text.Identifier

/-! # Located names and the identifiers around them

A name is looked for as a piece of text, wherever it stands between the offsets of the hint. A use
that is recorded as one identifier is therefore located inside it whenever the identifier contains
the name, and only a use that is all of the identifier is a whole name: an alias is dropped exactly
when it does not contain the name.
-/

namespace Mentions

/-- No identifier goes past the span: no name unit stands directly before or after it. -/
def SourceText.IsWhole (t : SourceText) (span : Span) : Prop :=
  (∀ k, k + 1 = span.offset → Text.nameUnitAt t.units k = false) ∧
    Text.nameUnitAt t.units span.stop = false

variable {name : String} {type : TypeNode} {source : SourceText} {first stop : Nat}
  {caseSensitive : Bool} {span : Span}

/-- A qualified name ends with its simple name, after a dot. -/
theorem units_of_qualified (h : simpleName name ≠ name) :
    ∃ qualifier, Text.units name = qualifier ++ 0x2E :: Text.units (simpleName name) := by
  have hsimple := afterLastDot_simpleName name
  generalize simpleName name = simple at h hsimple ⊢
  cases hsimple with
  | undotted => exact absurd rfl h
  | @dotted package simple hname _ =>
    refine ⟨Text.units package, ?_⟩
    rw [hname, Text.units_append, Text.units_append, List.append_assoc]
    rfl

/-- Near an identifier a name is placed inside it, at its simple spelling. -/
theorem Placed.in_identifier (hp : Placed name source ⟨first, stop⟩ caseSensitive span)
    (hid : Text.IdentifierAt source.units first stop) (hw : Text.IsName (simpleName name)) :
    first ≤ span.offset ∧ span.offset + Text.unitLength (simpleName name) ≤ stop ∧
      Text.ReadsAt caseSensitive (Text.units (simpleName name)) source.units span.offset ∧
      span.length = Text.unitLength (simpleName name) := by
  obtain ⟨w, hspelling, hl, ho⟩ := hp.spelled
  have hsimple : w = simpleName name := by
    rcases hspelling with rfl | rfl
    · by_contra hq
      obtain ⟨qualifier, hu⟩ := units_of_qualified (Ne.symm hq)
      rw [SpelledAt, hu] at ho
      exact hid.not_occurs_dotted hw.units_ne_nil ho
    · rfl
  rw [hsimple] at hl ho
  obtain ⟨hstart, hstop, hr⟩ := (hid.occurs_iff hw).mp ho
  exact ⟨hstart, hstop, hr, hl⟩

/-- A span inside an identifier is whole exactly when it is all of it. -/
theorem Text.IdentifierAt.isWhole_iff (hid : Text.IdentifierAt source.units first stop)
    (hstart : first ≤ span.offset) (hstop : span.stop ≤ stop) :
    source.IsWhole span ↔ span = ⟨first, stop - first⟩ := by
  obtain ⟨offset, length⟩ := span
  simp only [Span.stop, SourceText.IsWhole, Span.mk.injEq] at *
  constructor
  · intro ⟨hbefore, hafter⟩
    have hoffset : offset = first := by
      by_contra hne
      have hin := hid.inside (offset - 1) (by omega) (by omega)
      rw [hbefore (offset - 1) (by omega)] at hin
      cases hin
    have hend : offset + length = stop := by
      by_contra hne
      have hin := hid.inside (offset + length) (by omega) (by omega)
      rw [hafter] at hin
      cases hin
    omega
  · rintro ⟨rfl, rfl⟩
    refine ⟨hid.before, ?_⟩
    rw [show offset + (stop - offset) = stop by omega, Text.nameUnitAt]
    cases hu : source.units[stop]? with
    | none => rfl
    | some u =>
      cases hn : Text.isNameUnit u with
      | false => exact hn
      | true => exact absurd (Text.isNameUnit_lower hn) (by simp [hid.after u hu])

/-- **A use recorded as one identifier is dropped exactly when the identifier does not contain the
name.** Where it does, as an alias may, the use is located inside the identifier, and the located
span is a whole name only if it is all of the identifier. -/
theorem dropped_iff_not_in_identifier (hid : Text.IdentifierAt source.units first stop)
    (hw : Text.IsName type.simpleName) :
    (locateInText type source ⟨first, stop⟩ caseSensitive = none ↔
      ¬ ∃ i, first ≤ i ∧ i + Text.unitLength type.simpleName ≤ stop ∧
        Text.ReadsAt caseSensitive (Text.units type.simpleName) source.units i) ∧
    ∀ span, locateInText type source ⟨first, stop⟩ caseSensitive = some span →
      first ≤ span.offset ∧ span.stop ≤ stop ∧
        (source.IsWhole span ↔ span = ⟨first, stop - first⟩) := by
  constructor
  · rw [← not_iff_not, not_not, ← ne_eq, Option.ne_none_iff_exists']
    constructor
    · intro ⟨span, hs⟩
      obtain ⟨hstart, hstop, hr, -⟩ := (locateInText_eq_some_iff.mp hs).in_identifier hid hw
      exact ⟨span.offset, hstart, hstop, hr⟩
    · intro ⟨i, hi⟩
      have ho : SpelledAt type.simpleName source ⟨first, stop⟩ caseSensitive i :=
        (hid.occurs_iff hw).mpr hi
      obtain ⟨span, hp⟩ := exists_placed_iff.mpr (.inr ⟨i, ho⟩)
      exact ⟨span, locateInText_eq_some_iff.mpr hp⟩
  · intro span hs
    obtain ⟨hstart, hstop, -, hl⟩ := (locateInText_eq_some_iff.mp hs).in_identifier hid hw
    have hend : span.stop ≤ stop := by rw [Span.stop, hl]; exact hstop
    exact ⟨hstart, hend, hid.isWhole_iff hstart hend⟩

/-- A text in which a type is used under an alias that contains its name. -/
def Search.Sample.aliased : SourceText := .ofString "import pkg.Foo as MyFoo\nMyFoo x = null"

theorem sample_alias_located :
    Text.IdentifierAt Search.Sample.aliased.units 24 29 ∧
    Text.IsName (TypeNode.named "pkg.Foo").simpleName ∧
    locateInText (.named "pkg.Foo") Search.Sample.aliased ⟨24, 29⟩ false = some ⟨26, 3⟩ ∧
    ¬ Search.Sample.aliased.IsWhole ⟨26, 3⟩ := by
  have hid : Text.IdentifierAt Search.Sample.aliased.units 24 29 := by
    have hinside : ∀ k < 29, 24 ≤ k → Text.nameUnitAt Search.Sample.aliased.units k = true := by
      decide
    refine ⟨fun k hk hk' => hinside k hk' hk, fun k hk => ?_, fun u hu => ?_⟩
    · obtain rfl : k = 23 := by omega
      rfl
    · obtain rfl : 0x20 = u := Option.some.inj hu
      decide
  have hunits : (Text.units (TypeNode.named "pkg.Foo").simpleName).all Text.isNameUnit = true := rfl
  have hw : Text.IsName (TypeNode.named "pkg.Foo").simpleName :=
    ⟨by decide, List.all_eq_true.mp hunits⟩
  have hl : locateInText (.named "pkg.Foo") Search.Sample.aliased ⟨24, 29⟩ false = some ⟨26, 3⟩ :=
    rfl
  obtain ⟨-, -, hwhole⟩ := (dropped_iff_not_in_identifier hid hw).2 _ hl
  refine ⟨hid, hw, hl, fun h => ?_⟩
  cases hwhole.mp h

/-- Located spans are not always whole names: the use of an alias may be located inside it. -/
theorem located_span_not_always_whole :
    ¬ ∀ (type : TypeNode) (source : SourceText) (h : Hint) (caseSensitive : Bool) (span : Span),
      locateInText type source h caseSensitive = some span → source.IsWhole span := by
  intro h
  have hl : locateInText (.named "pkg.Foo") Search.Sample.aliased ⟨24, 29⟩ true = some ⟨26, 3⟩ :=
    rfl
  have hbefore := (h _ _ _ _ _ hl).1 25 rfl
  exact absurd hbefore (by decide)

end Mentions
