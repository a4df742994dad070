import Mentions.Proofs.Search.WholeName

/-! # Hints that miss the name by a unit

One unit past the end of a hint is looked at too, so a hint that is one unit early, or ends one unit
early, still covers the name. But what the hint has room for is judged without that unit: where the
hint ends early, the qualified spelling is left out, and only the simple one is found. A located span
is a hint itself, and leads to the same place.
-/

namespace Mentions

/-- The source reads a spelling, other than the empty one, at the offset. -/
def SourceText.Reads (t : SourceText) (caseSensitive : Bool) (spelling : String) (i : Nat) : Prop :=
  spelling ≠ "" ∧ Text.ReadsAt caseSensitive (Text.units spelling) t.units i

theorem simpleName_eq_self_iff (name : String) : simpleName name = name ↔ '.' ∉ name.toList := by
  have hsimple := afterLastDot_simpleName name
  generalize simpleName name = simple at hsimple ⊢
  cases hsimple with
  | undotted h => exact ⟨fun _ => h, fun _ => rfl⟩
  | @dotted package simple hname h =>
    constructor
    · intro he
      rwa [he] at h
    · intro hn
      exact absurd (by simp [hname]) hn

theorem unitLength_simpleName_lt {name : String} (h : simpleName name ≠ name) :
    Text.unitLength (simpleName name) < Text.unitLength name := by
  obtain ⟨qualifier, hu⟩ := units_of_qualified h
  have hl := congrArg List.length hu
  simp only [List.length_append, List.length_cons] at hl
  unfold Text.unitLength
  omega

theorem unitLength_simpleName_le (name : String) :
    Text.unitLength (simpleName name) ≤ Text.unitLength name := by
  by_cases he : simpleName name = name
  · exact Nat.le_of_eq (congrArg Text.unitLength he)
  · exact Nat.le_of_lt (unitLength_simpleName_lt he)

section
variable {name spelling : String} {type : TypeNode} {source : SourceText} {h : Hint}
  {caseSensitive : Bool} {span : Span} {i : Nat}

/-- What a source reads stands near every hint around it. -/
theorem SourceText.Reads.spelledAt (hr : source.Reads caseSensitive spelling i)
    (hs : 0 ≤ h.start) (hstart : h.start ≤ i) (hstop : i + Text.unitLength spelling ≤ h.stop + 1) :
    SpelledAt spelling source h caseSensitive i :=
  Text.occurs_iff_readsAt.mpr ⟨Text.units_ne_nil hr.1, hs, hstart, hstop, hr.2⟩

theorem SourceText.Reads.of_spelledAt (ho : SpelledAt spelling source h caseSensitive i) :
    source.Reads caseSensitive spelling i :=
  ⟨fun he => ho.nonempty (by rw [he, Text.units_nil]), ho.reads⟩

/-- Nothing near the hint comes before its start. -/
theorem SpelledAt.first (ho : SpelledAt spelling source h caseSensitive i) (hi : i ≤ h.start) :
    FirstSpelledAt spelling source h caseSensitive i := by
  refine ⟨ho, fun j hj hoj => ?_⟩
  have hstart := hoj.start_le
  omega

/-- Near a hint without room for the qualified spelling, a name is placed at its simple one. -/
theorem placed_iff_of_no_room {length : Nat} (hn : h.stop - h.start < Text.unitLength name) :
    Placed name source h caseSensitive ⟨i, length⟩ ↔
      FirstSpelledAt (simpleName name) source h caseSensitive i ∧
        length = Text.unitLength (simpleName name) := by
  constructor
  · intro hp
    cases hp with
    | qualified fits first => exact absurd fits (by omega)
    | simple _ first => exact ⟨first, rfl⟩
  · intro ⟨first, hl⟩
    rw [hl]
    exact .simple (fun fits => absurd fits (by omega)) first

/-- Near a hint of the length of one of its spellings, a name is placed at that spelling. -/
theorem placed_of_length (hw : spelling = name ∨ spelling = simpleName name)
    (hl : h.stop = h.start + Text.unitLength spelling)
    (first : FirstSpelledAt spelling source h caseSensitive i) :
    Placed name source h caseSensitive ⟨i, Text.unitLength spelling⟩ := by
  by_cases hq : spelling = name
  · subst hq
    exact .qualified (by omega) first
  · obtain rfl := hw.resolve_left hq
    have hlt := unitLength_simpleName_lt hq
    exact (placed_iff_of_no_room (by omega)).mpr ⟨first, rfl⟩

/-! ## A hint that ends one unit early -/

/-- The hint from an offset on that ends one unit before the spelling does. -/
def Hint.endingEarly (start : Nat) (spelling : String) : Hint :=
  ⟨start, start + Text.unitLength spelling - 1⟩

theorem SourceText.Reads.first_endingEarly (hr : source.Reads caseSensitive spelling i) :
    FirstSpelledAt spelling source (.endingEarly i spelling) caseSensitive i := by
  refine SpelledAt.first (hr.spelledAt ?_ ?_ ?_) ?_ <;> dsimp only [Hint.endingEarly] <;> omega

/-- A hint that ends one unit early has no room for the qualified spelling. -/
theorem located_endingEarly_iff {p i length : Nat}
    (hw : Text.unitLength spelling ≤ Text.unitLength type.name) :
    locateInText type source (.endingEarly p spelling) caseSensitive = some ⟨i, length⟩ ↔
      FirstSpelledAt type.simpleName source (.endingEarly p spelling) caseSensitive i ∧
        length = Text.unitLength type.simpleName := by
  refine locateInText_eq_some_iff.trans (placed_iff_of_no_room ?_)
  dsimp only [Hint.endingEarly]
  omega

/-- A source that reads a name written with its package reads the simple name inside it. -/
theorem SourceText.Reads.exists_simple {p : Nat} (hr : source.Reads caseSensitive name p)
    (hdot : simpleName name ≠ name) (hne : simpleName name ≠ "") :
    ∃ i, SpelledAt (simpleName name) source (.endingEarly p name) caseSensitive i := by
  obtain ⟨qualifier, hu⟩ := units_of_qualified hdot
  have hread := hr.2
  rw [hu, List.append_cons] at hread
  have hlen : Text.unitLength name =
      (qualifier ++ [0x2E]).length + Text.unitLength (simpleName name) := by
    rw [Text.unitLength, hu, List.append_cons, List.length_append]
    rfl
  refine ⟨_, SourceText.Reads.spelledAt ⟨hne, hread.of_append⟩ ?_ ?_ ?_⟩ <;>
    dsimp only [Hint.endingEarly] <;> omega

/-- **A hint that ends one unit early places a reference in full, unless it names the package.**
Where the source reads the simple name, or a name without a dot, from the start of the hint on, that
is what is located. A name written with its package is not: what is located then is the first place
inside it that reads the simple name. -/
theorem located_in_full_iff_undotted (type : TypeNode) (source : SourceText) (caseSensitive : Bool)
    (p : Nat) :
    let located (w : String) := locateInText type source (.endingEarly p w) caseSensitive
    (source.Reads caseSensitive type.simpleName p →
      located type.simpleName = some ⟨p, Text.unitLength type.simpleName⟩) ∧
    (source.Reads caseSensitive type.name p →
      (located type.name = some ⟨p, Text.unitLength type.name⟩ ↔ '.' ∉ type.name.toList) ∧
      (type.simpleName ≠ "" → '.' ∈ type.name.toList → ∃ i,
        FirstSpelledAt type.simpleName source (.endingEarly p type.name) caseSensitive i ∧
        located type.name = some ⟨i, Text.unitLength type.simpleName⟩)) := by
  intro located
  have hsimple := simpleName_eq_self_iff type.name
  have hshort := unitLength_simpleName_le type.name
  have hle : Text.unitLength type.name ≤ Text.unitLength type.name := Nat.le_refl _
  refine ⟨fun hr => ?_, fun hr => ⟨⟨fun hl => ?_, fun hdot => ?_⟩, fun hne hdot => ?_⟩⟩
  · have hfirst := hr.first_endingEarly
    exact (located_endingEarly_iff hshort).mpr ⟨hfirst, rfl⟩
  · obtain ⟨-, hlen⟩ := (located_endingEarly_iff hle).mp hl
    refine hsimple.mp ?_
    by_contra he
    exact Nat.ne_of_gt (unitLength_simpleName_lt he) hlen
  · -- both spellings are one
    have he : type.simpleName = type.name := hsimple.mpr hdot
    have hfirst := hr.first_endingEarly
    rw [← he] at hfirst ⊢
    exact (located_endingEarly_iff hshort).mpr ⟨hfirst, rfl⟩
  · have he : simpleName type.name ≠ type.name := fun he => hsimple.mp he hdot
    obtain ⟨j, hj⟩ := hr.exists_simple he hne
    obtain ⟨i, first⟩ := exists_firstSpelledAt hj
    exact ⟨i, first, (located_endingEarly_iff hle).mpr ⟨first, rfl⟩⟩

/-- A text that names a type with its package, which differs from it in case only, and without. -/
def Search.Sample.packaged : SourceText := .ofString "foo.Foo f = new Foo()"

theorem Search.Sample.reads_packaged :
    Search.Sample.packaged.Reads false (TypeNode.named "foo.Foo").name 0 :=
  ⟨by decide, (Text.beginsWith_iff _ _).mp rfl⟩

theorem sample_early_end_located :
    Search.Sample.packaged.Reads false (TypeNode.named "foo.Foo").simpleName 16 ∧
    locateInText (.named "foo.Foo") Search.Sample.packaged ⟨16, 18⟩ false = some ⟨16, 3⟩ ∧
    Search.Sample.packaged.Reads false (TypeNode.named "foo.Foo").name 0 ∧
    locateInText (.named "foo.Foo") Search.Sample.packaged ⟨0, 6⟩ false ≠ some ⟨0, 7⟩ := by
  have hsimple : Search.Sample.packaged.Reads false (TypeNode.named "foo.Foo").simpleName 16 :=
    ⟨by decide, (Text.beginsWith_iff _ _).mp rfl⟩
  have hname := Search.Sample.reads_packaged
  obtain ⟨hshort, -⟩ :=
    located_in_full_iff_undotted (.named "foo.Foo") Search.Sample.packaged false 16
  obtain ⟨-, hlong⟩ :=
    located_in_full_iff_undotted (.named "foo.Foo") Search.Sample.packaged false 0
  exact ⟨hsimple, hshort hsimple, hname, fun h => (hlong hname).1.mp h (by decide)⟩

/-- A hint that ends one unit early does not always place a reference in full: here what is located
is the package. -/
theorem early_end_not_always_located_in_full :
    ¬ ∀ (type : TypeNode) (source : SourceText) (caseSensitive : Bool) (p : Nat) (w : String),
      (source.length : Int) ≤ Node.maxOffset → (w = type.name ∨ w = type.simpleName) →
      source.Reads caseSensitive w p →
      locateInText type source (.endingEarly p w) caseSensitive =
        some ⟨p, Text.unitLength w⟩ := by
  intro h
  have hl : locateInText (.named "foo.Foo") Search.Sample.packaged (.endingEarly 0 "foo.Foo") false =
      some ⟨0, 3⟩ := rfl
  have hfull := h (.named "foo.Foo") Search.Sample.packaged false 0 _ (by decide) (.inl rfl)
    Search.Sample.reads_packaged
  exact absurd (hl.symm.trans hfull) (by decide)

/-! ## A located span as a hint -/

/-- The extent of a spelling that the source reads is a hint at which it is located. -/
theorem SourceText.Reads.located {start stop : Int} (hr : source.Reads caseSensitive spelling i)
    (hw : spelling = type.name ∨ spelling = type.simpleName) (hstart : start = i)
    (hstop : stop = i + Text.unitLength spelling) :
    locateInText type source ⟨start, stop⟩ caseSensitive = some ⟨i, Text.unitLength spelling⟩ := by
  subst hstart hstop
  have hspelled : SpelledAt spelling source ⟨i, i + Text.unitLength spelling⟩ caseSensitive i :=
    hr.spelledAt (Int.natCast_nonneg i) (Int.le_refl _) (Int.le_of_lt (Int.lt_succ _))
  have first := hspelled.first (Int.le_refl _)
  exact locateInText_eq_some_iff.mpr (placed_of_length hw rfl first)

/-- One unit earlier it is located in place, unless the source reads the spelling there too. -/
theorem SourceText.Reads.located_shifted {start stop : Int}
    (hr : source.Reads caseSensitive spelling (i + 1))
    (hw : spelling = type.name ∨ spelling = type.simpleName) (hstart : start = i)
    (hstop : stop = i + Text.unitLength spelling) (hn : ¬ source.Reads caseSensitive spelling i) :
    locateInText type source ⟨start, stop⟩ caseSensitive =
      some ⟨i + 1, Text.unitLength spelling⟩ := by
  subst hstart hstop
  have hspelled : SpelledAt spelling source ⟨i, i + Text.unitLength spelling⟩ caseSensitive
      (i + 1) := by
    refine hr.spelledAt ?_ ?_ ?_ <;> dsimp only <;> omega
  have first : FirstSpelledAt spelling source ⟨i, i + Text.unitLength spelling⟩ caseSensitive
      (i + 1) := by
    refine ⟨hspelled, fun j hj hoj => hn ?_⟩
    have hle : (i : Int) ≤ j := hoj.start_le
    obtain rfl : j = i := by omega
    exact .of_spelledAt hoj
  exact locateInText_eq_some_iff.mpr (placed_of_length hw rfl first)

/-- **A located span is located again.** As a hint it leads to itself. One unit earlier it still
does, unless the source reads the same spelling one unit earlier: then it leads there. -/
theorem located_again (hs : locateInText type source h caseSensitive = some span) :
    ∃ w, (w = type.name ∨ w = type.simpleName) ∧ span.length = Text.unitLength w ∧
      source.Reads caseSensitive w span.offset ∧
      locateInText type source ⟨span.offset, span.stop⟩ caseSensitive = some span ∧
      (1 ≤ span.offset →
        let shifted := locateInText type source ⟨span.offset - 1, span.stop - 1⟩ caseSensitive
        (source.Reads caseSensitive w (span.offset - 1) →
          shifted = some ⟨span.offset - 1, span.length⟩) ∧
        (¬ source.Reads caseSensitive w (span.offset - 1) → shifted = some span)) := by
  obtain ⟨w, hw, hl, ho⟩ := (locateInText_eq_some_iff.mp hs).spelled
  obtain ⟨offset, length⟩ := span
  dsimp only at hl ho
  rw [hl]
  dsimp only [Span.stop]
  have hr := SourceText.Reads.of_spelledAt ho
  refine ⟨w, hw, rfl, hr, hr.located hw rfl (by omega), fun hpos => ?_⟩
  obtain ⟨o, rfl⟩ : ∃ o, offset = o + 1 := ⟨offset - 1, by omega⟩
  rw [Nat.add_sub_cancel]
  constructor
  · intro hbefore
    exact hbefore.located hw (by omega) (by omega)
  · intro hn
    exact hr.located_shifted hw (by omega) (by omega) hn

/-- A text in which a name overlaps itself. -/
def Search.Sample.overlapping : SourceText := .ofString "aaa x"

theorem sample_overlap_located_again :
    locateInText (.named "pkg.aa") Search.Sample.overlapping ⟨1, 3⟩ true = some ⟨1, 2⟩ ∧
    Search.Sample.overlapping.Reads true "aa" 0 ∧
    locateInText (.named "pkg.aa") Search.Sample.overlapping ⟨0, 2⟩ true = some ⟨0, 2⟩ := by
  have hs : locateInText (.named "pkg.aa") Search.Sample.overlapping ⟨1, 3⟩ true = some ⟨1, 2⟩ := rfl
  have hr : Search.Sample.overlapping.Reads true "aa" 0 :=
    ⟨by decide, (Text.beginsWith_iff _ _).mp rfl⟩
  obtain ⟨w, hw, hl, -, -, hshifted⟩ := located_again hs
  obtain rfl : w = "aa" := by
    rcases hw with rfl | rfl
    · exact absurd hl (by decide)
    · rfl
  exact ⟨hs, hr, (hshifted (by decide)).1 hr⟩

end

end Mentions
