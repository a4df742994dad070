import Mentions.Proofs.Text.Scan
import Mentions.Search.Hint

/-! # Where a name is located

`Placed` says where the name of a type is placed near a hint, in terms of where its two spellings
stand in the text. Locating a type computes exactly that. The simple spelling is what stands after
the last dot of the qualified one.
-/

namespace Mentions

/-- The spelling stands at offset `i` of the source, near a hint that may end one unit early. -/
abbrev SpelledAt (spelling : String) (source : SourceText) (h : Hint) (caseSensitive : Bool)
    (i : Nat) : Prop :=
  Text.Occurs caseSensitive (Text.units spelling) source.units h.start (h.stop + 1) i

/-- The first offset at which the spelling stands near the hint. -/
def FirstSpelledAt (spelling : String) (source : SourceText) (h : Hint) (caseSensitive : Bool)
    (i : Nat) : Prop :=
  SpelledAt spelling source h caseSensitive i ∧
    ∀ j < i, ¬ SpelledAt spelling source h caseSensitive j

/-- Where a name is placed: at its qualified spelling, if the hint has room for that and it stands
there, else at its simple spelling. -/
inductive Placed (name : String) (source : SourceText) (h : Hint) (caseSensitive : Bool) :
    Span → Prop
  | qualified {i : Nat} (fits : (Text.unitLength name : Int) ≤ h.stop - h.start)
      (first : FirstSpelledAt name source h caseSensitive i) :
      Placed name source h caseSensitive ⟨i, Text.unitLength name⟩
  | simple {i : Nat}
      (unqualified : (Text.unitLength name : Int) ≤ h.stop - h.start →
        ∀ j, ¬ SpelledAt name source h caseSensitive j)
      (first : FirstSpelledAt (simpleName name) source h caseSensitive i) :
      Placed name source h caseSensitive ⟨i, Text.unitLength (simpleName name)⟩

/-- What stands after the last dot of a name; all of a name without a dot. -/
inductive AfterLastDot (name : String) : String → Prop
  | undotted (h : '.' ∉ name.toList) : AfterLastDot name name
  | dotted {package simple : String} (hname : name = package ++ "." ++ simple)
      (h : '.' ∉ simple.toList) : AfterLastDot name simple

theorem afterLastDot_simpleName (name : String) : AfterLastDot name (simpleName name) := by
  have hsimple : '.' ∉ (simpleName name).toList := by
    rw [simpleName, String.toList_ofList, List.mem_reverse]
    intro h
    exact absurd (List.all_eq_true.mp List.all_takeWhile _ h) (by decide)
  have hsplit := List.takeWhile_append_dropWhile (p := (· != '.')) (l := name.toList.reverse)
  cases hd : name.toList.reverse.dropWhile (· != '.') with
  | nil =>
    have hname : simpleName name = name := by
      rw [hd, List.append_nil] at hsplit
      rw [simpleName, hsplit, List.reverse_reverse, String.ofList_toList]
    rw [hname] at hsimple ⊢
    exact .undotted hsimple
  | cons c front =>
    obtain rfl : c = '.' := by
      have hhead := List.head?_dropWhile_not (· != '.') name.toList.reverse
      simpa [hd] using hhead
    rw [hd] at hsplit
    have hchars := congrArg List.reverse hsplit
    have hname : name = String.ofList front.reverse ++ "." ++ simpleName name :=
      String.toList_inj.mp (by simpa [simpleName] using hchars.symm)
    exact .dotted hname hsimple

section
variable {name spelling : String} {type : TypeNode} {source : SourceText} {h : Hint}
  {caseSensitive : Bool} {span : Span}

theorem findSpelling_eq_some_iff :
    findSpelling spelling source h caseSensitive = some span ↔
      FirstSpelledAt spelling source h caseSensitive span.offset ∧
        span.length = Text.unitLength spelling := by
  obtain ⟨offset, length⟩ := span
  simp only [findSpelling, Option.map_eq_some_iff, Text.find?_eq_some_iff, Span.mk.injEq,
    FirstSpelledAt]
  refine ⟨fun hs => ?_, fun hs => ?_⟩
  · obtain ⟨i, hi, rfl, rfl⟩ := hs
    exact ⟨hi, rfl⟩
  · obtain ⟨hi, rfl⟩ := hs
    exact ⟨offset, hi, rfl, rfl⟩

theorem findSpelling_eq_none_iff :
    findSpelling spelling source h caseSensitive = none ↔
      ∀ i, ¬ SpelledAt spelling source h caseSensitive i := by
  rw [findSpelling, Option.map_eq_none_iff, Text.find?_eq_none_iff]

theorem exists_firstSpelledAt {i : Nat} (hi : SpelledAt spelling source h caseSensitive i) :
    ∃ j, FirstSpelledAt spelling source h caseSensitive j := by
  cases hf : findSpelling spelling source h caseSensitive with
  | none => exact absurd hi (findSpelling_eq_none_iff.mp hf i)
  | some span => exact ⟨span.offset, (findSpelling_eq_some_iff.mp hf).1⟩

/-- **A type is located exactly where its name is placed.** -/
theorem locateInText_eq_some_iff :
    locateInText type source h caseSensitive = some span ↔
      Placed type.name source h caseSensitive span := by
  have hnone : (if (Text.unitLength type.name : Int) ≤ h.stop - h.start then
        findSpelling type.name source h caseSensitive else none) = none ↔
      ((Text.unitLength type.name : Int) ≤ h.stop - h.start →
        ∀ j, ¬ SpelledAt type.name source h caseSensitive j) := by
    rw [ite_eq_right_iff, findSpelling_eq_none_iff]
  rw [locateInText, show type.simpleName = simpleName type.name from rfl,
    Option.orElse_eq_orElse, Option.orElse_eq_or, Option.or_eq_some_iff, hnone]
  refine ⟨fun hs => ?_, fun hp => ?_⟩
  · rcases hs with hq | ⟨hq, hs⟩
    · split at hq
      · rename_i fits
        obtain ⟨first, hl⟩ := findSpelling_eq_some_iff.mp hq
        have hp := Placed.qualified fits first
        rwa [← hl] at hp
      · cases hq
    · obtain ⟨first, hl⟩ := findSpelling_eq_some_iff.mp hs
      have hp := Placed.simple hq first
      rwa [← hl] at hp
  · cases hp with
    | qualified fits first =>
      left
      rw [if_pos fits, findSpelling_eq_some_iff]
      refine ⟨first, ?_⟩
      dsimp only
    | simple unqualified first =>
      right
      rw [findSpelling_eq_some_iff]
      refine ⟨unqualified, first, ?_⟩
      dsimp only

theorem Placed.unique {span' : Span} (hp : Placed name source h caseSensitive span)
    (hp' : Placed name source h caseSensitive span') : span = span' := by
  have hl : locateInText (.named name) source h caseSensitive = some span :=
    locateInText_eq_some_iff.mpr hp
  exact Option.some.inj (hl.symm.trans (locateInText_eq_some_iff.mpr hp'))

/-- A name is placed somewhere exactly when one of its spellings stands near the hint, the
qualified one counting only where the hint has room for it. -/
theorem exists_placed_iff :
    (∃ span, Placed name source h caseSensitive span) ↔
      ((Text.unitLength name : Int) ≤ h.stop - h.start ∧
          ∃ i, SpelledAt name source h caseSensitive i) ∨
        ∃ i, SpelledAt (simpleName name) source h caseSensitive i := by
  refine ⟨fun hs => ?_, fun hs => ?_⟩
  · obtain ⟨_, hp⟩ := hs
    cases hp with
    | qualified fits first => exact .inl ⟨fits, _, first.1⟩
    | simple _ first => exact .inr ⟨_, first.1⟩
  · by_cases hq : (Text.unitLength name : Int) ≤ h.stop - h.start ∧
        ∃ i, SpelledAt name source h caseSensitive i
    · obtain ⟨fits, i, hi⟩ := hq
      obtain ⟨j, first⟩ := exists_firstSpelledAt hi
      exact ⟨_, .qualified fits first⟩
    · obtain ⟨i, hi⟩ := hs.resolve_left hq
      obtain ⟨j, first⟩ := exists_firstSpelledAt hi
      exact ⟨_, .simple (fun fits j hj => hq ⟨fits, j, hj⟩) first⟩

/-- **A type is located at the least offset at which a spelling of its name stands.** At the
qualified spelling, if the hint has room for it and it stands near the hint; else at what stands
after the last dot of the name, if that stands near the hint; else nowhere. -/
theorem located_at_least_match (type : TypeNode) (source : SourceText) (h : Hint)
    (caseSensitive : Bool) :
    ∃ simple, AfterLastDot type.name simple ∧
      let located := locateInText type source h caseSensitive
      let qualifiedAt (i : Nat) : Prop :=
        (Text.unitLength type.name : Int) ≤ h.stop - h.start ∧
          FirstSpelledAt type.name source h caseSensitive i
      let simpleAt (i : Nat) : Prop :=
        (∀ j, ¬ qualifiedAt j) ∧ FirstSpelledAt simple source h caseSensitive i
      (∀ i, qualifiedAt i → located = some ⟨i, Text.unitLength type.name⟩) ∧
        (∀ i, simpleAt i → located = some ⟨i, Text.unitLength simple⟩) ∧
        (located = none ↔ ∀ i, ¬ qualifiedAt i ∧ ¬ simpleAt i) := by
  refine ⟨simpleName type.name, afterLastDot_simpleName type.name, ?_⟩
  intro located qualifiedAt simpleAt
  have hq : ∀ i, qualifiedAt i → located = some ⟨i, Text.unitLength type.name⟩ :=
    fun i ⟨fits, first⟩ => locateInText_eq_some_iff.mpr (.qualified fits first)
  have hs : ∀ i, simpleAt i → located = some ⟨i, Text.unitLength (simpleName type.name)⟩ := by
    intro i ⟨hnot, first⟩
    refine locateInText_eq_some_iff.mpr (.simple (fun fits j hj => ?_) first)
    obtain ⟨k, hk⟩ := exists_firstSpelledAt hj
    exact hnot k ⟨fits, hk⟩
  refine ⟨hq, hs, fun hnone i => ⟨fun hi => ?_, fun hi => ?_⟩, fun hno => ?_⟩
  · exact absurd ((hq i hi).symm.trans hnone) nofun
  · exact absurd ((hs i hi).symm.trans hnone) nofun
  · cases hl : located with
    | none => rfl
    | some span =>
      cases locateInText_eq_some_iff.mp hl with
      | @qualified i fits first => exact absurd ⟨fits, first⟩ (hno i).1
      | @simple i _ first => exact absurd ⟨fun j => (hno j).1, first⟩ (hno i).2

/-- The text of a placed span reads one of the two spellings, near the hint. -/
theorem Placed.spelled (hp : Placed name source h caseSensitive span) :
    ∃ w, (w = name ∨ w = simpleName name) ∧ span.length = Text.unitLength w ∧
      SpelledAt w source h caseSensitive span.offset := by
  cases hp with
  | qualified _ first => exact ⟨name, .inl rfl, rfl, first.1⟩
  | simple _ first =>
    refine ⟨simpleName name, .inr rfl, ?_, first.1⟩
    dsimp only

theorem Placed.length_pos (hp : Placed name source h caseSensitive span) : 0 < span.length := by
  obtain ⟨w, -, hl, hs⟩ := hp.spelled
  rw [hl]
  exact List.length_pos_iff.mpr hs.nonempty

end
end Mentions
