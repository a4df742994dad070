import Mentions.Proofs.Search.Slack

/-! # Locating with and without case

What a source reads in one case it also reads where case is ignored, and near the same hint. So a
first place moves to the front at most, and a name that is placed with case is placed without. Only
the spelling can change: a qualified name in another case counts where case is ignored, and it is
taken before the simple one, wherever it stands.
-/

namespace Mentions

theorem Text.Occurs.ignoringCase {needle hay : List UInt16} {start stop : Int} {i : Nat}
    (ho : Text.Occurs true needle hay start stop i) : Text.Occurs false needle hay start stop i :=
  { ho with reads := ho.reads.imp fun _ _ => congrArg Text.lower }

section
variable {name spelling : String} {type : TypeNode} {source : SourceText} {h : Hint} {i : Nat}

theorem FirstSpelledAt.ignoringCase (first : FirstSpelledAt spelling source h true i) :
    ∃ j ≤ i, FirstSpelledAt spelling source h false j := by
  have hi : SpelledAt spelling source h false i := first.1.ignoringCase
  obtain ⟨j, hj⟩ := exists_firstSpelledAt hi
  exact ⟨j, Nat.le_of_not_lt fun hlt => hj.2 i hlt hi, hj⟩

/-- A spelling that stands near the hint where case is ignored, and nowhere with case, is read in
another case there. -/
theorem SpelledAt.not_reads (ho : SpelledAt spelling source h false i)
    (hn : ∀ j, ¬ SpelledAt spelling source h true j) : ¬ source.Reads true spelling i := by
  obtain ⟨-, hs, hstart, hstop, -⟩ := Text.occurs_iff_readsAt.mp ho
  exact fun hr => hn i (hr.spelledAt hs hstart hstop)

theorem Placed.qualified_ignoringCase
    (hp : Placed name source h true ⟨i, Text.unitLength name⟩) :
    ∃ j ≤ i, Placed name source h false ⟨j, Text.unitLength name⟩ := by
  generalize hlength : Text.unitLength name = length at hp
  cases hp with
  | qualified fits first =>
    obtain ⟨j, hj, hfirst⟩ := first.ignoringCase
    exact ⟨j, hj, hlength ▸ .qualified fits hfirst⟩
  | simple unqualified first =>
    -- the simple spelling is as long as the qualified one, so that the two are one
    have he : simpleName name = name := by
      by_contra hne
      exact Nat.ne_of_gt (unitLength_simpleName_lt hne) hlength
    obtain ⟨j, hj, hfirst⟩ := first.ignoringCase
    refine ⟨j, hj, .simple (fun fits => ?_) hfirst⟩
    exact absurd (he ▸ first.1) (unqualified fits i)

theorem Placed.simple_ignoringCase
    (hp : Placed name source h true ⟨i, Text.unitLength (simpleName name)⟩) :
    (∃ j, Placed name source h false ⟨j, Text.unitLength name⟩ ∧ ¬ source.Reads true name j) ∨
      ∃ j ≤ i, Placed name source h false ⟨j, Text.unitLength (simpleName name)⟩ := by
  by_cases he : simpleName name = name
  · rw [he] at hp ⊢
    exact .inr hp.qualified_ignoringCase
  · have hshort := unitLength_simpleName_lt he
    generalize hlength : Text.unitLength (simpleName name) = length at hp
    cases hp with
    | qualified => omega
    | simple unqualified first =>
      by_cases hq : (Text.unitLength name : Int) ≤ h.stop - h.start ∧
          ∃ j, SpelledAt name source h false j
      · obtain ⟨fits, k, hk⟩ := hq
        obtain ⟨j, hj⟩ := exists_firstSpelledAt hk
        exact .inl ⟨j, .qualified fits hj, hj.1.not_reads (unqualified fits)⟩
      · obtain ⟨j, hj, hfirst⟩ := first.ignoringCase
        exact .inr ⟨j, hj, .simple (fun fits k hk => hq ⟨fits, k, hk⟩) hfirst⟩

end

/-- **Ignoring case loses no place.** A type that is located at its qualified spelling is also
located there, or further to the front, where case is ignored. One that is located at its simple
spelling is located there, or further to the front, too, unless the qualified spelling stands near
the hint in another case: then it is located at that. And what is not located where case is ignored
is not located otherwise. -/
theorem located_ignoring_case (type : TypeNode) (source : SourceText) (h : Hint) :
    let exactly := locateInText type source h true
    let ignoring := locateInText type source h false
    (∀ i, exactly = some ⟨i, Text.unitLength type.name⟩ →
      ∃ j ≤ i, ignoring = some ⟨j, Text.unitLength type.name⟩) ∧
    (∀ i, exactly = some ⟨i, Text.unitLength type.simpleName⟩ →
      (∃ j, ignoring = some ⟨j, Text.unitLength type.name⟩ ∧ ¬ source.Reads true type.name j) ∨
        ∃ j ≤ i, ignoring = some ⟨j, Text.unitLength type.simpleName⟩) ∧
    (ignoring = none → exactly = none) := by
  intro exactly ignoring
  have hqualified : ∀ i, exactly = some ⟨i, Text.unitLength type.name⟩ →
      ∃ j ≤ i, ignoring = some ⟨j, Text.unitLength type.name⟩ := by
    intro i hi
    obtain ⟨j, hj, hp⟩ := (locateInText_eq_some_iff.mp hi).qualified_ignoringCase
    exact ⟨j, hj, locateInText_eq_some_iff.mpr hp⟩
  have hsimple : ∀ i, exactly = some ⟨i, Text.unitLength type.simpleName⟩ →
      (∃ j, ignoring = some ⟨j, Text.unitLength type.name⟩ ∧ ¬ source.Reads true type.name j) ∨
        ∃ j ≤ i, ignoring = some ⟨j, Text.unitLength type.simpleName⟩ := by
    intro i hi
    rcases (locateInText_eq_some_iff.mp hi).simple_ignoringCase with ⟨j, hp, hn⟩ | ⟨j, hj, hp⟩
    · exact .inl ⟨j, locateInText_eq_some_iff.mpr hp, hn⟩
    · exact .inr ⟨j, hj, locateInText_eq_some_iff.mpr hp⟩
  refine ⟨hqualified, hsimple, fun hnone => ?_⟩
  cases he : exactly with
  | none => rfl
  | some span =>
    obtain ⟨i, length⟩ := span
    obtain ⟨w, rfl | rfl, hl, -⟩ := (locateInText_eq_some_iff.mp he).spelled
    · obtain ⟨j, -, hj⟩ := hqualified i (hl ▸ he)
      exact absurd (hj.symm.trans hnone) nofun
    · rcases hsimple i (hl ▸ he) with ⟨j, hj, -⟩ | ⟨j, -, hj⟩
      · exact absurd (hj.symm.trans hnone) nofun
      · exact absurd (hj.symm.trans hnone) nofun

/-- The qualified spelling is taken first even where it stands further back. -/
example :
    let source := SourceText.ofString "Foo f = new PKG.FOO()"
    locateInText (.named "pkg.Foo") source ⟨0, 21⟩ true = some ⟨0, 3⟩ ∧
      locateInText (.named "pkg.Foo") source ⟨0, 21⟩ false = some ⟨12, 7⟩ := by decide

end Mentions
