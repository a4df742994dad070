import Mentions.Proofs.Search.Offered

/-! # Searches without a name

A query without a simple name asks for the empty name, or for its qualification with a dot at the
end. Nothing keeps a visit from referring to a type of such a name, so a search of it is silent only
as long as every type has a simple name. In a source it can still find the qualification and its dot.
-/

namespace Mentions

/-- The query gives no simple name, or an empty one. -/
def Query.IsNameless (q : Query) : Prop := q.simpleName = none ∨ q.simpleName = some ""

theorem Query.IsNameless.target_cases {q : Query} (hq : q.IsNameless) :
    q.target = "" ∨
      ∃ qualifier, q.qualification = some qualifier ∧ qualifier ≠ "" ∧ q.target = qualifier ++ "." := by
  have hsimple : q.simpleName.getD "" = "" := by
    rcases hq with h | h <;> rw [h] <;> rfl
  unfold target
  rw [hsimple]
  cases hqual : q.qualification with
  | none => exact .inl rfl
  | some qualifier =>
    by_cases he : qualifier = ""
    · exact .inl (if_pos he)
    · refine .inr ⟨qualifier, rfl, he, ?_⟩
      simp [he]

theorem Query.IsNameless.simpleName_target {q : Query} (hq : q.IsNameless) :
    Mentions.simpleName q.target = "" := by
  rcases hq.target_cases with h | ⟨qualifier, -, -, h⟩
  · rw [h]; rfl
  · rw [h]; simp [Mentions.simpleName]

/-- A name with nothing after its last dot is placed in full. -/
theorem Placed.full {name : String} {source : SourceText} {h : Hint} {caseSensitive : Bool}
    {span : Span} (hp : Placed name source h caseSensitive span) (hn : simpleName name = "") :
    name ≠ "" ∧ span.length = Text.unitLength name ∧
      Text.ReadsAt caseSensitive (Text.units name) source.units span.offset := by
  obtain ⟨w, hw, hl, ho⟩ := hp.spelled
  have hne : w ≠ "" := fun he => ho.nonempty (by rw [he, Text.units_nil])
  rcases hw with rfl | rfl
  · exact ⟨hne, hl, ho.reads⟩
  · exact absurd hn hne

namespace Search
variable {σ : Type} {q : Query}

theorem reads_target_of_yields {s : Search} {v : Visit} {m : Mention} {unit : SourceUnit}
    (hn : simpleName s.target = "") (hu : v.element.unit = some unit) (hy : s.yields v = some m) :
    s.target ≠ "" ∧ m.span.length = Text.unitLength s.target ∧
      Text.ReadsAt s.settings.caseSensitive (Text.units s.target) unit.source.units
        m.span.offset := by
  obtain ⟨-, -, -, -, span, hp, rfl⟩ := (yields_eq_some_iff hu).mp hy
  exact hp.full hn

/-- **A search without a name is silent where every type has one.** What it offers otherwise is of
a visit that refers to a type named by the bare qualification, with its dot, or by the empty name.
In a source the mention reads the qualification and the dot; the empty name is offered only where
there is no source. -/
theorem nameless_query_silent_on_named_types (hq : q.IsNameless) (origin participant : String)
    (settings : Settings) (sink : Sink σ) (state : SearchState σ) (visits : List Visit) :
    let s := ofQuery q origin participant settings
    ((∀ v ∈ visits, ∀ t, v.node.RefersTo v.inference t → t.innermost.simpleName ≠ "") →
      s.offers sink state visits = []) ∧
    ∀ o ∈ s.offers sink state visits, ∃ v ∈ visits, ∃ t, v.node.RefersTo v.inference t ∧
      ((t.innermost.name = "" ∧ v.element.unit = none) ∨
        ∃ qualifier, q.qualification = some qualifier ∧ qualifier ≠ "" ∧
          t.innermost.name = qualifier ++ "." ∧
          ∀ unit, v.element.unit = some unit →
            o.mention.span.length = Text.unitLength (qualifier ++ ".") ∧
            Text.ReadsAt settings.caseSensitive (Text.units (qualifier ++ "."))
              unit.source.units o.mention.span.offset) := by
  intro s
  have hsimple : simpleName q.target = "" := hq.simpleName_target
  constructor
  · intro hnamed
    refine List.eq_nil_iff_forall_not_mem.mpr fun o ho => ?_
    obtain ⟨v, hv, -, t, ht, hname⟩ := exists_visit_of_offer ho
    refine hnamed v hv t ht ?_
    rw [TypeNode.simpleName, hname]
    exact hsimple
  · intro o ho
    obtain ⟨v, hv, hy, t, ht, hname⟩ := exists_visit_of_offer ho
    refine ⟨v, hv, t, ht, ?_⟩
    rcases hq.target_cases with h | ⟨qualifier, hqual, hne, h⟩
    · refine .inl ⟨hname.trans h, ?_⟩
      cases hu : v.element.unit with
      | none => rfl
      | some unit => exact absurd h (reads_target_of_yields (s := s) hsimple hu hy).1
    · refine .inr ⟨qualifier, hqual, hne, hname.trans h, fun unit hu => ?_⟩
      rw [← h]
      exact (reads_target_of_yields (s := s) hsimple hu hy).2

/-! ## A package taken for a type -/

namespace Sample

def packageQuery : Query := (Query.ofName "").qualified "pkg"

def packageSearch : Search := .ofQuery packageQuery collector.origin defaultParticipant .default

/-- The import of the sample, inferred as a type with nothing after its last dot. -/
def packageVisit : Visit :=
  ⟨importVisit.node, ⟨some (.named "pkg."), .exact⟩, importVisit.element⟩

theorem package_offered : packageSearch.offers collector (begin #[]).state [packageVisit] =
    [⟨packageSearch.mention packageVisit ⟨14, 4⟩, none⟩] :=
  rfl

end Sample

theorem sample_package_silent :
    Sample.packageQuery.IsNameless ∧
    (∀ v ∈ [Sample.importVisit, Sample.useVisit], ∀ t, v.node.RefersTo v.inference t →
      t.innermost.simpleName ≠ "") ∧
    Sample.packageSearch.offers collector (begin #[]).state
      [Sample.importVisit, Sample.useVisit] = [] := by
  have hq : Sample.packageQuery.IsNameless := .inr rfl
  have hnamed : ∀ v ∈ [Sample.importVisit, Sample.useVisit], ∀ t,
      v.node.RefersTo v.inference t → t.innermost.simpleName ≠ "" := by
    intro v hv t ht
    have hsome : some t = some (Sample.type none) := by
      rcases List.mem_pair.mp hv with rfl | rfl <;> exact (Node.referredType?_eq_some_iff.mpr ht).symm
    cases hsome
    decide
  obtain ⟨hsilent, -⟩ := nameless_query_silent_on_named_types hq collector.origin
    defaultParticipant .default collector (begin #[]).state [Sample.importVisit, Sample.useVisit]
  exact ⟨hq, hnamed, hsilent hnamed⟩

/-- A search without a name is not always silent: it finds a package that is taken for a type. -/
theorem nameless_query_not_always_silent :
    ¬ ∀ (q : Query) (origin participant : String) (settings : Settings) (visits : List Visit),
      q.IsNameless →
      (ofQuery q origin participant settings).offers collector (begin #[]).state visits = [] := by
  intro h
  have hsilent : Sample.packageSearch.offers collector (begin #[]).state [Sample.packageVisit] = [] :=
    h Sample.packageQuery _ _ _ _ (.inr rfl)
  rw [Sample.package_offered] at hsilent
  cases hsilent

end Search
end Mentions
