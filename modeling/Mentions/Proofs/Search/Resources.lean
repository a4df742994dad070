import Mentions.Proofs.Path.Spelling
import Mentions.Proofs.Search.Reported

/-! # Resources as keys of spans

Elements are told apart by their resources as paths, but without a source the key of a span is the
text of the resource. So a span is taken once for each spelling of a resource, which is once for
each resource only as long as every one is spelled plainly.
-/

namespace Mentions

/-- Resources as elements compare them: as paths, where there is one. -/
def sameResource : Option String → Option String → Bool
  | none, none => true
  | some r, some r' => Path.same r r'
  | _, _ => false

/-- Elements with one handle are told apart by their resources alone. -/
theorem Element.same_iff (a b : Element) :
    a.same b = true ↔ a.handle = b.handle ∧ sameResource a.resource b.resource = true := by
  rw [Element.same, Bool.and_eq_true, beq_iff_eq]
  cases a.resource <;> cases b.resource <;> rfl

/-- Resources that are the same and spelled plainly are equal. -/
theorem eq_of_sameResource {a b : Option String} (h : sameResource a b = true)
    (ha : ∀ r, a = some r → Path.plain r = r) (hb : ∀ r, b = some r → Path.plain r = r) :
    a = b := by
  cases a with
  | none =>
    cases b with
    | none => rfl
    | some r => cases h
  | some r =>
    cases b with
    | none => cases h
    | some r' =>
      have hplain : Path.plain r = Path.plain r' := Path.same_iff_plain_eq.mp h
      rw [← ha r rfl, ← hb r' rfl, hplain]

namespace Search
variable {σ : Type} {s : Search} {sink : Sink σ} {start : σ} {visits : List Visit} {m : Mention}

theorem key_of_no_source {e : Element} (hu : e.unit = none) : e.key = e.resource.getD "" := by
  unfold Element.key
  rw [hu]
  cases e.resource <;> rfl

/-- An accepted mention has the resource of its visit, which is its key without a source. -/
theorem resource_of_accepted {state : SearchState σ} (hm : m ∈ s.accepted sink state visits) :
    ∃ v ∈ visits, m.resource = v.element.resource ∧
      (v.element.unit = none → m.spot = (m.resource.getD "", m.span)) := by
  obtain ⟨v, hv, hy, -⟩ := exists_visit_of_offer (mem_accepted_iff.mp hm)
  have hresource : m.resource = v.element.resource :=
    congrArg Mention.resource (eq_mention_of_yields hy)
  refine ⟨v, hv, hresource, fun hu => ?_⟩
  rw [Mention.spot, element_of_yields hy, key_of_no_source hu, hresource]

variable (s sink start) in
/-- **Without a source, a span is taken once for each spelling of a resource.** Of visits without a
source no two accepted mentions have the same span and the same text of their resources; so where
all resources are spelled plainly, no two have the same span and the same resource. -/
theorem unsourced_span_taken_once_per_spelling (hu : ∀ v ∈ visits, v.element.unit = none) :
    let accepted := s.accepted sink (begin start).state visits
    accepted.Pairwise (fun m m' => m.span = m'.span → m.resource.getD "" ≠ m'.resource.getD "") ∧
      ((∀ v ∈ visits, ∀ r, v.element.resource = some r → Path.plain r = r) →
        accepted.Pairwise fun m m' =>
          m.span = m'.span → sameResource m.resource m'.resource = false) := by
  intro accepted
  have hspots : accepted.Pairwise fun m m' => m.spot ≠ m'.spot :=
    List.pairwise_map.mp (accepted_spots_nodup s sink start visits)
  have hkeys : accepted.Pairwise fun m m' =>
      m.span = m'.span → m.resource.getD "" ≠ m'.resource.getD "" := by
    refine hspots.imp_of_mem fun {m m'} hm hm' hne hspan hkey => hne ?_
    obtain ⟨v, hv, -, hspot⟩ := resource_of_accepted hm
    obtain ⟨v', hv', -, hspot'⟩ := resource_of_accepted hm'
    rw [hspot (hu v hv), hspot' (hu v' hv'), hspan, hkey]
  refine ⟨hkeys, fun hplain => ?_⟩
  refine hkeys.imp_of_mem fun {m m'} hm hm' hne hspan => ?_
  obtain ⟨v, hv, hresource, -⟩ := resource_of_accepted hm
  obtain ⟨v', hv', hresource', -⟩ := resource_of_accepted hm'
  refine Bool.eq_false_iff.mpr fun hsame => hne hspan ?_
  rw [eq_of_sameResource hsame (hresource ▸ hplain v hv) (hresource' ▸ hplain v' hv')]

/-! ## A file under two spellings -/

namespace Sample

/-- A use in a class file, of which no source is loaded. -/
def compiledVisit (resource : String) : Visit :=
  ⟨.typeUse (type (some ⟨16, 19⟩)), ⟨some (type (some ⟨16, 19⟩)), .exact⟩,
    ⟨"Bar.class/Bar", some resource, none⟩⟩

def compiledMention (resource : String) : Mention :=
  search.mention (compiledVisit resource) ⟨16, 3⟩

theorem compiled_accepted : search.accepted collector (begin #[]).state
      [compiledVisit "lib/Bar.class", compiledVisit "lib//Bar.class"] =
    [compiledMention "lib/Bar.class", compiledMention "lib//Bar.class"] :=
  rfl

theorem compiled_same : (compiledVisit "lib/Bar.class").element.same
    (compiledVisit "lib//Bar.class").element = true := by
  decide

theorem compiled_without_source (a b : String) :
    ∀ v ∈ [compiledVisit a, compiledVisit b], v.element.unit = none := by
  intro v hv
  rcases List.mem_pair.mp hv with rfl | rfl
  · rfl
  · rfl

end Sample

theorem sample_compiled_taken_once :
    (∀ v ∈ [Sample.compiledVisit "lib/Bar.class", Sample.compiledVisit "lib/Baz.class"],
      v.element.unit = none) ∧
    (∀ v ∈ [Sample.compiledVisit "lib/Bar.class", Sample.compiledVisit "lib/Baz.class"],
      ∀ r, v.element.resource = some r → Path.plain r = r) ∧
    [Sample.compiledMention "lib/Bar.class", Sample.compiledMention "lib/Baz.class"].Pairwise
      fun m m' => m.span = m'.span → sameResource m.resource m'.resource = false := by
  have hu := Sample.compiled_without_source "lib/Bar.class" "lib/Baz.class"
  have hplain : ∀ v ∈ [Sample.compiledVisit "lib/Bar.class", Sample.compiledVisit "lib/Baz.class"],
      ∀ r, v.element.resource = some r → Path.plain r = r := by
    intro v hv r hr
    rcases List.mem_pair.mp hv with rfl | rfl
    · cases hr
      decide
    · cases hr
      decide
  obtain ⟨-, htaken⟩ := unsourced_span_taken_once_per_spelling Sample.search collector #[] hu
  exact ⟨hu, hplain, htaken hplain⟩

/-- A span is not always taken once for each resource: a second spelling of the path is another
key, though the elements of both visits are the same. -/
theorem unsourced_span_not_always_taken_once :
    ¬ ∀ (s : Search) (visits : List Visit), (∀ v ∈ visits, v.element.unit = none) →
      (s.accepted collector (begin #[]).state visits).Pairwise fun m m' =>
        m.span = m'.span → sameResource m.resource m'.resource = false := by
  intro h
  have hpair := h Sample.search _ (Sample.compiled_without_source "lib/Bar.class" "lib//Bar.class")
  rw [Sample.compiled_accepted] at hpair
  have hother := (List.pairwise_cons.mp hpair).1 _ (List.mem_singleton.mpr rfl) rfl
  obtain ⟨-, hsame⟩ := (Element.same_iff _ _).mp Sample.compiled_same
  exact Bool.false_ne_true (hother.symm.trans hsame)

end Search
end Mentions
