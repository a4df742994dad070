import Mathlib.Logic.Function.Iterate
import Mentions.Proofs.Search.Offered

/-! # Layers of arrays

A search looks for the type beneath all layers of arrays, and nothing that is recorded with the
layers of an inferred type is read. So visits whose inferred types differ in these layers only are
searched alike. There is one exception: whether a class literal is inferred as the type of classes
is read off the outermost layer.
-/

namespace Mentions

/-- The visits differ at most in the layers of arrays around their inferred types. Where they are of
a class literal, neither type is that of classes. -/
structure Visit.SameBeneathLayers (v v' : Visit) : Prop where
  node : v.node = v'.node
  element : v.element = v'.element
  confidence : v.inference.confidence = v'.inference.confidence
  innermost : v.inference.type?.map TypeNode.innermost = v'.inference.type?.map TypeNode.innermost
  literal : ∀ operand extent, v.node = .classLiteral operand extent →
    v.inference.isMetatype = false ∧ v'.inference.isMetatype = false

namespace TypeNode

theorem innermost_iterate_arrayOf (layers : Nat) (t : TypeNode) :
    (arrayOf^[layers] t).innermost = t.innermost := by
  induction layers with
  | zero => rfl
  | succ layers ih =>
    rw [Function.iterate_succ_apply']
    exact ih

theorem name_arrayOf_ne_metatype (t : TypeNode) : (arrayOf t).name ≠ metatype := by
  intro h
  have hlast := congrArg (fun name => name.toList.getLast?) h
  simp [arrayOf, name, label, metatype] at hlast

theorem name_iterate_arrayOf_ne_metatype {t : TypeNode} (ht : t.name ≠ metatype) (layers : Nat) :
    (arrayOf^[layers] t).name ≠ metatype := by
  cases layers with
  | zero => exact ht
  | succ layers =>
    rw [Function.iterate_succ_apply']
    exact name_arrayOf_ne_metatype _

end TypeNode

namespace Search
variable {σ : Type} {s : Search} {v v' : Visit}

theorem innermost_referredType? (h : v.SameBeneathLayers v') :
    (v.node.referredType? v.inference).map TypeNode.innermost =
      (v'.node.referredType? v'.inference).map TypeNode.innermost := by
  rw [← h.node]
  cases hn : v.node with
  | annotationUse | constructor => rfl
  | typeUse | importLine | other => exact h.innermost
  | classLiteral operand extent =>
    obtain ⟨hm, hm'⟩ := h.literal operand extent hn
    simp [Node.referredType?, hm, hm', h.innermost]

theorem candidate?_of_sameBeneathLayers (h : v.SameBeneathLayers v') :
    s.candidate? v = s.candidate? v' := by
  have hinner := innermost_referredType? h
  rw [h.node] at hinner
  ext type
  simp only [candidate?_eq_some_iff, ← Node.referredType?_eq_some_iff, ← Option.map_eq_some_iff,
    h.node, hinner]

theorem resolve_of_sameBeneathLayers (h : v.SameBeneathLayers v') :
    s.resolve v = s.resolve v' := by
  have hmention : s.mention v = s.mention v' := by
    funext span
    simp only [mention, h.element, h.confidence]
  unfold resolve
  rw [candidate?_of_sameBeneathLayers h, hmention, h.node, h.element]

theorem step_of_sameBeneathLayers (h : v.SameBeneathLayers v') (sink : Sink σ)
    (state : SearchState σ) : s.step sink state v = s.step sink state v' := by
  unfold step
  rw [resolve_of_sameBeneathLayers h, h.node, h.element]

theorem sameBeneathLayers_iterate {node : Node} {type : TypeNode} (confidence : Confidence)
    (element : Element) (layers : Nat)
    (hl : ∀ operand extent, node = .classLiteral operand extent → type.name ≠ metatype) :
    Visit.SameBeneathLayers ⟨node, ⟨some (TypeNode.arrayOf^[layers] type), confidence⟩, element⟩
      ⟨node, ⟨some type, confidence⟩, element⟩ where
  node := rfl
  element := rfl
  confidence := rfl
  innermost := congrArg some (TypeNode.innermost_iterate_arrayOf layers type)
  literal := by
    intro operand extent hn
    have ht := hl operand extent hn
    have hlayered := TypeNode.name_iterate_arrayOf_ne_metatype ht layers
    simp [Inference.isMetatype, ht, hlayered]

/-- **Layers of arrays are transparent.** Visits that differ in the layers around their inferred
types only bring about the same step after any visits: the same mention offered, the same log and
the same spots taken. So do whole runs of such visits. In particular any number of layers put around
an inferred type changes nothing, unless a class literal is inferred as the type of classes. -/
theorem array_layers_transparent (s : Search) (sink : Sink σ) :
    (∀ v v' : Visit, v.SameBeneathLayers v' →
      ∀ state, s.step sink state v = s.step sink state v') ∧
    (∀ es es' : List Visit, List.Forall₂ Visit.SameBeneathLayers es es' →
      ∀ p, s.steps sink p.state es = s.steps sink p.state es' ∧
        replay (s.visitor sink) p es = replay (s.visitor sink) p es') ∧
    ∀ node type confidence element layers,
      (∀ operand extent, node = .classLiteral operand extent → type.name ≠ metatype) →
      ∀ state,
        s.step sink state ⟨node, ⟨some (TypeNode.arrayOf^[layers] type), confidence⟩, element⟩ =
          s.step sink state ⟨node, ⟨some type, confidence⟩, element⟩ := by
  refine ⟨fun v v' h => step_of_sameBeneathLayers h sink, fun es es' h p => ?_, ?_⟩
  · exact run_congr (h.imp fun _ _ hv => step_of_sameBeneathLayers hv sink) p
  · intro node type confidence element layers hl
    exact step_of_sameBeneathLayers (sameBeneathLayers_iterate confidence element layers hl) sink

namespace Sample

/-- The use in the sample, inferred as an array of arrays, with offsets recorded for each layer. -/
def layeredUse : Visit :=
  ⟨useVisit.node, ⟨some (.array ⟨"pkg.Foo😀[][]", some ⟨0, 3⟩, none, true⟩
    (.array ⟨"java.lang.Class", some ⟨-1, 7⟩, some 4, false⟩ (type none))), .exact⟩,
    useVisit.element⟩

/-- A class literal that is inferred as the type of classes, or as an array of it. -/
def literalVisit (inferred : TypeNode) : Visit :=
  ⟨.classLiteral (type none) (some ⟨14, 23⟩), ⟨some inferred, .exact⟩, importVisit.element⟩

end Sample

theorem sample_layered_use_offered :
    Sample.layeredUse.SameBeneathLayers Sample.useVisit ∧
    (Sample.search.step collector (begin #[]).state Sample.layeredUse).offered =
      some Sample.useMention ∧
    [Sample.layeredUse, Sample.useVisit].Forall₂ Visit.SameBeneathLayers
      [Sample.useVisit, Sample.layeredUse] ∧
    (Sample.search.steps collector (begin #[]).state
      [Sample.layeredUse, Sample.useVisit]).map (·.offered) = [some Sample.useMention, none] ∧
    (Sample.type none).name ≠ metatype ∧
    (Sample.search.step collector (begin #[]).state
      (Sample.literalVisit (TypeNode.arrayOf^[2] (Sample.type none)))).offered =
        some (Sample.search.mention (Sample.literalVisit (Sample.type none)) ⟨14, 9⟩) := by
  have h : Sample.layeredUse.SameBeneathLayers Sample.useVisit :=
    ⟨rfl, rfl, rfl, rfl, fun _ _ hn => nomatch hn⟩
  have h' : Sample.useVisit.SameBeneathLayers Sample.layeredUse :=
    ⟨rfl, rfl, rfl, rfl, fun _ _ hn => nomatch hn⟩
  have hs : [Sample.layeredUse, Sample.useVisit].Forall₂ Visit.SameBeneathLayers
      [Sample.useVisit, Sample.layeredUse] := .cons h (.cons h' .nil)
  have hname : (Sample.type none).name ≠ metatype := by decide
  obtain ⟨hstep, hrun, hiterate⟩ := array_layers_transparent Sample.search collector
  refine ⟨h, ?_, hs, ?_, hname, ?_⟩
  · rw [hstep _ _ h]
    rfl
  · rw [(hrun _ _ hs (begin #[])).1]
    rfl
  · rw [Sample.literalVisit, hiterate _ _ _ _ 2 fun _ _ _ => hname]
    rfl

/-- Of a class literal the outermost layer counts: an array of classes is no type of classes. -/
example :
    Sample.search.yields (Sample.literalVisit (.named metatype)) =
        some (Sample.search.mention (Sample.literalVisit (.named metatype)) ⟨14, 9⟩) ∧
      Sample.search.yields (Sample.literalVisit (.arrayOf (.named metatype))) = none :=
  ⟨rfl, rfl⟩

end Search
end Mentions
