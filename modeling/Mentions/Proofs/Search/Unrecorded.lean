import Mentions.Proofs.Search.Offered

/-! # Two ways to record no extent

A parser that has no offsets leaves an extent out, or records `noOffset` for both ends. A search
reads both alike, except in one place: an array type gives way to its component as soon as that has
an extent at all. So two records of the same visits are searched alike unless, in a use of an array
with an end of its own, only one of them leaves out the extent of the component.
-/

namespace Mentions

def Extent.unrecorded : Extent := ⟨-1, -1⟩

/-- The extent, left out if it records nothing. -/
def keepRecorded (extent : Option Extent) : Option Extent :=
  if extent = some .unrecorded then none else extent

@[simp] theorem startOf_keepRecorded (extent : Option Extent) :
    startOf (keepRecorded extent) = startOf extent := by
  unfold keepRecorded
  split
  · rename_i h; rw [h]; rfl
  · rfl

@[simp] theorem stopOf_keepRecorded (extent : Option Extent) :
    stopOf (keepRecorded extent) = stopOf extent := by
  unfold keepRecorded
  split
  · rename_i h; rw [h]; rfl
  · rfl

namespace TypeNode

/-- The type without the extents that record nothing. -/
def bare : TypeNode → TypeNode
  | plain l => plain { l with extent := keepRecorded l.extent }
  | array l component => array { l with extent := keepRecorded l.extent } component.bare

@[simp] theorem name_bare (t : TypeNode) : t.bare.name = t.name := by cases t <;> rfl

@[simp] theorem start_bare (t : TypeNode) : t.bare.start = t.start := by
  cases t <;> exact startOf_keepRecorded _

@[simp] theorem stop_bare (t : TypeNode) : t.bare.stop = t.stop := by
  cases t <;> exact stopOf_keepRecorded _

@[simp] theorem isDeclaration_bare (t : TypeNode) : t.bare.isDeclaration = t.isDeclaration := by
  cases t <;> rfl

@[simp] theorem selfRedirect_bare (t : TypeNode) :
    t.bare.label.selfRedirect = t.label.selfRedirect := by
  cases t <;> rfl

@[simp] theorem innermost_bare (t : TypeNode) : t.bare.innermost = t.innermost.bare := by
  induction t with
  | plain => rfl
  | array _ _ ih => exact ih

theorem component?_bare (t : TypeNode) : t.bare.component? = t.component?.map bare := by
  cases t <;> rfl

def componentHasExtent (t : TypeNode) : Bool := t.component?.any (·.label.extent.isSome)

theorem located_of_componentHasExtent_false {t : TypeNode} (hc : t.componentHasExtent = false) :
    t.located = t := by
  cases t with
  | plain => rfl
  | array l component => exact if_neg (Bool.eq_false_iff.mp hc)

theorem located_of_componentHasExtent {t : TypeNode} (hc : t.componentHasExtent = true) :
    ∃ component, t.component? = some component ∧ t.located = component := by
  cases t with
  | plain => cases hc
  | array l component => exact ⟨component, rfl, if_pos hc⟩

section
variable {t t' : TypeNode} (h : t.bare = t'.bare)
include h

theorem name_eq_of_bare : t.name = t'.name := by
  rw [← t.name_bare, h, name_bare]

theorem start_eq_of_bare : t.start = t'.start := by
  rw [← t.start_bare, h, start_bare]

theorem stop_eq_of_bare : t.stop = t'.stop := by
  rw [← t.stop_bare, h, stop_bare]

theorem component?_eq_of_bare : t.component?.map bare = t'.component?.map bare := by
  rw [← component?_bare, h, component?_bare]

theorem located_eq_of_bare (hc : t.componentHasExtent = t'.componentHasExtent) :
    t.located.bare = t'.located.bare := by
  cases hb : t.componentHasExtent with
  | false =>
    rw [located_of_componentHasExtent_false hb, located_of_componentHasExtent_false (hc ▸ hb), h]
  | true =>
    obtain ⟨component, hcomp, hloc⟩ := located_of_componentHasExtent hb
    obtain ⟨component', hcomp', hloc'⟩ := located_of_componentHasExtent (hc ▸ hb)
    have heq := component?_eq_of_bare h
    rw [hcomp, hcomp'] at heq
    rw [hloc, hloc']
    exact Option.some.inj heq

/-- A type that alone gives way to its component gives way to an extent that records nothing. -/
theorem stop_located_nonpos_of_bare (hc : t.componentHasExtent = true)
    (hc' : t'.componentHasExtent = false) : ¬ 0 < t.located.stop := by
  obtain ⟨component, hcomp, hloc⟩ := located_of_componentHasExtent hc
  have heq := component?_eq_of_bare h
  rw [hcomp, Option.map_some, eq_comm, Option.map_eq_some_iff] at heq
  obtain ⟨component', hcomp', hbare⟩ := heq
  have hnone : component'.label.extent = none := by
    simpa [componentHasExtent, hcomp'] using hc'
  rw [hloc, ← stop_eq_of_bare hbare, stop, hnone]
  decide

end

end TypeNode

namespace Node

def bare : Node → Node
  | classLiteral operand extent => classLiteral operand.bare (keepRecorded extent)
  | typeUse type => typeUse type.bare
  | importLine extent => importLine (keepRecorded extent)
  | annotationUse type extent => annotationUse type.bare (keepRecorded extent)
  | constructor declaring nameStart nameEnd extent =>
    constructor declaring.bare nameStart nameEnd (keepRecorded extent)
  | other => other

def givesWay : Node → Bool
  | typeUse type => type.componentHasExtent
  | _ => false

/-- The nodes have an end of their own, and only one of them gives way to a component. -/
def Torn (n n' : Node) : Prop := 0 < n.stop ∧ n.givesWay ≠ n'.givesWay

@[simp] theorem stop_bare (n : Node) : n.bare.stop = n.stop := by
  cases n with
  | typeUse type => exact type.stop_bare
  | other => rfl
  | classLiteral | importLine | annotationUse | constructor => exact stopOf_keepRecorded _

@[simp] theorem kindName_bare (n : Node) : n.bare.kindName = n.kindName := by cases n <;> rfl

@[simp] theorem looksAt_bare (s : Search) (n : Node) : s.looksAt n.bare = s.looksAt n := by
  cases n <;> rfl

/-- Away from uses, extents that record nothing are read as missing ones. -/
theorem sourceEnd_hint_bare {n : Node} (hn : ∀ type, n ≠ typeUse type) :
    n.bare.sourceEnd = n.sourceEnd ∧ n.bare.hint = n.hint := by
  cases n with
  | typeUse type => exact absurd rfl (hn type)
  | classLiteral | importLine | annotationUse | constructor =>
    simp [bare, sourceEnd, stop, extent?, hint]
  | other => exact ⟨rfl, rfl⟩

theorem sourceEnd_hint_typeUse {type type' : TypeNode} (h : type.bare = type'.bare)
    (hl : type.located.bare = type'.located.bare) :
    (typeUse type).sourceEnd = (typeUse type').sourceEnd ∧
      (typeUse type).hint = (typeUse type').hint := by
  have hdecl : type.isDeclaration = type'.isDeclaration := by
    rw [← type.isDeclaration_bare, h, TypeNode.isDeclaration_bare]
  have hredirect : type.label.selfRedirect = type'.label.selfRedirect := by
    rw [← type.selfRedirect_bare, h, TypeNode.selfRedirect_bare]
  refine ⟨TypeNode.stop_eq_of_bare hl, ?_⟩
  rw [hint, hint, hdecl, hredirect, TypeNode.start_eq_of_bare hl, TypeNode.stop_eq_of_bare hl]

theorem sourceEnd_typeUse_nonpos {type type' : TypeNode} (h : type.bare = type'.bare)
    (hc : type.componentHasExtent ≠ type'.componentHasExtent) (hs : ¬ 0 < type.stop) :
    ¬ 0 < (typeUse type).sourceEnd := by
  change ¬ 0 < type.located.stop
  cases hb : type.componentHasExtent with
  | false => rwa [TypeNode.located_of_componentHasExtent_false hb]
  | true =>
    have hc' : type'.componentHasExtent = false := Bool.eq_false_iff.mpr (hb ▸ Ne.symm hc)
    exact TypeNode.stop_located_nonpos_of_bare h hb hc'

theorem sourceEnd_hint_of_bare {n n' : Node} (h : n.bare = n'.bare) (hk : ¬ n.Torn n') :
    (0 < n.sourceEnd ↔ 0 < n'.sourceEnd) ∧ (0 < n.sourceEnd → n.hint = n'.hint) := by
  by_cases hn : ∃ type, n = typeUse type
  · obtain ⟨type, rfl⟩ := hn
    cases n' with
    | typeUse type' =>
      have ht : type.bare = type'.bare := typeUse.inj h
      by_cases hc : type.componentHasExtent = type'.componentHasExtent
      · obtain ⟨hend, hhint⟩ := sourceEnd_hint_typeUse ht (TypeNode.located_eq_of_bare ht hc)
        exact ⟨by rw [hend], fun _ => hhint⟩
      · have hs : ¬ 0 < type.stop := fun hs => hk ⟨hs, hc⟩
        have hs' : ¬ 0 < type'.stop := by rwa [← TypeNode.stop_eq_of_bare ht]
        have hend := sourceEnd_typeUse_nonpos ht hc hs
        have hend' := sourceEnd_typeUse_nonpos ht.symm (Ne.symm hc) hs'
        exact ⟨iff_of_false hend hend', fun hp => absurd hp hend⟩
    | _ => cases h
  · have hn' : ¬ ∃ type, n' = typeUse type := by
      rintro ⟨type, rfl⟩
      cases n with
      | typeUse type => exact hn ⟨type, rfl⟩
      | _ => cases h
    obtain ⟨hend, hhint⟩ := sourceEnd_hint_bare (not_exists.mp hn)
    obtain ⟨hend', hhint'⟩ := sourceEnd_hint_bare (not_exists.mp hn')
    rw [← hend, ← hend', ← hhint, ← hhint', h]
    exact ⟨Iff.rfl, fun _ => rfl⟩

/-- Of two torn uses, the one that gives way to its component has no recorded end. -/
theorem sourceEnd_of_torn {n n' : Node} (h : n.bare = n'.bare) (hk : n.Torn n')
    (hg : n.givesWay = true) : ¬ 0 < n.sourceEnd := by
  cases n with
  | typeUse type =>
    cases n' with
    | typeUse type' =>
      have hc : type'.componentHasExtent = false := Bool.eq_false_iff.mpr (hg ▸ Ne.symm hk.2)
      exact TypeNode.stop_located_nonpos_of_bare (typeUse.inj h) hg hc
    | _ => cases h
  | _ => cases hg

theorem Torn.symm {n n' : Node} (h : n.bare = n'.bare) (hk : n.Torn n') : n'.Torn n := by
  have hs : n.stop = n'.stop := by rw [← n.stop_bare, h, stop_bare]
  exact ⟨hs ▸ hk.1, Ne.symm hk.2⟩

end Node

def Inference.bare (i : Inference) : Inference := { i with type? := i.type?.map TypeNode.bare }

def Visit.bare (v : Visit) : Visit :=
  { v with node := v.node.bare, inference := v.inference.bare }

namespace Visit
variable {v v' : Visit} (h : v.bare = v'.bare)
include h

theorem node_eq_of_bare : v.node.bare = v'.node.bare := congrArg Visit.node h

theorem inference_eq_of_bare : v.inference.bare = v'.inference.bare := congrArg Visit.inference h

theorem element_eq_of_bare : v.element = v'.element := by
  have he : v.bare.element = v'.bare.element := congrArg Visit.element h
  exact he

theorem kindName_eq_of_bare : v.node.kindName = v'.node.kindName := by
  rw [← Node.kindName_bare, node_eq_of_bare h, Node.kindName_bare]

end Visit

@[simp] theorem Inference.isMetatype_bare (i : Inference) : i.bare.isMetatype = i.isMetatype := by
  cases ht : i.type? with
  | none => simp [isMetatype, bare, ht]
  | some t => simp [isMetatype, bare, ht]

theorem Node.referredType?_bare (n : Node) (i : Inference) :
    n.bare.referredType? i.bare = (n.referredType? i).map TypeNode.bare := by
  cases n with
  | classLiteral operand extent =>
    rw [bare, referredType?, referredType?, Inference.isMetatype_bare]
    split
    · rfl
    · rfl
  | _ => rfl

namespace Search
variable {s : Search} {v v' : Visit}

/-! ## One visit -/

theorem candidate?_of_bare (h : v.bare = v'.bare) (hk : ¬ v.node.Torn v'.node) {type : TypeNode}
    (hc : s.candidate? v = some type) :
    ∃ type', s.candidate? v' = some type' ∧ type.bare = type'.bare := by
  have hnode := Visit.node_eq_of_bare h
  have hinf := Visit.inference_eq_of_bare h
  obtain ⟨hn, ⟨t, ht, rfl⟩, hname, hstop⟩ := candidate?_eq_some_iff.mp hc
  have hrefer : (v'.node.referredType? v'.inference).map TypeNode.bare = some t.bare := by
    rw [← Node.referredType?_bare, ← hnode, ← hinf, Node.referredType?_bare,
      Node.referredType?_eq_some_iff.mpr ht, Option.map_some]
  obtain ⟨t', ht', hbare⟩ := Option.map_eq_some_iff.mp hrefer
  have hinner : t.innermost.bare = t'.innermost.bare := by
    rw [← TypeNode.innermost_bare, ← hbare, TypeNode.innermost_bare]
  refine ⟨t'.innermost, candidate?_eq_some_iff.mpr ⟨?_, ⟨t', ?_, rfl⟩, ?_, ?_⟩, hinner⟩
  · rw [← Node.looksAt_iff, ← Node.looksAt_bare, ← hnode, Node.looksAt_bare, Node.looksAt_iff]
    exact hn
  · exact Node.referredType?_eq_some_iff.mp ht'
  · rw [← TypeNode.name_eq_of_bare hinner, hname]
  · exact (Node.sourceEnd_hint_of_bare hnode hk).1.mp hstop

theorem locate_of_bare {type type' : TypeNode} (ht : type.bare = type'.bare) (e : Element)
    (h : Hint) : s.locate type e h = s.locate type' e h := by
  have hname := TypeNode.name_eq_of_bare ht
  have hrecorded : recordedSpan type = recordedSpan type' := by
    rw [recordedSpan, recordedSpan, TypeNode.start_eq_of_bare ht, TypeNode.stop_eq_of_bare ht]
  cases hu : e.unit with
  | none => simp only [locate, hu, hname, hrecorded]
  | some unit =>
    have htext : locateInText type unit.source h s.settings.caseSensitive =
        locateInText type' unit.source h s.settings.caseSensitive := by
      simp only [locateInText, TypeNode.simpleName, hname]
    have hnotices : locateNotices type h = locateNotices type' h := by
      funext span
      cases span with
      | none => rw [locateNotices, locateNotices, hname]
      | some => rfl
    simp only [locate, hu, htext, hnotices]

theorem resolve_of_bare (h : v.bare = v'.bare) (hk : ¬ v.node.Torn v'.node) :
    s.resolve v = s.resolve v' := by
  have hnode := Visit.node_eq_of_bare h
  have helement := Visit.element_eq_of_bare h
  have hmention : s.mention v = s.mention v' := by
    funext span
    have hconfidence : v.inference.confidence = v'.inference.confidence :=
      (Inference.mk.inj (Visit.inference_eq_of_bare h)).2
    simp only [mention, helement, hconfidence]
  cases hc : s.candidate? v with
  | none =>
    cases hc' : s.candidate? v' with
    | none => simp only [resolve, hc, hc']
    | some type' =>
      have hk' : ¬ v'.node.Torn v.node := fun ht => hk (ht.symm hnode.symm)
      obtain ⟨type, htype, -⟩ := candidate?_of_bare h.symm hk' hc'
      rw [hc] at htype
      cases htype
  | some type =>
    obtain ⟨type', hc', ht⟩ := candidate?_of_bare h hk hc
    obtain ⟨-, -, -, hstop⟩ := candidate?_eq_some_iff.mp hc
    have hhint := (Node.sourceEnd_hint_of_bare hnode hk).2 hstop
    simp only [resolve, hc, hc', hhint, Visit.kindName_eq_of_bare h, TypeNode.name_eq_of_bare ht,
      locate_of_bare ht, helement, hmention]

/-- Of two records that tear a visit, the one that gives way to the component yields nothing. -/
theorem resolve_of_torn (h : v.bare = v'.bare) (hk : v.node.Torn v'.node)
    (hg : v.node.givesWay = true) : s.resolve v = (none, []) := by
  have hs : ¬ 0 < v.node.sourceEnd := Node.sourceEnd_of_torn (Visit.node_eq_of_bare h) hk hg
  cases hc : s.candidate? v with
  | none => simp only [resolve, hc]
  | some type => exact absurd (candidate?_eq_some_iff.mp hc).2.2.2 hs

/-! ## Runs -/

variable {σ : Type}

theorem step_of_bare (h : v.bare = v'.bare) (hk : ¬ v.node.Torn v'.node) (sink : Sink σ)
    (state : SearchState σ) : s.step sink state v = s.step sink state v' := by
  unfold step
  rw [resolve_of_bare h hk, Visit.kindName_eq_of_bare h, Visit.element_eq_of_bare h]

theorem step_of_torn (h : v.bare = v'.bare) (hk : v.node.Torn v'.node)
    (hg : v.node.givesWay = true) (sink : Sink σ) (state : SearchState σ) :
    s.step sink state v = ⟨none, [], state⟩ := by
  rw [step, resolve_of_torn h hk hg]

/-- No visit is torn between the two records. -/
def Untorn (es es' : List Visit) : Prop := ∀ q ∈ es.zip es', ¬ q.1.node.Torn q.2.node

theorem bare_eq_of_mem_zip {es es' : List Visit} (h : es.map Visit.bare = es'.map Visit.bare)
    {q : Visit × Visit} (hq : q ∈ es.zip es') : q.1.bare = q.2.bare := by
  induction es generalizing es' with
  | nil => cases hq
  | cons v rest ih =>
    cases es' with
    | nil => cases h
    | cons v' rest' =>
      obtain ⟨hv, hrest⟩ := List.cons.inj h
      rcases List.mem_cons.mp hq with rfl | hq
      · exact hv
      · exact ih hrest hq

theorem run_of_bare {es es' : List Visit} (h : es.map Visit.bare = es'.map Visit.bare)
    (hk : Untorn es es') (sink : Sink σ) (p : Progress σ) :
    s.steps sink p.state es = s.steps sink p.state es' ∧
      replay (s.visitor sink) p es = replay (s.visitor sink) p es' := by
  have hlen : es.length = es'.length := by simpa using congrArg List.length h
  refine run_congr (List.forall₂_iff_zip.mpr ⟨hlen, fun {v v'} hq => ?_⟩) p
  exact step_of_bare (bare_eq_of_mem_zip h hq) (hk (v, v') hq) sink

/-- **Leaving an extent out and recording nothing in it are interchangeable, but for the component
of a used array.** Two records of the same visits that differ at most in this bring about the same
steps and the same replay, its log and spots included, unless a visit is torn between them: a use
of an array with an end of its own, whose component has an extent in one record only. That record
of the visit passes without a trace. -/
theorem missing_extents_interchangeable {es es' : List Visit}
    (h : es.map Visit.bare = es'.map Visit.bare) (sink : Sink σ) (p : Progress σ) :
    (Untorn es es' → s.steps sink p.state es = s.steps sink p.state es' ∧
        replay (s.visitor sink) p es = replay (s.visitor sink) p es') ∧
      ∀ q ∈ es.zip es', q.1.node.Torn q.2.node → ∀ state,
        (q.1.node.givesWay = true → s.step sink state q.1 = ⟨none, [], state⟩) ∧
        (q.2.node.givesWay = true → s.step sink state q.2 = ⟨none, [], state⟩) := by
  refine ⟨fun hk => run_of_bare h hk sink p, fun q hq hk state => ?_⟩
  have hbare := bare_eq_of_mem_zip h hq
  have hk' := hk.symm (Visit.node_eq_of_bare hbare)
  exact ⟨fun hg => step_of_torn hbare hk hg sink state,
    fun hg => step_of_torn hbare.symm hk' hg sink state⟩

/-! ## Arrays in the sample -/

namespace Sample

def arrayUse (component : TypeNode) : Visit :=
  visit (.typeUse (.array ⟨"pkg.Foo😀[]", some ⟨25, 30⟩, none, false⟩ component))

def inferredImport (extent : Option Extent) : Visit :=
  ⟨importVisit.node, ⟨some (type extent), .exact⟩, importVisit.element⟩

/-- The import, and a use of an array of arrays; all types inside record no extent. -/
def leftOut : List Visit := [inferredImport none, arrayUse (.arrayOf (type none))]

def writtenOut : List Visit :=
  [inferredImport (some .unrecorded), arrayUse (.arrayOf (type (some .unrecorded)))]

theorem leftOut_untorn : Untorn leftOut writtenOut := by
  intro q hq
  rcases List.mem_pair.mp hq with rfl | rfl
  · exact fun hk => hk.2 rfl
  · exact fun hk => hk.2 rfl

end Sample

theorem sample_written_out_alike :
    Sample.leftOut.map Visit.bare = Sample.writtenOut.map Visit.bare ∧
    Untorn Sample.leftOut Sample.writtenOut ∧
    (Sample.search.steps collector (begin #[]).state Sample.writtenOut).map (·.offered) =
      [some (Sample.search.mention (Sample.inferredImport none) ⟨14, 9⟩),
        some (Sample.search.mention (Sample.arrayUse (Sample.type none)) ⟨25, 5⟩)] := by
  have h : Sample.leftOut.map Visit.bare = Sample.writtenOut.map Visit.bare := rfl
  obtain ⟨halike, -⟩ := missing_extents_interchangeable (s := Sample.search) h collector (begin #[])
  refine ⟨h, Sample.leftOut_untorn, ?_⟩
  rw [← (halike Sample.leftOut_untorn).1]
  rfl

/-- The two ways are not always interchangeable: a component with an extent that records nothing
hides the extent of its array. -/
theorem missing_extents_not_always_interchangeable :
    ¬ ∀ (s : Search) (es es' : List Visit), es.map Visit.bare = es'.map Visit.bare →
      (s.steps collector (begin #[]).state es).map (·.offered) =
        (s.steps collector (begin #[]).state es').map (·.offered) := by
  intro h
  have halike : [some (Sample.search.mention (Sample.arrayUse (Sample.type none)) ⟨25, 5⟩)] =
      [none] :=
    h Sample.search [Sample.arrayUse (Sample.type none)]
      [Sample.arrayUse (Sample.type (some .unrecorded))] rfl
  cases halike

end Search

end Mentions
