import Mathlib.Data.Option.Basic
import Mentions.Proofs.Search.Location
import Mentions.Proofs.Search.Run

/-! # Visits that refer to the searched type

What makes a visit a reference is said here once for each kind of node: the type that it refers to,
the offsets recorded for the reference, and the nodes that only name a type. A visit with a source
then yields the mention at the place of the name, and nothing else.
-/

namespace Mentions

/-- The nodes that can be references; constructors only where they count. -/
def Node.CanRefer (constructors : Bool) : Node → Prop
  | .classLiteral .. | .typeUse .. | .importLine .. | .annotationUse .. => True
  | .constructor .. => constructors = true
  | .other => False

/-- The type that a node refers to: the one it names itself, if it is an annotation, a constructor
or a literal whose inferred type is that of classes, else the inferred one. -/
inductive Node.RefersTo (i : Inference) : Node → TypeNode → Prop
  | annotated {type : TypeNode} {extent : Option Extent} :
      RefersTo i (.annotationUse type extent) type
  | constructor {declaring : TypeNode} {nameStart nameEnd : Offset} {extent : Option Extent} :
      RefersTo i (.constructor declaring nameStart nameEnd extent) declaring
  | operand {operand type : TypeNode} {extent : Option Extent} (hi : i.type? = some type)
      (hm : type.name = "java.lang.Class") : RefersTo i (.classLiteral operand extent) operand
  | value {operand type : TypeNode} {extent : Option Extent} (hi : i.type? = some type)
      (hm : type.name ≠ "java.lang.Class") : RefersTo i (.classLiteral operand extent) type
  | use {used type : TypeNode} (hi : i.type? = some type) : RefersTo i (.typeUse used) type
  | importLine {type : TypeNode} {extent : Option Extent} (hi : i.type? = some type) :
      RefersTo i (.importLine extent) type
  | other {type : TypeNode} (hi : i.type? = some type) : RefersTo i .other type

/-- Nodes that name a type without referring to it: its declaration, the class made up for a
script, and the constructor made up for one. -/
inductive Node.OnlyNames : Node → Prop
  | declaration {type : TypeNode} {nameEnd : Offset} (he : type.label.nameEnd = some nameEnd)
      (hp : 0 < nameEnd.toInt) : OnlyNames (.typeUse type)
  | script {type : TypeNode} (h : type.label.selfRedirect = true) : OnlyNames (.typeUse type)
  | scriptConstructor {declaring : TypeNode} {extent : Option Extent} :
      OnlyNames (.constructor declaring 0 0 extent)

/-- The offsets that a node records for its reference. The end recorded with the name of a
constructor is that of its last unit. -/
def Node.recorded : Node → Hint
  | .importLine extent | .classLiteral _ extent => ⟨startOf extent, stopOf extent⟩
  | .typeUse type => ⟨type.located.start, type.located.stop⟩
  | .annotationUse type _ => ⟨type.start, type.stop⟩
  | .constructor _ nameStart nameEnd _ => ⟨nameStart.toInt, nameEnd.toInt + 1⟩
  | .other => ⟨noOffset, noOffset⟩

/-- The hint with its end kept within the offsets that can be recorded. -/
def Hint.capped (h : Hint) : Hint := { h with stop := min h.stop Node.maxOffset }

theorem stopOf_le (extent : Option Extent) : stopOf extent ≤ Node.maxOffset := by
  cases extent with
  | none => simp [stopOf, noOffset, Node.maxOffset]
  | some e => exact Int.le_of_lt_add_one e.stop.toInt_lt

theorem Hint.capped_of_le {start stop : Int} (h : stop ≤ Node.maxOffset) :
    (⟨start, stop⟩ : Hint).capped = ⟨start, stop⟩ := by
  simp [Hint.capped, Int.min_eq_left h]

namespace Node

theorem looksAt_iff {s : Search} {n : Node} :
    s.looksAt n = true ↔ n.CanRefer s.settings.includeConstructors := by
  cases n <;> simp [Search.looksAt, CanRefer]

theorem isMetatype_iff {i : Inference} {type : TypeNode} (hi : i.type? = some type) :
    i.isMetatype = true ↔ type.name = "java.lang.Class" := by
  simp [Inference.isMetatype, hi, metatype]

theorem referredType?_eq_some_iff {n : Node} {i : Inference} {type : TypeNode} :
    n.referredType? i = some type ↔ n.RefersTo i type := by
  refine ⟨fun h => ?_, fun h => ?_⟩
  · cases n with
    | annotationUse => cases h; exact .annotated
    | constructor => cases h; exact .constructor
    | typeUse => exact .use h
    | importLine => exact .importLine h
    | other => exact .other h
    | classLiteral operand extent =>
      simp only [referredType?] at h
      split at h
      · rename_i hm
        obtain ⟨t, ht, -⟩ := (Option.any_eq_true _ _).mp hm
        cases h
        exact .operand ht ((isMetatype_iff ht).mp hm)
      · rename_i hm
        exact .value h fun hn => hm ((isMetatype_iff h).mpr hn)
  · cases h with
    | annotated | constructor => rfl
    | use hi | importLine hi | other hi => exact hi
    | operand hi hm => exact if_pos ((isMetatype_iff hi).mpr hm)
    | value hi hm => exact (if_neg fun h => hm ((isMetatype_iff hi).mp h)).trans hi

theorem onlyNames_typeUse_iff {type : TypeNode} :
    (typeUse type).OnlyNames ↔ type.isDeclaration = true ∨ type.label.selfRedirect = true := by
  rw [TypeNode.isDeclaration, Option.any_eq_true]
  refine ⟨fun h => ?_, fun h => ?_⟩
  · cases h with
    | declaration he hp => exact .inl ⟨_, he, by simpa using hp⟩
    | script h => exact .inr h
  · rcases h with ⟨nameEnd, he, hp⟩ | h
    · exact .declaration he (by simpa using hp)
    · exact .script h

theorem onlyNames_constructor_iff {declaring : TypeNode} {nameStart nameEnd : Offset}
    {extent : Option Extent} :
    (constructor declaring nameStart nameEnd extent).OnlyNames ↔
      nameStart.toInt = 0 ∧ min (nameEnd.toInt + 1) maxOffset = 1 := by
  refine ⟨fun h => ?_, fun h => ?_⟩
  · cases h
    exact ⟨rfl, rfl⟩
  · obtain ⟨hs, he⟩ := h
    have he : nameEnd.toInt = 0 := by unfold maxOffset at he; omega
    obtain rfl : nameStart = 0 := Int32.toInt_inj.mp hs
    obtain rfl : nameEnd = 0 := Int32.toInt_inj.mp he
    exact .scriptConstructor

/-- The hint of a node that can refer is what it records, unless it only names the type. -/
theorem hint_eq_ok_iff {constructors : Bool} {n : Node} {h : Hint}
    (hn : n.CanRefer constructors) :
    n.hint = .ok h ↔ ¬ n.OnlyNames ∧ h = n.recorded.capped := by
  -- recorded ends fit a word, so that only the end of a constructor's name can meet the cap
  cases n with
  | importLine extent | classLiteral _ extent =>
    rw [recorded, Hint.capped_of_le (stopOf_le extent)]
    exact ⟨fun h => ⟨nofun, (Except.ok.inj h).symm⟩, fun ⟨_, h⟩ => congrArg Except.ok h.symm⟩
  | annotationUse type extent =>
    rw [recorded, Hint.capped_of_le (show type.stop ≤ maxOffset from stopOf_le _)]
    exact ⟨fun h => ⟨nofun, (Except.ok.inj h).symm⟩, fun ⟨_, h⟩ => congrArg Except.ok h.symm⟩
  | typeUse type =>
    rw [recorded, Hint.capped_of_le (show type.located.stop ≤ maxOffset from stopOf_le _),
      onlyNames_typeUse_iff, hint]
    split
    · rename_i hd; simp [hd]
    · rename_i hd
      split
      · rename_i hr; simp [hr]
      · rename_i hr; simp [hd, hr, eq_comm]
  | constructor declaring nameStart nameEnd extent =>
    rw [onlyNames_constructor_iff, hint]
    by_cases hs : nameStart.toInt = 0 ∧ min (nameEnd.toInt + 1) maxOffset = 1
    · simp [hs]
    · rw [if_neg hs]
      exact ⟨fun h => ⟨hs, (Except.ok.inj h).symm⟩, fun ⟨_, h⟩ => congrArg Except.ok h.symm⟩
  | other => exact hn.elim

end Node

namespace Search

theorem candidate?_eq_some_iff {s : Search} {v : Visit} {type : TypeNode} :
    s.candidate? v = some type ↔ v.node.CanRefer s.settings.includeConstructors ∧
      (∃ t, v.node.RefersTo v.inference t ∧ t.innermost = type) ∧ type.name = s.target ∧
        0 < v.node.sourceEnd := by
  simp only [candidate?, Option.bind_eq_bind, Option.bind_eq_some_iff, Option.guard_eq_some',
    Node.looksAt_iff, Node.referredType?_eq_some_iff, Bool.and_eq_true, beq_iff_eq,
    decide_eq_true_eq, Option.pure_def, Option.some.injEq]
  refine ⟨fun h => ?_, fun h => ?_⟩
  · obtain ⟨_, hn, t, ht, _, ⟨hname, hstop⟩, rfl⟩ := h
    exact ⟨hn, ⟨t, ht, rfl⟩, hname, hstop⟩
  · obtain ⟨hn, ⟨t, ht, rfl⟩, hname, hstop⟩ := h
    exact ⟨(), hn, t, ht, (), ⟨hname, hstop⟩, rfl⟩

/-- A visit yields the mention at the span where its type is located, if the node can refer, refers
to the searched type, has a recorded end and does not only name the type. -/
theorem yields_eq_some_iff_located {s : Search} {v : Visit} {m : Mention} :
    s.yields v = some m ↔ v.node.CanRefer s.settings.includeConstructors ∧
      0 < v.node.sourceEnd ∧ ¬ v.node.OnlyNames ∧
      ∃ t span, v.node.RefersTo v.inference t ∧ t.innermost.name = s.target ∧
        (s.locate t.innermost v.element v.node.recorded.capped).1 = some span ∧ 0 < span.length ∧
        m = s.mention v span := by
  refine ⟨fun hy => ?_, fun hr => ?_⟩
  · unfold yields resolve at hy
    split at hy
    · cases hy
    · rename_i type hc
      obtain ⟨hn, ⟨t, ht, rfl⟩, hname, hstop⟩ := candidate?_eq_some_iff.mp hc
      split at hy
      · cases hy
      · rename_i h hh
        obtain ⟨honly, rfl⟩ := (Node.hint_eq_ok_iff hn).mp hh
        simp only [Option.map_eq_some_iff, Option.filter_eq_some_iff] at hy
        obtain ⟨span, ⟨hl, hlen⟩, rfl⟩ := hy
        refine ⟨hn, hstop, honly, t, span, ht, hname, hl, ?_, rfl⟩
        simpa [Span.isEmpty, Nat.pos_iff_ne_zero] using hlen
  · obtain ⟨hn, hstop, honly, t, span, ht, hname, hl, hlen, rfl⟩ := hr
    have hc := candidate?_eq_some_iff.mpr ⟨hn, ⟨t, ht, rfl⟩, hname, hstop⟩
    have hh := (Node.hint_eq_ok_iff hn).mpr ⟨honly, rfl⟩
    have hlen : span.isEmpty = false := beq_false_of_ne (Nat.ne_of_gt hlen)
    simp [yields, resolve, hc, hh, hl, hlen]

/-- **What a visit with a source yields.** It yields the mention at the place of the searched name
near what the node records, if the node can refer, refers to the searched type, has a recorded end
and does not only name the type. -/
theorem yields_eq_some_iff {s : Search} {v : Visit} {unit : SourceUnit} {m : Mention}
    (hu : v.element.unit = some unit) :
    s.yields v = some m ↔ v.node.CanRefer s.settings.includeConstructors ∧
      (∃ t, v.node.RefersTo v.inference t ∧ t.innermost.name = s.target) ∧
      0 < v.node.sourceEnd ∧ ¬ v.node.OnlyNames ∧
      ∃ span, Placed s.target unit.source v.node.recorded.capped s.settings.caseSensitive span ∧
        m = s.mention v span := by
  simp only [yields_eq_some_iff_located, locate, hu, locateInText_eq_some_iff]
  constructor
  · intro ⟨hn, hstop, honly, t, span, ht, hname, hp, _, hm⟩
    exact ⟨hn, ⟨t, ht, hname⟩, hstop, honly, span, hname ▸ hp, hm⟩
  · intro ⟨hn, ⟨t, ht, hname⟩, hstop, honly, span, hp, hm⟩
    exact ⟨hn, hstop, honly, t, span, ht, hname, hname ▸ hp, hp.length_pos, hm⟩

/-- Every offer of a run is what a visit yields that refers to the searched type. -/
theorem exists_visit_of_offer {σ : Type} {s : Search} {sink : Sink σ} {state : SearchState σ}
    {visits : List Visit} {o : Offer} (ho : o ∈ s.offers sink state visits) :
    ∃ v ∈ visits, s.yields v = some o.mention ∧
      ∃ t, v.node.RefersTo v.inference t ∧ t.innermost.name = s.target := by
  obtain ⟨front, v, rest, rfl, hv⟩ := mem_offers_iff.mp ho
  obtain ⟨hy, -, -⟩ := offer?_eq_some_iff.mp hv
  obtain ⟨-, -, -, t, -, ht, hname, -⟩ := yields_eq_some_iff_located.mp hy
  exact ⟨v, List.mem_append_right _ List.mem_cons_self, hy, t, ht, hname⟩

end Search
end Mentions
