import Mentions.Proofs.Search.Reported

/-! # The offsets that a hint covers

A hint covers the offsets from its start up to its end, the end included. Nothing else of a text
matters to where a name is placed near it, neither what stands elsewhere nor how much stands before.
So references whose hints cover no offset in common are placed apart, and none of them keeps another
from being reported.
-/

namespace Mentions

/-- The offset is looked at: up to one unit past the end of the hint. -/
def Hint.Covers (h : Hint) (i : Int) : Prop := h.start ≤ i ∧ i < h.stop + 1

def Hint.shift (h : Hint) (k : Nat) : Hint := ⟨h.start + k, h.stop + k⟩

/-- Where the hint covers the first text, the second has the same units, `k` offsets further on. -/
def AgreeNear (h : Hint) (k : Nat) (a b : SourceText) : Prop :=
  ∀ i : Nat, h.Covers i → a.units[i]? = b.units[i + k]?

/-! ## One text for another -/

section
variable {spelling name : String} {type : TypeNode} {a b : SourceText} {h : Hint} {k i : Nat}
  {caseSensitive : Bool} {span : Span}

theorem spelledAt_shift_iff (hs : 0 ≤ h.start) (hab : AgreeNear h k a b) :
    SpelledAt spelling a h caseSensitive i ↔
      SpelledAt spelling b (h.shift k) caseSensitive (i + k) := by
  simp only [SpelledAt, Text.occurs_iff_readsAt, Hint.shift]
  -- the window has moved along, and all of the spelling lies in it
  have hreads (hstart : h.start ≤ i) (hstop : (i + (Text.units spelling).length : Int) ≤ h.stop + 1) :
      Text.ReadsAt caseSensitive (Text.units spelling) a.units i ↔
        Text.ReadsAt caseSensitive (Text.units spelling) b.units (i + k) := by
    refine Text.readsAt_congr fun j hj => ?_
    rw [hab (i + j) ⟨by omega, by omega⟩, Nat.add_right_comm]
  constructor
  · intro ⟨hn, _, hstart, hstop, hr⟩
    exact ⟨hn, by omega, by omega, by omega, (hreads hstart hstop).mp hr⟩
  · intro ⟨hn, _, hstart, hstop, hr⟩
    have hstart : h.start ≤ i := by omega
    have hstop : (i + (Text.units spelling).length : Int) ≤ h.stop + 1 := by omega
    exact ⟨hn, hs, hstart, hstop, (hreads hstart hstop).mpr hr⟩

/-- Nothing stands near a hint that has moved along but what has moved with it. -/
theorem exists_of_spelledAt_shift (hs : 0 ≤ h.start)
    (ho : SpelledAt spelling b (h.shift k) caseSensitive i) : ∃ j, i = j + k := by
  have hstart : h.start + k ≤ i := ho.start_le
  exact ⟨i - k, by omega⟩

theorem exists_spelledAt_shift_iff (hs : 0 ≤ h.start) (hab : AgreeNear h k a b) :
    (∃ i, SpelledAt spelling b (h.shift k) caseSensitive i) ↔
      ∃ i, SpelledAt spelling a h caseSensitive i := by
  constructor
  · intro ⟨i, ho⟩
    obtain ⟨i, rfl⟩ := exists_of_spelledAt_shift hs ho
    exact ⟨i, (spelledAt_shift_iff hs hab).mpr ho⟩
  · intro ⟨i, ho⟩
    exact ⟨i + k, (spelledAt_shift_iff hs hab).mp ho⟩

theorem FirstSpelledAt.shift (hs : 0 ≤ h.start) (hab : AgreeNear h k a b)
    (first : FirstSpelledAt spelling a h caseSensitive i) :
    FirstSpelledAt spelling b (h.shift k) caseSensitive (i + k) := by
  refine ⟨(spelledAt_shift_iff hs hab).mp first.1, fun j hj ho => ?_⟩
  obtain ⟨j, rfl⟩ := exists_of_spelledAt_shift hs ho
  exact first.2 j (by omega) ((spelledAt_shift_iff hs hab).mpr ho)

theorem Hint.length_shift : (h.shift k).stop - (h.shift k).start = h.stop - h.start := by
  dsimp only [shift]
  omega

theorem Placed.shift (hs : 0 ≤ h.start) (hab : AgreeNear h k a b)
    (hp : Placed name a h caseSensitive span) :
    Placed name b (h.shift k) caseSensitive ⟨span.offset + k, span.length⟩ := by
  cases hp with
  | qualified fits first =>
    dsimp only
    refine .qualified ?_ (first.shift hs hab)
    rwa [Hint.length_shift]
  | simple unqualified first =>
    dsimp only
    refine .simple (fun fits j hj => ?_) (first.shift hs hab)
    rw [Hint.length_shift] at fits
    obtain ⟨i, hi⟩ := (exists_spelledAt_shift_iff hs hab).mp ⟨j, hj⟩
    exact unqualified fits i hi

/-- What is located moves along with the hint and the units that it covers. -/
theorem locateInText_shift (hs : 0 ≤ h.start) (hab : AgreeNear h k a b) (type : TypeNode)
    (caseSensitive : Bool) :
    locateInText type b (h.shift k) caseSensitive =
      (locateInText type a h caseSensitive).map fun span => ⟨span.offset + k, span.length⟩ := by
  cases hl : locateInText type a h caseSensitive with
  | some span => exact locateInText_eq_some_iff.mpr ((locateInText_eq_some_iff.mp hl).shift hs hab)
  | none =>
    refine Option.eq_none_iff_forall_ne_some.mpr fun span hb => ?_
    have hspelled := exists_placed_iff.mp ⟨span, locateInText_eq_some_iff.mp hb⟩
    rw [Hint.length_shift, exists_spelledAt_shift_iff hs hab,
      exists_spelledAt_shift_iff hs hab] at hspelled
    obtain ⟨span', hp⟩ := exists_placed_iff.mpr hspelled
    rw [locateInText_eq_some_iff.mpr hp] at hl
    cases hl

/-- **Text that the hint does not cover does not matter.** Where two texts agree on the units that a
hint covers, `k` offsets further on in the second, a type is located in the first exactly where it is
located `k` offsets further on in the second, at a hint that many offsets further on; and in neither
if not in the other. -/
theorem located_alike_where_texts_agree (hs : 0 ≤ h.start) (hab : AgreeNear h k a b)
    (type : TypeNode) (caseSensitive : Bool) :
    (∀ offset length, locateInText type a h caseSensitive = some ⟨offset, length⟩ ↔
      locateInText type b ⟨h.start + k, h.stop + k⟩ caseSensitive = some ⟨offset + k, length⟩) ∧
    (locateInText type a h caseSensitive = none ↔
      locateInText type b ⟨h.start + k, h.stop + k⟩ caseSensitive = none) := by
  rw [show (⟨h.start + k, h.stop + k⟩ : Hint) = h.shift k from rfl, locateInText_shift hs hab]
  refine ⟨fun offset length => ⟨fun hl => ?_, fun hb => ?_⟩, Option.map_eq_none_iff.symm⟩
  · rw [hl]
    rfl
  · obtain ⟨span, hl, hspan⟩ := Option.map_eq_some_iff.mp hb
    obtain ⟨hoffset, hlength⟩ := Span.mk.inj hspan
    rw [hl, ← Nat.add_right_cancel hoffset, ← hlength]

/-- A text, and another one that goes on like it after a comment. -/
def Search.Sample.declared : SourceText := .ofString "Foo x"

def Search.Sample.commented : SourceText := .ofString "/*Foo*/ Foo y"

theorem sample_comment_does_not_matter :
    (0 : Int) ≤ (⟨0, 3⟩ : Hint).start ∧
    AgreeNear ⟨0, 3⟩ 8 Search.Sample.declared Search.Sample.commented ∧
    locateInText (.named "pkg.Foo") Search.Sample.declared ⟨0, 3⟩ true = some ⟨0, 3⟩ ∧
    locateInText (.named "pkg.Foo") Search.Sample.commented ⟨8, 11⟩ true = some ⟨8, 3⟩ := by
  have hs : (0 : Int) ≤ (⟨0, 3⟩ : Hint).start := Int.le_refl 0
  have hagree : ∀ i < 4, Search.Sample.declared.units[i]? = Search.Sample.commented.units[i + 8]? := by
    decide
  have hab : AgreeNear ⟨0, 3⟩ 8 Search.Sample.declared Search.Sample.commented := by
    intro i hi
    exact hagree i (Int.ofNat_lt.mp hi.2)
  have hl : locateInText (.named "pkg.Foo") Search.Sample.declared ⟨0, 3⟩ true = some ⟨0, 3⟩ := rfl
  obtain ⟨hsome, -⟩ := located_alike_where_texts_agree hs hab (.named "pkg.Foo") true
  exact ⟨hs, hab, hl, (hsome 0 3).mp hl⟩

end

/-! ## References apart from each other -/

/-- The hints of the visits cover no offset in common; what has no hint is apart from all else. -/
def Visit.Apart (v w : Visit) : Prop :=
  ∀ h h', v.node.hint = .ok h → w.node.hint = .ok h' → ∀ i, h.Covers i → ¬ h'.Covers i

namespace Search
variable {σ : Type} {s : Search} {sink : Sink σ} {state : SearchState σ} {visits : List Visit}
  {v w : Visit} {unit : SourceUnit} {m m' : Mention}

/-- What a visit with a source yields begins at an offset that its hint covers. -/
theorem covers_of_yields (hu : v.element.unit = some unit) (hy : s.yields v = some m) :
    ∃ h, v.node.hint = .ok h ∧ h.Covers m.span.offset := by
  obtain ⟨hrefer, -, -, honly, span, hp, rfl⟩ := (yields_eq_some_iff hu).mp hy
  obtain ⟨w, -, -, ho⟩ := hp.spelled
  have hlen := List.length_pos_iff.mpr ho.nonempty
  have hstop := ho.le_stop
  have hlast : (span.offset : Int) < v.node.recorded.capped.stop + 1 := by omega
  exact ⟨_, (Node.hint_eq_ok_iff hrefer).mpr ⟨honly, rfl⟩, ho.start_le, hlast⟩

theorem spot_ne_of_apart (ha : v.Apart w) (hu : v.element.unit = some unit)
    (hu' : w.element.unit = some unit) (hy : s.yields v = some m) (hy' : s.yields w = some m') :
    m.spot ≠ m'.spot := by
  intro hspot
  obtain ⟨h, hh, hcovers⟩ := covers_of_yields hu hy
  obtain ⟨h', hh', hcovers'⟩ := covers_of_yields hu' hy'
  have hspan : m.span = m'.span := congrArg Prod.snd hspot
  rw [hspan] at hcovers
  exact ha h h' hh hh' _ hcovers hcovers'

theorem accepted_singleton (hs : sink.TakesEvery)
    (hn : ∀ m, s.yields v = some m → m.spot ∉ state.taken) :
    s.accepted sink state [v] = (s.yields v).toList := by
  have hoffered : (s.step sink state v).offered = s.yields v := by
    ext m
    rw [offered_eq_some_iff]
    exact ⟨And.left, fun hy => ⟨hy, hn m hy⟩⟩
  simp only [accepted, offers, offer?, hoffered, List.append_nil]
  cases s.yields v with
  | none => rfl
  | some m => simp [hs state.sink m]

/-- The invariant is that no spot is taken that a later visit resolves to: then nothing is passed
over, and the sink gets all that the visits yield. -/
theorem accepted_eq_filterMap_yields (hs : sink.TakesEvery)
    (hd : visits.Pairwise fun v w => ∀ m m', s.yields v = some m → s.yields w = some m' →
      m.spot ≠ m'.spot)
    (hn : ∀ v ∈ visits, ∀ m, s.yields v = some m → m.spot ∉ state.taken) :
    s.accepted sink state visits = visits.filterMap s.yields := by
  induction visits generalizing state with
  | nil => rfl
  | cons v rest ih =>
    obtain ⟨hv, hrest⟩ := List.pairwise_cons.mp hd
    have hfirst := accepted_singleton hs (hn v List.mem_cons_self)
    have htaken : ∀ w ∈ rest, ∀ m, s.yields w = some m →
        m.spot ∉ (s.step sink state v).next.taken := by
      intro w hw m hm
      rw [taken_step, hfirst, List.mem_append, List.mem_reverse, List.mem_map, not_or]
      refine ⟨fun ⟨m', hm', hspot⟩ => ?_, hn w (List.mem_cons_of_mem _ hw) m hm⟩
      exact hv w hw m' m (Option.mem_toList.mp hm') hm hspot
    rw [accepted_cons, hfirst, ih hrest htaken]
    cases hy : s.yields v with
    | none => rw [List.filterMap_cons_none hy]; rfl
    | some m => rw [List.filterMap_cons_some hy]; rfl

/-- **References apart from each other are all reported.** Let the hints of visits with one source
cover no offset in common. Then a sink that takes every mention gets, in the order of the visits, each
mention that a search of that visit alone would offer: as many as there are such visits. -/
theorem apart_references_all_reported (hs : sink.TakesEvery)
    (hu : ∀ v ∈ visits, v.element.unit = some unit) (hd : visits.Pairwise Visit.Apart) (start : σ) :
    let fresh := (begin start).state
    let alone (v : Visit) := (s.step sink fresh v).offered
    let reported := s.accepted sink fresh visits
    reported = visits.filterMap alone ∧ reported.length = visits.countP (fun v => (alone v).isSome) ∧
      (s.after sink fresh visits).taken.length = reported.length := by
  intro fresh alone reported
  have halone : alone = s.yields := funext fun v => offered_begin s sink start v
  have hspots : visits.Pairwise fun v w => ∀ m m', s.yields v = some m → s.yields w = some m' →
      m.spot ≠ m'.spot := by
    refine hd.imp_of_mem fun hv hw ha m m' hm hm' => ?_
    exact spot_ne_of_apart ha (hu _ hv) (hu _ hw) hm hm'
  have hreported : reported = visits.filterMap alone := by
    rw [halone]
    exact accepted_eq_filterMap_yields hs hspots fun v _ m _ => List.not_mem_nil
  refine ⟨hreported, ?_, ?_⟩
  · rw [hreported, List.length_filterMap_eq_countP]
  · rw [taken_after]
    simp [fresh, begin, reported]

/-- A node that declares the type where the sample imports it, and so has no hint. -/
def Sample.declaration : Visit :=
  Sample.visit (.typeUse (.plain ⟨"pkg.Foo😀", some ⟨7, 23⟩, some 20, true⟩))

theorem sample_apart_all_reported :
    collector.TakesEvery ∧
    (∀ v ∈ [Sample.importVisit, Sample.declaration, Sample.useVisit],
      v.element.unit = some Sample.file) ∧
    [Sample.importVisit, Sample.declaration, Sample.useVisit].Pairwise Visit.Apart ∧
    Sample.search.accepted collector (begin #[]).state
        [Sample.importVisit, Sample.declaration, Sample.useVisit] =
      [Sample.search.mention Sample.importVisit ⟨14, 9⟩, Sample.useMention] := by
  have hs : collector.TakesEvery := fun _ _ => rfl
  have hu : ∀ v ∈ [Sample.importVisit, Sample.declaration, Sample.useVisit],
      v.element.unit = some Sample.file := by
    simp [Sample.importVisit, Sample.declaration, Sample.useVisit, Sample.visit]
  have himport : Sample.importVisit.node.hint = .ok ⟨7, 23⟩ := rfl
  have hdeclaration : Sample.declaration.node.hint = .error .declaration := rfl
  have huse : Sample.useVisit.node.hint = .ok ⟨25, 29⟩ := rfl
  have hd : [Sample.importVisit, Sample.declaration, Sample.useVisit].Pairwise Visit.Apart := by
    refine .cons (fun w hw h h' hh hh' i hi hi' => ?_)
      (.cons (fun w _ h _ hh => ?_) (List.pairwise_singleton _ _))
    · rcases List.mem_pair.mp hw with rfl | rfl
      · rw [hdeclaration] at hh'
        cases hh'
      · obtain rfl := Except.ok.inj (himport.symm.trans hh)
        obtain rfl := Except.ok.inj (huse.symm.trans hh')
        have hlt : i < 24 := hi.2
        have hle : 25 ≤ i := hi'.1
        omega
    · rw [hdeclaration] at hh
      cases hh
  obtain ⟨hreported, -, -⟩ := apart_references_all_reported (s := Sample.search) hs hu hd #[]
  exact ⟨hs, hu, hd, hreported⟩

end Search
end Mentions
