import Mentions.Proofs.Search.Recorded
import Mentions.Proofs.Text.Arithmetic

/-! # Searching with words

Recorded offsets are words of 32 bits, hints are computed in 64, and units are counted in words of
the machine. Here the steps from a visit to its span are written with an `Arithmetic`. In a text that
recorded offsets can index, every arithmetic that is exact that far gives the span that is computed
with integers. The one sum that words change is the end of a constructor's name: it stays at the
greatest offset, which is past the end of such a text anyway.
-/

namespace Mentions

/-! ## The steps from a visit to its span -/

/-- The hint at the name of a constructor, unless it was made up for a script. -/
def constructorHint (start stop : Int) : Except SkipReason Hint :=
  if start = 0 ∧ stop = 1 then .error .scriptConstructor else .ok ⟨start, stop⟩

/-- The hint of a node; only that of a constructor is computed. -/
def Node.hintWith (a : Arithmetic) : Node → Except SkipReason Hint
  | .constructor _ nameStart nameEnd _ =>
    constructorHint nameStart.toInt (a.saturated (nameEnd.toInt + 1))
  | n => n.hint

/-- Looks for one spelling of a name between two offsets. -/
def findSpellingWith (a : Arithmetic) (spelling : String) (source : SourceText)
    (caseSensitive : Bool) (start stop : Int) : Checked (Option Span) := do
  let needle := Text.units spelling
  let found ← Text.findWith a needle source.units caseSensitive start stop
  return found.map (⟨·.toNat, needle.length⟩)

/-- Looks for one spelling of a name where there is room for it. -/
def findFittingWith (a : Arithmetic) (spelling : String) (source : SourceText)
    (caseSensitive : Bool) (start stop room : Int) : Checked (Option Span) :=
  if a.widened (Text.unitLength spelling) ≤ room then
    findSpellingWith a spelling source caseSensitive start stop
  else .ok none

/-- The span of the type's name near the hint. -/
def locateInTextWith (a : Arithmetic) (type : TypeNode) (source : SourceText) (h : Hint)
    (caseSensitive : Bool) : Checked (Option Span) := do
  let room ← a.wide (h.stop - h.start)
  let stop ← a.wide (h.stop + 1)
  match ← findFittingWith a type.name source caseSensitive h.start stop room with
  | some span => return some span
  | none => findSpellingWith a type.simpleName source caseSensitive h.start stop

/-- The span of the type's own recorded offsets, if they enclose anything. -/
def recordedSpanWith (a : Arithmetic) (type : TypeNode) : Checked (Option Span) :=
  match a.count? type.start, a.count? type.stop with
  | some start, some stop =>
    if stop ≤ start then .ok none
    else do return some ⟨start.toNat, (← a.count (stop - start)).toNat⟩
  | _, _ => .ok none

/-- The offset just after a span. -/
def Span.stopWith (a : Arithmetic) (s : Span) : Checked Int := a.count (s.offset + s.length)

namespace Search

def locateWith (a : Arithmetic) (s : Search) (type : TypeNode) (e : Element) (h : Hint) :
    Checked (Option Span) :=
  match e.unit with
  | some unit => locateInTextWith a type unit.source h s.settings.caseSensitive
  | none => if s.settings.fallbackToOffsets then recordedSpanWith a type else .ok none

/-- The span of the mention that a visit yields. -/
def spanWith (a : Arithmetic) (s : Search) (v : Visit) : Checked (Option Span) :=
  match s.candidate? v with
  | none => .ok none
  | some type =>
    match v.node.hintWith a with
    | .error _ => .ok none
    | .ok h => do return (← s.locateWith a type v.element h).filter (!·.isEmpty)

end Search

/-! ## Offsets and hints -/

theorem holds_toInt (o : Offset) : Word.offset.Holds o.toInt :=
  ⟨o.le_toInt, Int.le_of_lt_add_one o.toInt_lt⟩

theorem holds_startOf (extent : Option Extent) : Word.offset.Holds (startOf extent) := by
  cases extent with
  | none => decide
  | some e => exact holds_toInt e.start

theorem holds_stopOf (extent : Option Extent) : Word.offset.Holds (stopOf extent) := by
  cases extent with
  | none => decide
  | some e => exact holds_toInt e.stop

/-- The hint is between offsets, its end possibly one past them. -/
structure Hint.Within (h : Hint) : Prop where
  start : Word.offset.Holds h.start
  least_le_stop : -2147483648 ≤ h.stop
  stop_le : h.stop ≤ 2147483648

/-- The hints differ in their ends only, and only past all offsets of a text that offsets can
index. -/
structure Hint.AlikeInText (h h' : Hint) : Prop where
  start : h'.start = h.start
  stop : h'.stop = h.stop ∨ (2147483647 ≤ h.stop ∧ 2147483647 ≤ h'.stop)

theorem Hint.AlikeInText.refl (h : Hint) : h.AlikeInText h := ⟨rfl, .inl rfl⟩

theorem Hint.within_of_holds {start stop : Int} (hstart : Word.offset.Holds start)
    (hstop : Word.offset.Holds stop) : (⟨start, stop⟩ : Hint).Within :=
  ⟨hstart, hstop.1, Int.le_trans hstop.2 (by decide)⟩

theorem constructorHint_of_ne {start stop : Int} (h : stop ≠ 1) :
    constructorHint start stop = .ok ⟨start, stop⟩ :=
  if_neg fun hs => h hs.2

theorem eq_of_constructorHint {start stop : Int} {h : Hint}
    (hh : constructorHint start stop = .ok h) : h = ⟨start, stop⟩ := by
  unfold constructorHint at hh
  split at hh
  · cases hh
  · exact (Except.ok.inj hh).symm

theorem Node.hint_constructor (declaring : TypeNode) (nameStart nameEnd : Offset)
    (extent : Option Extent) :
    (Node.constructor declaring nameStart nameEnd extent).hint =
      constructorHint nameStart.toInt (min (nameEnd.toInt + 1) maxOffset) :=
  rfl

theorem Node.within_of_hint {n : Node} {h : Hint} (hh : n.hint = .ok h) : h.Within := by
  cases n with
  | importLine extent | classLiteral _ extent =>
    cases hh
    exact Hint.within_of_holds (holds_startOf extent) (holds_stopOf extent)
  | annotationUse type =>
    cases hh
    exact Hint.within_of_holds (holds_startOf _) (holds_stopOf _)
  | typeUse type =>
    simp only [hint] at hh
    split at hh
    · cases hh
    · split at hh
      · cases hh
      · cases hh
        exact Hint.within_of_holds (holds_startOf _) (holds_stopOf _)
  | constructor declaring nameStart nameEnd extent =>
    have hend := holds_toInt nameEnd
    simp only [Word.Holds, Word.offset] at hend
    obtain rfl := eq_of_constructorHint hh
    refine ⟨holds_toInt nameStart, ?_, ?_⟩ <;> dsimp only [maxOffset] <;> omega
  | other => cases hh

variable {a : Arithmetic}

/-- A node has its hint in any arithmetic, but for an end past all offsets. -/
theorem Node.hintWith_cases (ha : a.Exact) (n : Node) :
    (∃ reason, n.hint = .error reason ∧ n.hintWith a = .error reason) ∨
      ∃ h h', n.hint = .ok h ∧ n.hintWith a = .ok h' ∧ h.AlikeInText h' ∧ h'.Within := by
  have hsame (he : n.hintWith a = n.hint) :
      (∃ reason, n.hint = .error reason ∧ n.hintWith a = .error reason) ∨
        ∃ h h', n.hint = .ok h ∧ n.hintWith a = .ok h' ∧ h.AlikeInText h' ∧ h'.Within := by
    rw [he]
    cases hh : n.hint with
    | error reason => exact .inl ⟨reason, rfl, rfl⟩
    | ok h => exact .inr ⟨h, h, rfl, rfl, .refl h, within_of_hint hh⟩
  cases n with
  | importLine | classLiteral | annotationUse | typeUse | other => exact hsame rfl
  | constructor declaring nameStart nameEnd extent =>
    have hend := holds_toInt nameEnd
    simp only [Word.Holds, Word.offset] at hend
    by_cases hlt : nameEnd.toInt < 2147483647
    · have hsum : a.saturated (nameEnd.toInt + 1) = min (nameEnd.toInt + 1) maxOffset := by
        have hholds : Word.offset.Holds (nameEnd.toInt + 1) := by
          constructor <;> dsimp only [Word.offset] <;> omega
        rw [ha.saturated _ hholds, maxOffset]
        omega
      exact hsame (congrArg (constructorHint nameStart.toInt) hsum)
    · have hmax : nameEnd.toInt + 1 = 2147483648 := by omega
      obtain ⟨hle, hge⟩ := ha.saturated_past
      right
      refine ⟨⟨nameStart.toInt, maxOffset⟩, ⟨nameStart.toInt, a.saturated 2147483648⟩, ?_, ?_,
        ⟨rfl, .inr ⟨Int.le_refl _, hle⟩⟩, ⟨holds_toInt nameStart, by dsimp only; omega, hge⟩⟩
      · rw [hint_constructor, hmax]
        exact constructorHint_of_ne (by decide)
      · rw [hintWith, hmax]
        exact constructorHint_of_ne (by omega)

/-! ## Ends past the end of the text -/

section
variable {name spelling : String} {type : TypeNode} {source : SourceText} {h h' : Hint}
  {caseSensitive : Bool} {span : Span} {i : Nat}

theorem Hint.AlikeInText.symm (hh : h.AlikeInText h') : h'.AlikeInText h :=
  ⟨hh.start.symm, hh.stop.imp Eq.symm And.symm⟩

theorem SpelledAt.of_alikeInText (hl : (source.length : Int) ≤ 2147483647)
    (hh : h.AlikeInText h') (ho : SpelledAt spelling source h caseSensitive i) :
    SpelledAt spelling source h' caseSensitive i := by
  obtain ⟨hn, hs, hi, hle, hr⟩ := ho
  obtain ⟨hstart, hstop⟩ := hh
  simp only [SourceText.length] at hl
  exact ⟨hn, by omega, by omega, by omega, hr⟩

theorem FirstSpelledAt.of_alikeInText (hl : (source.length : Int) ≤ 2147483647)
    (hh : h.AlikeInText h') (first : FirstSpelledAt spelling source h caseSensitive i) :
    FirstSpelledAt spelling source h' caseSensitive i :=
  ⟨first.1.of_alikeInText hl hh, fun j hj ho => first.2 j hj (ho.of_alikeInText hl hh.symm)⟩

/-- Where the ends differ, both hints have room for what stands in the text. -/
theorem Hint.AlikeInText.fits (hl : (source.length : Int) ≤ 2147483647) (hh : h.AlikeInText h')
    (ho : SpelledAt spelling source h caseSensitive i)
    (hfits : (Text.unitLength spelling : Int) ≤ h.stop - h.start) :
    (Text.unitLength spelling : Int) ≤ h'.stop - h'.start := by
  have hi := ho.start_le
  have hle := ho.le_stop
  obtain ⟨hstart, hstop⟩ := hh
  simp only [SourceText.length] at hl
  unfold Text.unitLength at *
  omega

theorem Placed.of_alikeInText (hl : (source.length : Int) ≤ 2147483647) (hh : h.AlikeInText h')
    (hp : Placed name source h caseSensitive span) : Placed name source h' caseSensitive span := by
  cases hp with
  | qualified fits first =>
    exact .qualified (hh.fits hl first.1 fits) (first.of_alikeInText hl hh)
  | simple unqualified first =>
    refine .simple (fun fits j hj => ?_) (first.of_alikeInText hl hh)
    exact unqualified (hh.symm.fits hl hj fits) j (hj.of_alikeInText hl hh.symm)

/-- **Where a hint ends past the end of the text does not matter.** -/
theorem locateInText_of_alikeInText (hl : (source.length : Int) ≤ 2147483647)
    (hh : h.AlikeInText h') :
    locateInText type source h' caseSensitive = locateInText type source h caseSensitive := by
  ext span
  rw [locateInText_eq_some_iff, locateInText_eq_some_iff]
  exact ⟨.of_alikeInText hl hh.symm, .of_alikeInText hl hh⟩

/-! ## Spans -/

theorem findSpellingWith_eq (ha : a.Exact) (hw : h.Within) :
    findSpellingWith a spelling source caseSensitive h.start (h.stop + 1) =
      .ok (findSpelling spelling source h caseSensitive) := by
  have hstart := hw.start.2
  have hstop := hw.stop_le
  simp only [Word.offset] at hstart
  rw [findSpellingWith, findSpelling, Text.findWith_eq ha.countsTo (by omega) (by omega),
    Checked.ok_bind, Option.map_map]
  rfl

theorem findSpelling_eq_none_of_length_lt (hlt : source.length < Text.unitLength spelling) :
    findSpelling spelling source h caseSensitive = none := by
  rw [findSpelling_eq_none_iff]
  intro i ho
  have hread := ho.reads.length_le ho.nonempty
  unfold SourceText.length Text.unitLength at hlt
  omega

theorem findFittingWith_eq (ha : a.Exact) (hl : (source.length : Int) ≤ 2147483647)
    (hw : h.Within) :
    findFittingWith a spelling source caseSensitive h.start (h.stop + 1) (h.stop - h.start) =
      .ok (if (Text.unitLength spelling : Int) ≤ h.stop - h.start then
        findSpelling spelling source h caseSensitive else none) := by
  rw [findFittingWith, findSpellingWith_eq ha hw]
  rcases Nat.lt_or_ge source.length (Text.unitLength spelling) with hlt | hle
  · -- a name longer than the text is found nowhere, whatever its length is widened to
    rw [findSpelling_eq_none_of_length_lt hlt, ite_self, ite_self]
  · have hholds : Word.wide.Holds (Text.unitLength spelling) := by
      constructor <;> dsimp only [Word.wide] <;> omega
    rw [ha.widened _ hholds]
    split <;> rfl

/-- **Locating with words gives the span that is computed with integers, and never fails.** -/
theorem locateInTextWith_eq (ha : a.Exact) (hl : (source.length : Int) ≤ 2147483647)
    (hw : h.Within) :
    locateInTextWith a type source h caseSensitive =
      .ok (locateInText type source h caseSensitive) := by
  obtain ⟨hstart, hstart'⟩ := hw.start
  have hstop := hw.least_le_stop
  have hstop' := hw.stop_le
  simp only [Word.offset] at hstart hstart'
  have hwide (x : Int) (hx : -4294967296 ≤ x) (hx' : x ≤ 4294967296) : a.wide x = .ok x := by
    refine ha.wide x ⟨?_, ?_⟩ <;> dsimp only [Word.wide] <;> omega
  rw [locateInTextWith, hwide _ (by omega) (by omega), Checked.ok_bind,
    hwide _ (by omega) (by omega), Checked.ok_bind, findFittingWith_eq ha hl hw, Checked.ok_bind,
    findSpellingWith_eq ha hw, locateInText]
  cases (if (Text.unitLength type.name : Int) ≤ h.stop - h.start then
    findSpelling type.name source h caseSensitive else none) with
  | none => rw [Option.orElse_eq_orElse, Option.orElse_eq_or, Option.none_or]
  | some span => rfl

theorem recordedSpanWith_eq (ha : a.Exact) (type : TypeNode) :
    recordedSpanWith a type = .ok (recordedSpan type) := by
  have hstart := (holds_startOf type.label.extent).2
  have hstop := (holds_stopOf type.label.extent).2
  change type.start ≤ 2147483647 at hstart
  change type.stop ≤ 2147483647 at hstop
  have hcount (x : Int) (h0 : 0 ≤ x) (h : x ≤ 2147483647) :
      (Word.count 4294967295).Holds x := ⟨h0, Int.le_trans h (by decide)⟩
  unfold recordedSpanWith recordedSpan
  rcases Int.lt_or_le type.start 0 with hs | hs
  · rw [ha.count?_neg _ hs, if_neg (by omega)]
  rcases Int.lt_or_le type.stop 0 with ht | ht
  · rw [ha.count?_neg _ ht, if_neg (by omega)]
    cases a.count? type.start <;> rfl
  rw [ha.count? _ (hcount _ hs hstart), ha.count? _ (hcount _ ht hstop)]
  dsimp only
  split
  · rw [if_neg (by omega)]
  · rw [ha.count _ (hcount _ (by omega) (by omega)), if_pos (by omega), Checked.ok_bind]
    rfl

end

/-! ## Visits -/

namespace Search
variable {s : Search} {v : Visit} {m : Mention}

/-- No step from a visit to its span fails, and the span is that of the mention it yields. -/
theorem spanWith_eq (ha : a.Exact)
    (hu : ∀ unit, v.element.unit = some unit → (unit.source.length : Int) ≤ 2147483647) :
    s.spanWith a v = .ok ((s.yields v).map (·.span)) := by
  unfold spanWith yields resolve
  cases s.candidate? v with
  | none => rfl
  | some type =>
    rcases v.node.hintWith_cases ha with ⟨reason, hh, hh'⟩ | ⟨h, h', hh, hh', halike, hw⟩
    · rw [hh, hh']
      rfl
    · have hlocate : s.locateWith a type v.element h' = .ok (s.locate type v.element h).1 := by
        unfold locateWith locate
        cases he : v.element.unit with
        | some unit =>
          have hl := hu unit he
          dsimp only
          rw [locateInTextWith_eq ha hl hw, locateInText_of_alikeInText hl halike]
        | none =>
          dsimp only
          rw [recordedSpanWith_eq ha]
          split <;> rfl
      rw [hh, hh']
      dsimp only
      rw [hlocate, Checked.ok_bind, Option.map_map]
      exact congrArg Except.ok Option.map_id'.symm

/-- What a visit yields ends at an offset. -/
theorem stop_le_of_yields
    (hu : ∀ unit, v.element.unit = some unit → (unit.source.length : Int) ≤ 2147483647)
    (hy : s.yields v = some m) : (m.span.stop : Int) ≤ 2147483647 := by
  cases he : v.element.unit with
  | some unit =>
    obtain ⟨-, -, -, -, span, hp, rfl⟩ := (yields_eq_some_iff he).mp hy
    obtain ⟨w, -, hlength, ho⟩ := hp.spelled
    have hstop : (span.offset + (Text.units w).length : Int) ≤ unit.source.length :=
      Int.le_trans ho.le_stop (Int.min_le_right ..)
    have hl := hu unit he
    simp only [mention, Span.stop, hlength, Text.unitLength]
    omega
  | none =>
    obtain ⟨-, -, -, -, t, span, -, -, hencloses, rfl⟩ := (yields_eq_some_iff_recorded he).mp hy
    have hstop := (holds_stopOf t.innermost.label.extent).2
    exact hencloses.stop ▸ hstop

theorem capped_alikeInText (h : Hint) : h.capped.AlikeInText h where
  start := rfl
  stop := by
    unfold Hint.capped Node.maxOffset
    dsimp only
    omega

/-- **Words compute what integers do.** Let the source of a visit, if it has one, be a text that
offsets can index, and let counts be words of 32 bits at least. Then every step from the visit to its
span succeeds, no result overflows, every slice lies in the text and no pieces of no units are asked
for; and whether words fail or wrap, or there are integers without bounds in their place, the span is
that of the mention that the visit yields. Its end is computed without overflow too. In particular the
end of a constructor's name, which stays at the greatest offset, does not change what is located. -/
theorem words_compute_spans {greatest : Int} (hg : 4294967295 ≤ greatest)
    (hu : ∀ unit, v.element.unit = some unit → (unit.source.length : Int) ≤ Node.maxOffset) :
    (∀ a ∈ [Arithmetic.checked greatest, .wrapping greatest, .unbounded],
      s.spanWith a v = .ok ((s.yields v).map (·.span)) ∧
      ∀ {σ : Type} (sink : Sink σ) (state : SearchState σ) {m : Mention},
        (s.step sink state v).offered = some m →
          m.span.stopWith a = .ok (m.span.offset + m.span.length)) ∧
    ∀ unit, v.element.unit = some unit → ∀ (type : TypeNode) (caseSensitive : Bool),
      locateInText type unit.source v.node.recorded.capped caseSensitive =
        locateInText type unit.source v.node.recorded caseSensitive := by
  have hexact : ∀ a ∈ [Arithmetic.checked greatest, .wrapping greatest, .unbounded], a.Exact := by
    simp only [List.forall_mem_cons]
    exact ⟨Arithmetic.exact_checked hg, Arithmetic.exact_wrapping hg, Arithmetic.exact_unbounded,
      fun _ h => absurd h List.not_mem_nil⟩
  refine ⟨fun a ha => ⟨spanWith_eq (hexact a ha) hu, fun sink state m hm => ?_⟩,
    fun unit he type caseSensitive => ?_⟩
  · have hstop := stop_le_of_yields hu (offered_eq_some_iff.mp hm).1
    unfold Span.stop at hstop
    refine (hexact a ha).count _ ⟨?_, ?_⟩ <;> dsimp only [Word.count] <;> omega
  · exact (locateInText_of_alikeInText (hu unit he) (capped_alikeInText _)).symm

/-- A constructor whose name is recorded to end at the greatest offset. -/
def Sample.endlessConstructor : Visit :=
  ⟨.constructor (.plain ⟨"pkg.Foo", none, none, false⟩) 12 2147483647 (some ⟨12, 25⟩), .untyped,
    ⟨"Foo.groovy/Foo#Foo(int)", none, some Sample.classFile⟩⟩

theorem sample_endless_constructor_located :
    (4294967295 : Int) ≤ 18446744073709551615 ∧
    (∀ unit, Sample.endlessConstructor.element.unit = some unit →
      (unit.source.length : Int) ≤ Node.maxOffset) ∧
    Sample.constructorSearch.spanWith (.checked 18446744073709551615) Sample.endlessConstructor =
      .ok (some ⟨12, 3⟩) ∧
    Sample.constructorSearch.spanWith .unbounded Sample.endlessConstructor =
      .ok (some ⟨12, 3⟩) := by
  have hg : (4294967295 : Int) ≤ 18446744073709551615 := by decide
  have hu : ∀ unit, Sample.endlessConstructor.element.unit = some unit →
      (unit.source.length : Int) ≤ Node.maxOffset := by
    intro unit he
    obtain rfl : Sample.classFile = unit := Option.some.inj he
    decide
  have hspan : (Sample.constructorSearch.yields Sample.endlessConstructor).map (·.span) =
      some ⟨12, 3⟩ := rfl
  obtain ⟨hall, -⟩ := words_compute_spans (s := Sample.constructorSearch) hg hu
  exact ⟨hg, hu, hspan ▸ (hall _ (by simp)).1, hspan ▸ (hall _ (by simp)).1⟩

end Search

end Mentions
