import Mathlib.Data.List.Perm.Basic
import Mentions.Proofs.Search.Offered

/-! # What is reported in the end

The spots that visits resolve to are those of the visits alone. While the sink refuses nothing, a
run takes exactly these spots, each for the first visit that resolves to it; so neither the order of
the visits nor refusals that are made good in a second pass change which spots are reported.
-/

namespace Mentions

/-- The sink refuses no mention, whatever its state. -/
def Sink.TakesEvery {σ : Type} (sink : Sink σ) : Prop :=
  ∀ state m, (sink.offer state m).1 = none

namespace Search
variable {σ τ : Type} {s : Search} {sink : Sink σ} {state : SearchState σ} {v : Visit}
  {visits : List Visit} {m : Mention} {spot : Spot}

/-- The mention that the visit yields by itself lies at the spot. -/
def ResolvesTo (s : Search) (v : Visit) (spot : Spot) : Prop :=
  ∃ m, s.yields v = some m ∧ m.spot = spot

/-- The first of the visits that resolves to the spot. -/
def FirstAt (s : Search) (visits : List Visit) (spot : Spot) (v : Visit) : Prop :=
  ∃ front rest, visits = front ++ v :: rest ∧ s.ResolvesTo v spot ∧
    ∀ u ∈ front, ¬ s.ResolvesTo u spot

/-- Nothing that is offered during the visits is refused. -/
def RefusesNothing (s : Search) (sink : Sink σ) (state : SearchState σ) (visits : List Visit) :
    Prop :=
  ∀ o ∈ s.offers sink state visits, o.answer = none

theorem yields_iff_resolvesTo :
    s.yields v = some m ↔ s.ResolvesTo v m.spot ∧ m = s.mention v m.span := by
  constructor
  · intro hy
    exact ⟨⟨m, hy, rfl⟩, eq_mention_of_yields hy⟩
  · intro ⟨⟨m', hy, hspot⟩, hm⟩
    have hspan : m'.span = m.span := congrArg Prod.snd hspot
    have hm' := eq_mention_of_yields hy
    rw [hspan, ← hm] at hm'
    rwa [hm'] at hy

theorem RefusesNothing.front {front rest : List Visit}
    (h : s.RefusesNothing sink state (front ++ rest)) : s.RefusesNothing sink state front := by
  intro o ho
  refine h o ?_
  rw [offers_append]
  exact List.mem_append_left _ ho

theorem refusesNothing_of_takesEvery (hs : sink.TakesEvery) (s : Search) (state : SearchState σ)
    (visits : List Visit) : s.RefusesNothing sink state visits := by
  intro o ho
  obtain ⟨front, v, rest, -, hv⟩ := mem_offers_iff.mp ho
  obtain ⟨-, -, ha⟩ := offer?_eq_some_iff.mp hv
  rw [ha]
  exact hs _ _

theorem mem_accepted_iff :
    m ∈ s.accepted sink state visits ↔ ⟨m, none⟩ ∈ s.offers sink state visits := by
  constructor
  · intro h
    obtain ⟨⟨m', answer⟩, ho, rfl⟩ := List.mem_map.mp h
    obtain ⟨ho, ha⟩ := List.mem_filter.mp ho
    obtain rfl := Option.isNone_iff_eq_none.mp ha
    exact ho
  · intro h
    exact List.mem_map.mpr ⟨_, List.mem_filter.mpr ⟨h, rfl⟩, rfl⟩

/-- Where nothing is refused, a visit whose spot is not taken yet has its mention accepted. -/
theorem RefusesNothing.accepted_of_yields {front rest : List Visit}
    (hr : s.RefusesNothing sink state (front ++ v :: rest)) (hy : s.yields v = some m)
    (hn : m.spot ∉ (s.after sink state front).taken) :
    m ∈ s.accepted sink state (front ++ v :: rest) := by
  have ho : s.offer? sink (s.after sink state front) v =
      some ⟨m, (sink.offer (s.after sink state front).sink m).1⟩ :=
    offer?_eq_some_iff.mpr ⟨hy, hn, rfl⟩
  have hmem := mem_offers_iff.mpr ⟨front, v, rest, rfl, ho⟩
  have ha : (sink.offer (s.after sink state front).sink m).1 = none := hr _ hmem
  rw [ha] at hmem
  exact mem_accepted_iff.mpr hmem

/-! ## The spots taken -/

theorem mem_taken_after_iff_accepted :
    spot ∈ (s.after sink state visits).taken ↔
      spot ∈ state.taken ∨ ∃ m ∈ s.accepted sink state visits, m.spot = spot := by
  rw [taken_after, List.mem_append, List.mem_reverse, List.mem_map, or_comm]

/-- A run takes no spots but those that its visits resolve to. -/
theorem resolvesTo_of_mem_taken (h : spot ∈ (s.after sink state visits).taken) :
    spot ∈ state.taken ∨ ∃ v ∈ visits, s.ResolvesTo v spot := by
  rcases mem_taken_after_iff_accepted.mp h with h | ⟨m, hm, hspot⟩
  · exact .inl h
  · obtain ⟨front, v, rest, rfl, ho⟩ := mem_offers_iff.mp (mem_accepted_iff.mp hm)
    obtain ⟨hy, -, -⟩ := offer?_eq_some_iff.mp ho
    have hv : v ∈ front ++ v :: rest := List.mem_append_right _ List.mem_cons_self
    exact .inr ⟨v, hv, m, hy, hspot⟩

/-- A run in which nothing is refused takes all spots that its visits resolve to. -/
theorem mem_taken_iff_resolvesTo (hr : s.RefusesNothing sink state visits) :
    spot ∈ (s.after sink state visits).taken ↔
      spot ∈ state.taken ∨ ∃ v ∈ visits, s.ResolvesTo v spot := by
  refine ⟨resolvesTo_of_mem_taken, ?_⟩
  rintro (h | ⟨v, hv, m, hy, rfl⟩)
  · exact mem_taken_after_iff_accepted.mpr (.inl h)
  · obtain ⟨front, rest, rfl⟩ := List.append_of_mem hv
    -- the spot is taken before the visit, or by it
    by_cases hin : m.spot ∈ (s.after sink state front).taken
    · rw [after_append]
      exact mem_taken_after_iff_accepted.mpr (.inl hin)
    · exact mem_taken_after_iff_accepted.mpr (.inr ⟨m, hr.accepted_of_yields hy hin, rfl⟩)

theorem mem_reported_spots_iff (hs : sink.TakesEvery) (start : σ) :
    spot ∈ (s.accepted sink (begin start).state visits).map Mention.spot ↔
      ∃ v ∈ visits, s.ResolvesTo v spot := by
  rw [← mem_taken_after, mem_taken_iff_resolvesTo (refusesNothing_of_takesEvery hs s _ _)]
  simp [begin]

/-! ## The order of visits -/

/-- In a run in which nothing is refused, a mention is accepted exactly when it is that of the first
visit that resolves to its spot. -/
theorem mem_accepted_iff_firstAt {start : σ}
    (hr : s.RefusesNothing sink (begin start).state visits) :
    m ∈ s.accepted sink (begin start).state visits ↔
      ∃ v, s.FirstAt visits m.spot v ∧ m = s.mention v m.span := by
  constructor
  · intro hm
    obtain ⟨front, v, rest, rfl, ho⟩ := mem_offers_iff.mp (mem_accepted_iff.mp hm)
    obtain ⟨hy, hn, -⟩ := offer?_eq_some_iff.mp ho
    obtain ⟨hres, heq⟩ := yields_iff_resolvesTo.mp hy
    refine ⟨v, ⟨front, rest, rfl, hres, fun u hu hures => hn ?_⟩, heq⟩
    exact (mem_taken_iff_resolvesTo hr.front).mpr (.inr ⟨u, hu, hures⟩)
  · rintro ⟨v, ⟨front, rest, rfl, hres, hfirst⟩, heq⟩
    refine hr.accepted_of_yields (yields_iff_resolvesTo.mpr ⟨hres, heq⟩) fun h => ?_
    rcases resolvesTo_of_mem_taken h with h | ⟨u, hu, hures⟩
    · cases h
    · exact hfirst u hu hures

/-- The collector holds the mentions that it accepted, in order. -/
theorem collector_holds_accepted (s : Search) (kept : SearchState (Array Mention))
    (visits : List Visit) :
    (s.after collector kept visits).sink.toList =
      kept.sink.toList ++ s.accepted collector kept visits := by
  induction visits generalizing kept with
  | nil => simp [after, accepted, offers]
  | cons v rest ih =>
    have hstep : (s.step collector kept v).next.sink.toList =
        kept.sink.toList ++ s.accepted collector kept [v] := by
      rw [next_sink]
      cases ho : (s.step collector kept v).offered with
      | none => simp [accepted, offers, offer?, ho]
      | some m =>
        have ha : collector.offer kept.sink m = (none, kept.sink.push m) := rfl
        simp [accepted, offers, offer?, ho, ha]
    rw [after, ih, hstep, List.append_assoc, ← accepted_cons]

/-- **The order of visits does not change what is reported.** To a sink that takes every mention,
visits in either of two orders report the same spots, and as many spots are taken; and in any order
the mention reported at a spot is that of the first visit that resolves to it. -/
theorem reports_same_spots_in_any_order {es es' : List Visit} (h : es.Perm es')
    (hs : sink.TakesEvery) (start : σ) :
    let reported := s.accepted sink (begin start).state
    ((reported es).map Mention.spot).Perm ((reported es').map Mention.spot) ∧
      (s.after sink (begin start).state es).taken.length =
        (s.after sink (begin start).state es').taken.length ∧
      ∀ visits m, m ∈ reported visits ↔ ∃ v, s.FirstAt visits m.spot v ∧
        m = { element := v.element, accuracy := s.accuracy v.inference.confidence, span := m.span,
              insideDocComment := false, participant := s.participant,
              resource := v.element.resource } := by
  intro reported
  have hperm : ((reported es).map Mention.spot).Perm ((reported es').map Mention.spot) := by
    refine (List.perm_ext_iff_of_nodup (accepted_spots_nodup s sink start es)
      (accepted_spots_nodup s sink start es')).mpr fun spot => ?_
    rw [mem_reported_spots_iff hs, mem_reported_spots_iff hs]
    simp only [h.mem_iff]
  refine ⟨hperm, ?_, fun visits m => ?_⟩
  · rw [taken_after, taken_after, List.length_append, List.length_append, List.length_reverse,
      List.length_reverse]
    exact congrArg (· + 0) hperm.length_eq
  · exact mem_accepted_iff_firstAt (refusesNothing_of_takesEvery hs s _ visits)

/-- The use in the sample, reached once more through an initializer and less surely. -/
def Sample.useAgain : Visit :=
  ⟨Sample.useVisit.node, ⟨some (Sample.type none), .inferred⟩,
    ⟨"Bar.groovy/Bar#init", none, some Sample.file⟩⟩

theorem Sample.perm_again : [Sample.importVisit, Sample.useVisit, Sample.useAgain].Perm
    [Sample.useAgain, Sample.importVisit, Sample.useVisit] :=
  show ([Sample.importVisit, Sample.useVisit] ++ [Sample.useAgain]).Perm
    ([Sample.useAgain] ++ [Sample.importVisit, Sample.useVisit]) from List.perm_append_comm

theorem sample_reports_in_two_orders :
    [Sample.importVisit, Sample.useVisit, Sample.useAgain].Perm
      [Sample.useAgain, Sample.importVisit, Sample.useVisit] ∧
    collector.TakesEvery ∧
    [("Bar.groovy", (⟨14, 9⟩ : Span)), ("Bar.groovy", ⟨25, 5⟩)].Perm
      ((Sample.search.after collector (begin #[]).state
        [Sample.useAgain, Sample.importVisit, Sample.useVisit]).sink.toList.map Mention.spot) := by
  have hs : collector.TakesEvery := fun _ _ => rfl
  obtain ⟨hspots, -, -⟩ :=
    reports_same_spots_in_any_order (s := Sample.search) Sample.perm_again hs #[]
  refine ⟨Sample.perm_again, hs, ?_⟩
  rw [collector_holds_accepted]
  exact hspots

/-! ## A second pass -/

/-- **A refusal loses nothing that a second pass can make good.** Whatever the sink refused during
the visits, let the same search go over them again in any order while the sink refuses nothing.
Then the two passes report the spots that a new search of the visits reports to a sink that takes
every mention, and each of them exactly once. -/
theorem second_pass_reports_each_once {es again : List Visit} (hp : again.Perm es) {start : σ}
    (hr : s.RefusesNothing sink (s.after sink (begin start).state es) again)
    {steady : Sink τ} (hs : steady.TakesEvery) (fresh : τ) :
    let first := s.accepted sink (begin start).state es
    let second := s.accepted sink (s.after sink (begin start).state es) again
    let spots := (first ++ second).map Mention.spot
    (∀ spot, spot ∈ spots ↔ spot ∈ (s.accepted steady (begin fresh).state es).map Mention.spot) ∧
      ∀ spot ∈ spots, spots.count spot = 1 := by
  intro first second spots
  have hspots : spots = (s.accepted sink (begin start).state (es ++ again)).map Mention.spot := by
    rw [accepted_append]
  refine ⟨fun spot => ?_, fun spot hspot => ?_⟩
  · rw [hspots, ← mem_taken_after, after_append, mem_taken_iff_resolvesTo hr,
      mem_reported_spots_iff hs]
    simp only [hp.mem_iff]
    constructor
    · rintro (h | h)
      · -- the first pass takes no spots but those of its visits
        exact (resolvesTo_of_mem_taken h).resolve_left List.not_mem_nil
      · exact h
    · exact .inr
  · refine List.count_eq_one_of_mem ?_ hspot
    rw [hspots]
    exact accepted_spots_nodup s sink start (es ++ again)

/-- A sink that is closed for the first two mentions. -/
def Sample.slow : Sink Nat := ⟨"app::Slow", fun n _ => (if n < 2 then some .closed else none, n + 1)⟩

theorem sample_second_pass_reports :
    [Sample.useAgain, Sample.importVisit, Sample.useVisit].Perm
      [Sample.importVisit, Sample.useVisit, Sample.useAgain] ∧
    Sample.search.RefusesNothing Sample.slow
      (Sample.search.after Sample.slow (begin 0).state
        [Sample.importVisit, Sample.useVisit, Sample.useAgain])
      [Sample.useAgain, Sample.importVisit, Sample.useVisit] ∧
    collector.TakesEvery ∧
    ∀ spot, spot ∈ [("Bar.groovy", (⟨25, 5⟩ : Span)), ("Bar.groovy", ⟨14, 9⟩)] ↔
      spot ∈ (Sample.search.accepted collector (begin #[]).state
        [Sample.importVisit, Sample.useVisit, Sample.useAgain]).map Mention.spot := by
  have hr : Sample.search.RefusesNothing Sample.slow
      (Sample.search.after Sample.slow (begin 0).state
        [Sample.importVisit, Sample.useVisit, Sample.useAgain])
      [Sample.useAgain, Sample.importVisit, Sample.useVisit] := by
    intro o ho
    obtain rfl := List.mem_singleton.mp (show o ∈ [⟨Sample.search.mention Sample.importVisit
      ⟨14, 9⟩, none⟩] from ho)
    rfl
  have hs : collector.TakesEvery := fun _ _ => rfl
  have hp := Sample.perm_again.symm
  obtain ⟨hspots, -⟩ := second_pass_reports_each_once hp hr hs #[]
  exact ⟨hp, hr, hs, hspots⟩

end Search
end Mentions
