import Mathlib.Data.List.Forall2
import Mathlib.Data.List.Nodup
import Mentions.Search

/-! # Runs of a search

A visit yields a mention by itself, whatever was visited before; a step offers that mention unless
its spot is taken. `Stepped` says all that a step can do, and every law of runs is derived from it:
the spots taken are exactly those of the mentions the sink accepted, so each is accepted once, and
a refused mention leaves no trace.
-/

namespace Mentions

/-- A mention that was offered to a sink, and how the sink answered. -/
structure Offer where
  mention : Mention
  answer : Option Refusal

namespace Search
variable {σ : Type}

/-- The mention that a visit yields by itself. -/
def yields (s : Search) (v : Visit) : Option Mention := (s.resolve v).1

/-- What a step can do: it passes over a visit that yields nothing new, or it offers the mention
that the visit yields, which the sink takes or refuses. -/
inductive Stepped (s : Search) (sink : Sink σ) (state : SearchState σ) (v : Visit) :
    SearchStep σ → Prop
  | passed (h : ∀ m, s.yields v = some m → m.spot ∈ state.taken) :
      Stepped s sink state v ⟨none, (s.resolve v).2, state⟩
  | taken {m : Mention} {after : σ} (hy : s.yields v = some m) (hn : m.spot ∉ state.taken)
      (ha : sink.offer state.sink m = (none, after)) :
      Stepped s sink state v
        ⟨some m, (s.resolve v).2 ++ [.taken v.node.kindName s.target m.span],
          ⟨m.spot :: state.taken, after⟩⟩
  | refused {m : Mention} {refusal : Refusal} {after : σ} (hy : s.yields v = some m)
      (hn : m.spot ∉ state.taken) (ha : sink.offer state.sink m = (some refusal, after)) :
      Stepped s sink state v
        ⟨some m, (s.resolve v).2 ++ [.refused v.element.handle refusal], ⟨state.taken, after⟩⟩

theorem step_spec (s : Search) (sink : Sink σ) (state : SearchState σ) (v : Visit) :
    Stepped s sink state v (s.step sink state v) := by
  unfold step
  split
  · rename_i notices hr
    have hs : Stepped s sink state v ⟨none, (s.resolve v).2, state⟩ :=
      .passed fun m hm => by rw [yields, hr] at hm; cases hm
    rwa [hr] at hs
  · rename_i m notices hr
    have hy : s.yields v = some m := by rw [yields, hr]
    split
    · rename_i hin
      have hs : Stepped s sink state v ⟨none, (s.resolve v).2, state⟩ :=
        .passed fun m' hm => by rw [hy] at hm; cases hm; exact hin
      rwa [hr] at hs
    · rename_i hn
      split
      · rename_i after ha
        have hs := Stepped.taken hy hn ha
        rwa [hr] at hs
      · rename_i refusal after ha
        have hs := Stepped.refused hy hn ha
        rwa [hr] at hs

/-- A step offers what the visit yields, unless its spot is taken. -/
theorem offered_eq_some_iff {s : Search} {sink : Sink σ} {state : SearchState σ} {v : Visit}
    {m : Mention} :
    (s.step sink state v).offered = some m ↔ s.yields v = some m ∧ m.spot ∉ state.taken := by
  have hs := s.step_spec sink state v
  generalize s.step sink state v = done at hs ⊢
  cases hs with
  | passed h => exact ⟨nofun, fun ⟨hy, hn⟩ => absurd (h m hy) hn⟩
  | taken hy hn _ | refused hy hn _ =>
    refine ⟨fun h => ?_, fun h => ?_⟩
    · cases h; exact ⟨hy, hn⟩
    · exact hy.symm.trans h.1

theorem offered_begin (s : Search) (sink : Sink σ) (start : σ) (v : Visit) :
    (s.step sink (begin start).state v).offered = s.yields v := by
  ext m
  simp [offered_eq_some_iff, begin]

/-- What a visit yields is a mention of its own element, at some span. -/
theorem eq_mention_of_yields {s : Search} {v : Visit} {m : Mention} (hy : s.yields v = some m) :
    m = s.mention v m.span := by
  unfold yields resolve at hy
  split at hy
  · cases hy
  · split at hy
    · cases hy
    · obtain ⟨span, -, rfl⟩ := Option.map_eq_some_iff.mp hy
      rfl

theorem element_of_yields {s : Search} {v : Visit} {m : Mention} (hy : s.yields v = some m) :
    m.element = v.element :=
  congrArg Mention.element (eq_mention_of_yields hy)

/-- The sink is asked once for an offered mention, and not at all where none is offered. -/
theorem next_sink (s : Search) (sink : Sink σ) (state : SearchState σ) (v : Visit) :
    (s.step sink state v).next.sink =
      match (s.step sink state v).offered with
      | none => state.sink
      | some m => (sink.offer state.sink m).2 := by
  have hs := s.step_spec sink state v
  generalize s.step sink state v = done at hs ⊢
  cases hs with
  | passed => rfl
  | taken _ _ ha | refused _ _ ha => simp [ha]

/-! ## Runs -/

/-- The state of a search after visits. -/
def after (s : Search) (sink : Sink σ) : SearchState σ → List Visit → SearchState σ
  | state, [] => state
  | state, v :: rest => s.after sink (s.step sink state v).next rest

/-- The offer that a step makes, with the answer. -/
def offer? (s : Search) (sink : Sink σ) (state : SearchState σ) (v : Visit) : Option Offer :=
  (s.step sink state v).offered.map fun m => ⟨m, (sink.offer state.sink m).1⟩

/-- The offers made during visits, in order. -/
def offers (s : Search) (sink : Sink σ) : SearchState σ → List Visit → List Offer
  | _, [] => []
  | state, v :: rest =>
    (s.offer? sink state v).toList ++ s.offers sink (s.step sink state v).next rest

def steps (s : Search) (sink : Sink σ) : SearchState σ → List Visit → List (SearchStep σ)
  | _, [] => []
  | state, v :: rest =>
    let done := s.step sink state v
    done :: s.steps sink done.next rest

/-- The mentions that the sink accepted during visits, in order. -/
def accepted (s : Search) (sink : Sink σ) (state : SearchState σ) (visits : List Visit) :
    List Mention :=
  ((s.offers sink state visits).filter (·.answer.isNone)).map (·.mention)

theorem offer?_eq_some_iff {s : Search} {sink : Sink σ} {state : SearchState σ} {v : Visit}
    {o : Offer} :
    s.offer? sink state v = some o ↔ s.yields v = some o.mention ∧
      o.mention.spot ∉ state.taken ∧ o.answer = (sink.offer state.sink o.mention).1 := by
  obtain ⟨m, answer⟩ := o
  simp only [offer?, Option.map_eq_some_iff, offered_eq_some_iff, Offer.mk.injEq]
  constructor
  · intro ⟨m', ⟨hy, hn⟩, hm, ha⟩
    subst hm
    exact ⟨hy, hn, ha.symm⟩
  · intro ⟨hy, hn, ha⟩
    exact ⟨m, ⟨hy, hn⟩, rfl, ha.symm⟩

/-- A replay gives every visit to the search, and leaves it in the state after them. -/
theorem replay_visitor (s : Search) (sink : Sink σ) (p : Progress σ) (visits : List Visit) :
    (replay (s.visitor sink) p visits).1 = visits.length ∧
      (replay (s.visitor sink) p visits).2.state = s.after sink p.state visits := by
  induction visits generalizing p with
  | nil => exact ⟨rfl, rfl⟩
  | cons v rest ih =>
    obtain ⟨hcount, hstate⟩ :=
      ih ⟨(s.step sink p.state v).next, p.log ++ (s.step sink p.state v).notices⟩
    exact ⟨congrArg (· + 1) hcount, hstate⟩

/-- Visits that bring about the same step in every state bring about the same run. -/
theorem run_congr {s : Search} {sink : Sink σ} {es es' : List Visit}
    (h : List.Forall₂ (fun v v' => ∀ state, s.step sink state v = s.step sink state v') es es')
    (p : Progress σ) :
    s.steps sink p.state es = s.steps sink p.state es' ∧
      replay (s.visitor sink) p es = replay (s.visitor sink) p es' := by
  induction h generalizing p with
  | nil => exact ⟨rfl, rfl⟩
  | @cons v v' rest rest' hv _ ih =>
    obtain ⟨hsteps, hreplay⟩ :=
      ih ⟨(s.step sink p.state v).next, p.log ++ (s.step sink p.state v).notices⟩
    constructor
    · simp only [steps]
      rw [← hv]
      exact congrArg _ hsteps
    · simp only [replay, visitor]
      rw [← hv]
      exact congrArg (fun r => (r.1 + 1, r.2)) hreplay

theorem accepted_cons (s : Search) (sink : Sink σ) (state : SearchState σ) (v : Visit)
    (rest : List Visit) :
    s.accepted sink state (v :: rest) =
      s.accepted sink state [v] ++ s.accepted sink (s.step sink state v).next rest := by
  simp [accepted, offers]

theorem after_append (s : Search) (sink : Sink σ) (state : SearchState σ)
    (front rest : List Visit) :
    s.after sink state (front ++ rest) = s.after sink (s.after sink state front) rest := by
  induction front generalizing state with
  | nil => rfl
  | cons v front ih => exact ih _

theorem offers_append (s : Search) (sink : Sink σ) (state : SearchState σ)
    (front rest : List Visit) :
    s.offers sink state (front ++ rest) =
      s.offers sink state front ++ s.offers sink (s.after sink state front) rest := by
  induction front generalizing state with
  | nil => rfl
  | cons v front ih => simp [offers, after, ih]

theorem accepted_append (s : Search) (sink : Sink σ) (state : SearchState σ)
    (front rest : List Visit) :
    s.accepted sink state (front ++ rest) =
      s.accepted sink state front ++ s.accepted sink (s.after sink state front) rest := by
  simp [accepted, offers_append]

/-- Every offer of a run is that of one visit, made in the state that the visits before it leave. -/
theorem mem_offers_iff {s : Search} {sink : Sink σ} {state : SearchState σ} {visits : List Visit}
    {o : Offer} :
    o ∈ s.offers sink state visits ↔ ∃ front v rest, visits = front ++ v :: rest ∧
      s.offer? sink (s.after sink state front) v = some o := by
  constructor
  · intro h
    induction visits generalizing state with
    | nil => simp [offers] at h
    | cons v rest ih =>
      rcases List.mem_append.mp h with hv | hrest
      · exact ⟨[], v, rest, rfl, Option.mem_toList.mp hv⟩
      · obtain ⟨front, u, rest', rfl, ho⟩ := ih hrest
        exact ⟨v :: front, u, rest', rfl, ho⟩
  · rintro ⟨front, v, rest, rfl, ho⟩
    simp [offers_append, offers, ho]

/-- One step takes the spot of the mention that the sink accepts, and no other. -/
theorem taken_step (s : Search) (sink : Sink σ) (state : SearchState σ) (v : Visit) :
    (s.step sink state v).next.taken =
      ((s.accepted sink state [v]).map Mention.spot).reverse ++ state.taken := by
  have hs := s.step_spec sink state v
  simp only [accepted, offers, offer?, List.append_nil]
  generalize s.step sink state v = done at hs ⊢
  cases hs with
  | passed => rfl
  | taken _ _ ha | refused _ _ ha => simp [ha]

/-- The spots taken after a run are those of the accepted mentions, latest first. -/
theorem taken_after (s : Search) (sink : Sink σ) (state : SearchState σ) (visits : List Visit) :
    (s.after sink state visits).taken =
      ((s.accepted sink state visits).map Mention.spot).reverse ++ state.taken := by
  induction visits generalizing state with
  | nil => rfl
  | cons v rest ih =>
    rw [after, ih, taken_step, accepted_cons s sink state v rest, List.map_append,
      List.reverse_append, List.append_assoc]

theorem mem_taken_after {s : Search} {sink : Sink σ} {start : σ} {visits : List Visit}
    {spot : Spot} :
    spot ∈ (s.after sink (begin start).state visits).taken ↔
      spot ∈ (s.accepted sink (begin start).state visits).map Mention.spot := by
  rw [taken_after]
  simp [begin]

theorem nodup_step {s : Search} {sink : Sink σ} {state : SearchState σ} {v : Visit}
    (h : state.taken.Nodup) : (s.step sink state v).next.taken.Nodup := by
  have hs := s.step_spec sink state v
  generalize s.step sink state v = done at hs ⊢
  cases hs with
  | passed | refused => exact h
  | taken _ hn _ => exact List.nodup_cons.mpr ⟨hn, h⟩

theorem nodup_after {s : Search} {sink : Sink σ} {state : SearchState σ} {visits : List Visit}
    (h : state.taken.Nodup) : (s.after sink state visits).taken.Nodup := by
  induction visits generalizing state with
  | nil => exact h
  | cons v rest ih => exact ih (nodup_step h)

theorem accepted_spots_nodup (s : Search) (sink : Sink σ) (start : σ) (visits : List Visit) :
    ((s.accepted sink (begin start).state visits).map Mention.spot).Nodup := by
  have h : (s.after sink (begin start).state visits).taken.Nodup := nodup_after List.nodup_nil
  rw [taken_after] at h
  exact List.nodup_reverse.mp (List.Nodup.of_append_left h)

/-- **A search takes each spot once.** After any visits, against a sink that may answer each offer
as it likes: the spots taken are as many as the mentions accepted; the accepted mentions lie at
different spots; and the next step offers, in one question to the sink, exactly what a search that
has taken nothing would offer, unless a mention was accepted at that spot before. -/
theorem takes_each_spot_once (s : Search) (sink : Sink σ) (start : σ) (visits : List Visit) :
    let fresh := (begin start).state
    let state := s.after sink fresh visits
    let spots := (s.accepted sink fresh visits).map Mention.spot
    state.taken.length = (s.accepted sink fresh visits).length ∧ spots.Nodup ∧
      ∀ v : Visit,
        (∀ m, (s.step sink state v).offered = some m ↔
          (s.step sink fresh v).offered = some m ∧ m.spot ∉ spots) ∧
        (s.step sink state v).next.sink =
          match (s.step sink state v).offered with
          | none => state.sink
          | some m => (sink.offer state.sink m).2 := by
  intro fresh state spots
  refine ⟨?_, accepted_spots_nodup s sink start visits, fun v => ⟨fun m => ?_, next_sink ..⟩⟩
  · rw [taken_after]
    simp [fresh, begin]
  · rw [offered_begin, offered_eq_some_iff, mem_taken_after]

end Search
end Mentions
