import Mentions.Proofs.Search.Run

/-! # Replays

A replay gives a consumer the visits up to the first at which it answers that it stops, that one
included, and all of them if it never does. What a consumer is given shows in any record that it
keeps in its state; `recording` is the consumer that keeps all of it.
-/

namespace Mentions

namespace Visitor
variable {σ : Type}

/-- The state of a consumer that was given all of the visits, whatever it answered. -/
def after (visitor : Visitor σ) : σ → List Visit → σ
  | s, [] => s
  | s, v :: rest => visitor.after (visitor s v).2 rest

/-- Given the visits in order, the consumer answers the one at `i` with a stop. -/
def StopsAt (visitor : Visitor σ) (s : σ) (visits : List Visit) (i : Nat) : Prop :=
  ∃ v, visits[i]? = some v ∧ (visitor (visitor.after s (visits.take i)) v).1 = .stop

/-- The same consumer, which also keeps every visit that it is given, in order. -/
def recording (visitor : Visitor σ) : Visitor (σ × List Visit) := fun (s, given) v =>
  let (status, next) := visitor s v
  (status, (next, given ++ [v]))

variable {visitor : Visitor σ} {s : σ} {visits rest : List Visit} {v : Visit} {i : Nat}

theorem fst_recording (given : List Visit) :
    (visitor.recording (s, given) v).1 = (visitor s v).1 :=
  rfl

theorem snd_recording (given : List Visit) :
    (visitor.recording (s, given) v).2 = ((visitor s v).2, given ++ [v]) :=
  rfl

theorem stopsAt_zero_iff : visitor.StopsAt s (v :: rest) 0 ↔ (visitor s v).1 = .stop := by
  simp [StopsAt, after]

theorem stopsAt_succ_iff :
    visitor.StopsAt s (v :: rest) (i + 1) ↔ visitor.StopsAt (visitor s v).2 rest i := by
  simp [StopsAt, after]

end Visitor

section
variable {σ : Type} {visitor : Visitor σ} {s : σ} {visits rest : List Visit} {v : Visit} {i : Nat}

theorem replay_of_stop (h : (visitor s v).1 = .stop) :
    replay visitor s (v :: rest) = (1, (visitor s v).2) := by
  cases hv : visitor s v with
  | mk status next =>
    obtain rfl : status = .stop := by rwa [hv] at h
    simp [replay, hv]

theorem replay_of_continue (h : (visitor s v).1 ≠ .stop) :
    replay visitor s (v :: rest) =
      ((replay visitor (visitor s v).2 rest).1 + 1, (replay visitor (visitor s v).2 rest).2) := by
  cases hv : visitor s v with
  | mk status next =>
    cases status with
    | stop => exact absurd (by rw [hv]) h
    | «continue» => simp [replay, hv]

/-- A replay gives the consumer as many visits as it counts, from the first on. -/
theorem replay_recording (given : List Visit) :
    let delivered := (replay visitor s visits).1
    replay visitor.recording (s, given) visits =
      (delivered, (visitor.after s (visits.take delivered), given ++ visits.take delivered)) := by
  induction visits generalizing s given with
  | nil => simp [replay, Visitor.after]
  | cons v rest ih =>
    by_cases h : (visitor s v).1 = .stop
    · rw [replay_of_stop h, replay_of_stop (by rwa [Visitor.fst_recording]), Visitor.snd_recording]
      simp [Visitor.after]
    · rw [replay_of_continue h, replay_of_continue (by rwa [Visitor.fst_recording]),
        Visitor.snd_recording, ih]
      simp [Visitor.after]

theorem snd_replay :
    (replay visitor s visits).2 = visitor.after s (visits.take (replay visitor s visits).1) := by
  induction visits generalizing s with
  | nil => simp [replay, Visitor.after]
  | cons v rest ih =>
    by_cases h : (visitor s v).1 = .stop
    · rw [replay_of_stop h]
      simp [Visitor.after]
    · rw [replay_of_continue h, ih]
      simp [Visitor.after]

theorem delivered_of_first_stop (hi : visitor.StopsAt s visits i)
    (hfirst : ∀ j < i, ¬ visitor.StopsAt s visits j) : (replay visitor s visits).1 = i + 1 := by
  induction visits generalizing s i with
  | nil =>
    obtain ⟨v, hv, -⟩ := hi
    cases hv
  | cons v rest ih =>
    cases i with
    | zero => rw [replay_of_stop (Visitor.stopsAt_zero_iff.mp hi)]
    | succ i =>
      have h : (visitor s v).1 ≠ .stop := fun h =>
        hfirst 0 (Nat.succ_pos i) (Visitor.stopsAt_zero_iff.mpr h)
      have hrest := ih (Visitor.stopsAt_succ_iff.mp hi) fun j hj hs =>
        hfirst (j + 1) (Nat.succ_lt_succ hj) (Visitor.stopsAt_succ_iff.mpr hs)
      rw [replay_of_continue h, hrest]

theorem delivered_of_no_stop (hn : ∀ i, ¬ visitor.StopsAt s visits i) :
    (replay visitor s visits).1 = visits.length := by
  induction visits generalizing s with
  | nil => rfl
  | cons v rest ih =>
    have h : (visitor s v).1 ≠ .stop := fun h => hn 0 (Visitor.stopsAt_zero_iff.mpr h)
    have hrest := ih fun i hi => hn (i + 1) (Visitor.stopsAt_succ_iff.mpr hi)
    rw [replay_of_continue h, hrest, List.length_cons]

end

/-- **A replay goes on to the first stop.** It gives the consumer the first visits, as many as it
counts, each once and in order, and leaves it in the state after these. They are one more than there
are before the first visit that is answered with a stop, and all visits if none is. A search is never
the one to stop: whatever it looks for and whatever its sink answers, it is given every visit. -/
theorem replay_to_first_stop {σ : Type} (visitor : Visitor σ) (s : σ) (visits : List Visit) :
    let delivered := (replay visitor s visits).1
    replay visitor.recording (s, []) visits =
        (delivered, (visitor.after s (visits.take delivered), visits.take delivered)) ∧
      (replay visitor s visits).2 = visitor.after s (visits.take delivered) ∧
      (∀ i, visitor.StopsAt s visits i → (∀ j < i, ¬ visitor.StopsAt s visits j) →
        delivered = i + 1) ∧
      ((∀ i, ¬ visitor.StopsAt s visits i) → delivered = visits.length) ∧
      ∀ {τ : Type} (search : Search) (sink : Sink τ) (p : Search.Progress τ),
        (replay (search.visitor sink) p visits).1 = visits.length ∧
          (replay (search.visitor sink).recording (p, []) visits).2.2 = visits := by
  intro delivered
  refine ⟨replay_recording [], snd_replay, fun i => delivered_of_first_stop, delivered_of_no_stop,
    fun search sink p => ?_⟩
  have hall : (replay (search.visitor sink) p visits).1 = visits.length := by
    refine delivered_of_no_stop fun i ⟨v, _, hstop⟩ => ?_
    -- a search answers every visit alike
    exact absurd (show VisitStatus.continue = .stop from hstop) nofun
  refine ⟨hall, ?_⟩
  rw [replay_recording, hall, List.take_length]
  rfl

end Mentions
