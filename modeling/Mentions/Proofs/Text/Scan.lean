import Mathlib.Data.List.Forall2
import Mentions.Text.Scan

/-! # What the scan of a window finds

`Occurs` describes an occurrence of a name in a window of a text, unit by unit and without
reference to the scan. The scan returns the least occurrence, and nothing exactly when there is
none: the two equivalences at the end are all that later proofs use of it.
-/

namespace Mentions.Text

/-- Units agree when they are equal or, where case is ignored, when their lowercases are. -/
def UnitsAgree (caseSensitive : Bool) (a b : UInt16) : Prop :=
  if caseSensitive then a = b else lower a = lower b

/-- From offset `i` on, `hay` reads `needle`, unit by unit. -/
def ReadsAt (caseSensitive : Bool) (needle hay : List UInt16) (i : Nat) : Prop :=
  List.Forall₂ (UnitsAgree caseSensitive) ((hay.drop i).take needle.length) needle

/-- An occurrence of `needle` at offset `i` of `hay`, wholly between `start` and `stop`. An empty
needle does not occur, and nothing occurs in a window that begins before the text. -/
structure Occurs (caseSensitive : Bool) (needle hay : List UInt16) (start stop : Int) (i : Nat) :
    Prop where
  nonempty : needle ≠ []
  start_nonneg : 0 ≤ start
  start_le : start ≤ i
  le_stop : (i + needle.length : Int) ≤ min stop hay.length
  reads : ReadsAt caseSensitive needle hay i

theorem sameUnit_iff {caseSensitive : Bool} {a b : UInt16} :
    sameUnit caseSensitive a b = true ↔ UnitsAgree caseSensitive a b := by
  cases caseSensitive with
  | true => simp [sameUnit, UnitsAgree]
  | false =>
    simp only [sameUnit, UnitsAgree, Bool.or_eq_true, beq_iff_eq, Bool.not_false, Bool.true_and,
      Bool.false_eq_true, if_false]
    exact ⟨fun h => h.elim (congrArg lower) id, Or.inr⟩

theorem ReadsAt.length_le {caseSensitive : Bool} {needle hay : List UInt16} {i : Nat}
    (h : ReadsAt caseSensitive needle hay i) (hn : needle ≠ []) :
    i + needle.length ≤ hay.length := by
  have hl := List.Forall₂.length_eq h
  have hp := List.length_pos_iff.mpr hn
  simp only [List.length_take, List.length_drop] at hl
  omega

/-- A text reads a name only where it has room for it, so an occurrence need not ask for that. -/
theorem occurs_iff_readsAt {caseSensitive : Bool} {needle hay : List UInt16} {start stop : Int}
    {i : Nat} :
    Occurs caseSensitive needle hay start stop i ↔ needle ≠ [] ∧ 0 ≤ start ∧ start ≤ i ∧
      (i + needle.length : Int) ≤ stop ∧ ReadsAt caseSensitive needle hay i := by
  constructor
  · intro ho
    have hstop := ho.le_stop
    exact ⟨ho.nonempty, ho.start_nonneg, ho.start_le, by omega, ho.reads⟩
  · intro ⟨hn, hs, hstart, hstop, hr⟩
    have hlen := hr.length_le hn
    exact ⟨hn, hs, hstart, by omega, hr⟩

/-- Where a text reads a name, it reads the end of the name after its beginning. -/
theorem ReadsAt.of_append {caseSensitive : Bool} {front back hay : List UInt16} {i : Nat}
    (h : ReadsAt caseSensitive (front ++ back) hay i) :
    ReadsAt caseSensitive back hay (i + front.length) := by
  have hd := List.forall₂_drop front.length h
  rwa [List.drop_left, List.length_append, List.drop_take, List.drop_drop,
    Nat.add_sub_cancel_left] at hd

/-- Texts that agree on as many units as a name has read it alike. -/
theorem readsAt_congr {caseSensitive : Bool} {needle hay hay' : List UInt16} {i i' : Nat}
    (h : ∀ j < needle.length, hay[i + j]? = hay'[i' + j]?) :
    ReadsAt caseSensitive needle hay i ↔ ReadsAt caseSensitive needle hay' i' := by
  have hpiece : (hay.drop i).take needle.length = (hay'.drop i').take needle.length := by
    ext1 j
    by_cases hj : j < needle.length
    · rw [List.getElem?_take_of_lt hj, List.getElem?_take_of_lt hj, List.getElem?_drop,
        List.getElem?_drop, h j hj]
    · rw [List.getElem?_take_eq_none (by omega), List.getElem?_take_eq_none (by omega)]
  rw [ReadsAt, ReadsAt, hpiece]

theorem beginsWith_iff {caseSensitive : Bool} : ∀ (needle hay : List UInt16),
    beginsWith caseSensitive needle hay = true ↔
      List.Forall₂ (UnitsAgree caseSensitive) (hay.take needle.length) needle
  | [], _ => by simp [beginsWith]
  | _ :: _, [] => by simp [beginsWith]
  | n :: ns, h :: hs => by simp [beginsWith, sameUnit_iff, beginsWith_iff ns hs]

/-! ## The first place in a list -/

theorem firstFrom?_sound {caseSensitive : Bool} {needle : List UInt16} :
    ∀ {hay : List UInt16} {index i : Nat}, firstFrom? caseSensitive needle hay index = some i →
      ∃ k, i = index + k ∧ beginsWith caseSensitive needle (hay.drop k) = true ∧
        ∀ j < k, beginsWith caseSensitive needle (hay.drop j) = false
  | [], _, _, h => by simp [firstFrom?] at h
  | u :: rest, index, i, h => by
    simp only [firstFrom?] at h
    split at h
    · rename_i hb
      exact ⟨0, (Option.some.inj h).symm, hb, by simp⟩
    · rename_i hb
      obtain ⟨k, hi, hk, hmin⟩ := firstFrom?_sound h
      refine ⟨k + 1, by omega, by simpa using hk, ?_⟩
      intro j hj
      cases j with
      | zero => simpa using hb
      | succ j => simpa using hmin j (by omega)

theorem firstFrom?_none {caseSensitive : Bool} {needle : List UInt16} (hn : needle ≠ []) :
    ∀ {hay : List UInt16} {index : Nat}, firstFrom? caseSensitive needle hay index = none →
      ∀ k, beginsWith caseSensitive needle (hay.drop k) = false
  | [], _, _, k => by
    cases needle with
    | nil => exact absurd rfl hn
    | cons n ns => simp [beginsWith]
  | u :: rest, index, h, k => by
    simp only [firstFrom?] at h
    split at h
    · cases h
    · rename_i hb
      cases k with
      | zero => simpa using hb
      | succ k => simpa using firstFrom?_none hn h k

/-! ## The least occurrence in a window -/

/-- A nonempty name begins at place `k` of a window exactly when the whole text reads it there and
the window has room for it. -/
theorem beginsWith_window_iff {caseSensitive : Bool} {needle hay : List UInt16} {start stop k : Nat}
    (hn : needle ≠ []) :
    beginsWith caseSensitive needle (((hay.take stop).drop start).drop k) = true ↔
      start + k + needle.length ≤ stop ∧ ReadsAt caseSensitive needle hay (start + k) := by
  have hp := List.length_pos_iff.mpr hn
  rw [beginsWith_iff, List.drop_drop, List.drop_take, List.take_take]
  refine ⟨fun h => ?_, fun h => ?_⟩
  · have hl := List.Forall₂.length_eq h
    simp only [List.length_take, List.length_drop] at hl
    -- a window without room for all of the name would leave too few units to agree with it
    have hm : min needle.length (stop - (start + k)) = needle.length := by omega
    rw [hm] at h
    exact ⟨by omega, h⟩
  · obtain ⟨hstop, h⟩ := h
    rwa [Nat.min_eq_left (by omega)]

theorem occurs_iff_beginsWith {caseSensitive : Bool} {needle hay : List UInt16} {start stop : Int}
    {i : Nat} (hn : needle ≠ []) (hs : 0 ≤ start) :
    Occurs caseSensitive needle hay start stop i ↔ ∃ k, i = start.toNat + k ∧
      beginsWith caseSensitive needle (((hay.take stop.toNat).drop start.toNat).drop k) = true := by
  rw [occurs_iff_readsAt]
  refine ⟨fun h => ?_, fun h => ?_⟩
  · obtain ⟨-, -, hi, hstop, hr⟩ := h
    refine ⟨i - start.toNat, by omega, (beginsWith_window_iff hn).mpr ⟨by omega, ?_⟩⟩
    rwa [Nat.add_sub_cancel' (by omega)]
  · obtain ⟨k, rfl, hk⟩ := h
    obtain ⟨hstop, hr⟩ := (beginsWith_window_iff hn).mp hk
    have hp := List.length_pos_iff.mpr hn
    exact ⟨hn, hs, by omega, by omega, hr⟩

theorem find?_none {caseSensitive : Bool} {needle hay : List UInt16} {start stop : Int}
    (h : find? needle hay caseSensitive start stop = none) (i : Nat) :
    ¬ Occurs caseSensitive needle hay start stop i := by
  intro ho
  have hs := ho.start_nonneg
  have hstop := ho.le_stop
  have hb : (needle.isEmpty || decide (start < 0) || decide (stop < 0)) = false := by
    have hi : needle.isEmpty = false := by simpa using ho.nonempty
    simp only [hi, Bool.false_or, Bool.or_eq_false_iff, decide_eq_false_iff_not]
    omega
  rw [find?, hb] at h
  obtain ⟨k, -, hk⟩ := (occurs_iff_beginsWith ho.nonempty hs).mp ho
  exact Bool.false_ne_true ((firstFrom?_none ho.nonempty h k).symm.trans hk)

theorem find?_sound {caseSensitive : Bool} {needle hay : List UInt16} {start stop : Int} {i : Nat}
    (h : find? needle hay caseSensitive start stop = some i) :
    Occurs caseSensitive needle hay start stop i ∧
      ∀ j < i, ¬ Occurs caseSensitive needle hay start stop j := by
  unfold find? at h
  split at h
  · cases h
  · rename_i hb
    simp only [Bool.or_eq_true, decide_eq_true_eq, List.isEmpty_iff, not_or] at hb
    obtain ⟨⟨hn, hs⟩, -⟩ := hb
    have hs : 0 ≤ start := by omega
    obtain ⟨k, rfl, hk, hmin⟩ := firstFrom?_sound h
    refine ⟨(occurs_iff_beginsWith hn hs).mpr ⟨k, rfl, hk⟩, ?_⟩
    intro j hj ho
    obtain ⟨l, rfl, hl⟩ := (occurs_iff_beginsWith hn hs).mp ho
    exact Bool.false_ne_true ((hmin l (by omega)).symm.trans hl)

/-- **The scan finds nothing exactly when nothing occurs.** -/
theorem find?_eq_none_iff {caseSensitive : Bool} {needle hay : List UInt16} {start stop : Int} :
    find? needle hay caseSensitive start stop = none ↔
      ∀ i, ¬ Occurs caseSensitive needle hay start stop i := by
  refine ⟨find?_none, fun h => ?_⟩
  cases hf : find? needle hay caseSensitive start stop with
  | none => rfl
  | some i => exact absurd (find?_sound hf).1 (h i)

/-- **The scan finds the least occurrence.** -/
theorem find?_eq_some_iff {caseSensitive : Bool} {needle hay : List UInt16} {start stop : Int}
    {i : Nat} :
    find? needle hay caseSensitive start stop = some i ↔
      Occurs caseSensitive needle hay start stop i ∧
        ∀ j < i, ¬ Occurs caseSensitive needle hay start stop j := by
  refine ⟨find?_sound, fun ⟨ho, hmin⟩ => ?_⟩
  cases hf : find? needle hay caseSensitive start stop with
  | none => exact absurd ho (find?_none hf i)
  | some l =>
    obtain ⟨hl, hl'⟩ := find?_sound hf
    rcases Nat.lt_trichotomy l i with hlt | rfl | hgt
    · exact absurd hl (hmin l hlt)
    · rfl
    · exact absurd ho (hl' i hgt)

end Mentions.Text
