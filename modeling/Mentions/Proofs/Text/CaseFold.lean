import Mentions.Proofs.Text.Scan
import Mentions.Text.Utf16

/-! # Surrogates under comparison without case

Half of a surrogate pair agrees with itself alone, in either case mode. The lowercase table covers
no surrogate and none of its images is one; both are read off the bounds of its runs.
-/

namespace Mentions.Text

/-- The numbers from `first` to `last` are no surrogates. -/
def ClearOfSurrogates (first last : Nat) : Prop :=
  last < 0xD800 ∨ (0xE000 ≤ first ∧ last < 0x10000)

instance (first last : Nat) : Decidable (ClearOfSurrogates first last) :=
  inferInstanceAs (Decidable (_ ∨ _))

theorem isSurrogate_iff {u : UInt16} : isSurrogate u = true ↔ 0xD800 ≤ u.toNat ∧ u.toNat < 0xE000 := by
  simp only [isSurrogate, isLeading, isTrailing, Bool.or_eq_true, Bool.and_eq_true,
    decide_eq_true_eq]
  omega

/-- No run of the table covers a surrogate or maps to one. -/
theorem caseRuns_clear : ∀ r ∈ caseRuns, ClearOfSurrogates r.first.toNat r.last.toNat ∧
    ClearOfSurrogates r.lower.toNat (r.lower.toNat + (r.last.toNat - r.first.toNat)) := by
  decide +kernel

theorem CaseRun.covers_bounds {r : CaseRun} {u : UInt16} (h : r.covers u = true) :
    r.first.toNat ≤ u.toNat ∧ u.toNat ≤ r.last.toNat := by
  simp only [CaseRun.covers, Bool.and_eq_true, decide_eq_true_eq] at h
  exact ⟨UInt16.le_iff_toNat_le.mp h.1.1, UInt16.le_iff_toNat_le.mp h.1.2⟩

/-- A unit with a lowercase is no surrogate, and neither is the lowercase. -/
theorem CaseRun.image_clear {r : CaseRun} {u : UInt16} (hr : r ∈ caseRuns)
    (h : r.covers u = true) : isSurrogate u = false ∧ isSurrogate (r.image u) = false := by
  obtain ⟨hsource, himage⟩ := caseRuns_clear r hr
  obtain ⟨hlo, hhi⟩ := CaseRun.covers_bounds h
  have hsub : (u - r.first).toNat = u.toNat - r.first.toNat :=
    UInt16.toNat_sub_of_le _ _ (UInt16.le_iff_toNat_le.mpr hlo)
  have hadd : (r.image u).toNat = (r.lower.toNat + (u.toNat - r.first.toNat)) % 65536 := by
    rw [CaseRun.image, UInt16.toNat_add, hsub]
  simp only [← Bool.not_eq_true, isSurrogate_iff]
  unfold ClearOfSurrogates at hsource himage
  have hlower := r.lower.toNat_lt
  omega

theorem lower_cases (u : UInt16) :
    lower u = u ∨ ∃ r ∈ caseRuns, r.covers u = true ∧ lower u = r.image u := by
  unfold lower
  cases hf : caseRuns.find? (·.covers u) with
  | none => exact .inl rfl
  | some r =>
    have hc : r.covers u = true := by simpa using List.find?_some hf
    exact .inr ⟨r, List.mem_of_find?_eq_some hf, hc, rfl⟩

theorem lower_of_isSurrogate {u : UInt16} (h : isSurrogate u = true) : lower u = u := by
  rcases lower_cases u with he | ⟨r, hr, hc, -⟩
  · exact he
  · rw [(CaseRun.image_clear hr hc).1] at h; cases h

theorem isSurrogate_lower (u : UInt16) : isSurrogate (lower u) = isSurrogate u := by
  rcases lower_cases u with he | ⟨r, hr, hc, he⟩
  · rw [he]
  · obtain ⟨hu, hi⟩ := CaseRun.image_clear hr hc
    rw [he, hi, hu]

/-- A surrogate agrees with itself alone, and nothing else agrees with a surrogate. -/
theorem UnitsAgree.eq_or_plain {caseSensitive : Bool} {a b : UInt16}
    (h : UnitsAgree caseSensitive a b) :
    a = b ∨ (isSurrogate a = false ∧ isSurrogate b = false) := by
  cases caseSensitive with
  | true => exact .inl h
  | false =>
    change lower a = lower b at h
    have hs : isSurrogate a = isSurrogate b := by
      rw [← isSurrogate_lower a, h, isSurrogate_lower]
    cases ha : isSurrogate a with
    | false => exact .inr ⟨rfl, hs ▸ ha⟩
    | true =>
      have hb : isSurrogate b = true := hs ▸ ha
      left
      rw [← lower_of_isSurrogate ha, h, lower_of_isSurrogate hb]

theorem UnitsAgree.isLeading_eq {caseSensitive : Bool} {a b : UInt16}
    (h : UnitsAgree caseSensitive a b) : isLeading a = isLeading b := by
  rcases h.eq_or_plain with rfl | ⟨ha, hb⟩
  · rfl
  · rw [(Bool.or_eq_false_iff.mp ha).1, (Bool.or_eq_false_iff.mp hb).1]

theorem UnitsAgree.isTrailing_eq {caseSensitive : Bool} {a b : UInt16}
    (h : UnitsAgree caseSensitive a b) : isTrailing a = isTrailing b := by
  rcases h.eq_or_plain with rfl | ⟨ha, hb⟩
  · rfl
  · rw [(Bool.or_eq_false_iff.mp ha).2, (Bool.or_eq_false_iff.mp hb).2]

end Mentions.Text
