import Mentions.Proofs.Text.CaseFold
import Mentions.Text.Source

/-! # Character boundaries of a text

Among the units of a text a trailing surrogate stands exactly after a leading one, so an offset
lies between two characters exactly when no trailing surrogate stands at it. Between two such
offsets a slice is a piece of the text itself.
-/

namespace Mentions.Text

/-! ## Units of characters -/

/-- The units of a character are one that is no surrogate, or a pair that joins to it. -/
theorem charUnits_cases (c : Char) :
    (∃ u, charUnits c = [u] ∧ isSurrogate u = false ∧ loneChar u = c) ∨
      ∃ l t, charUnits c = [l, t] ∧ isLeading l = true ∧ isTrailing t = true ∧
        joinPair l t = c := by
  have hv : c.toNat < 0xD800 ∨ (0xDFFF < c.toNat ∧ c.toNat < 0x110000) := c.valid
  by_cases h : c.toNat < 0x10000
  · left
    have hu : c.toNat.toUInt16.toNat = c.toNat := UInt16.toNat_ofNat_of_lt' h
    have hs : isSurrogate c.toNat.toUInt16 = false := by
      simp only [isSurrogate, isLeading, isTrailing, hu, Bool.or_eq_false_iff,
        Bool.and_eq_false_iff, decide_eq_false_iff_not]
      omega
    refine ⟨c.toNat.toUInt16, by rw [charUnits, if_pos h], hs, ?_⟩
    rw [loneChar, hs, hu]
    exact Char.ofNat_toNat c
  · right
    have hl : (0xD800 + (c.toNat - 0x10000) / 0x400).toUInt16.toNat =
        0xD800 + (c.toNat - 0x10000) / 0x400 := UInt16.toNat_ofNat_of_lt' (by unfold UInt16.size; omega)
    have ht : (0xDC00 + (c.toNat - 0x10000) % 0x400).toUInt16.toNat =
        0xDC00 + (c.toNat - 0x10000) % 0x400 := UInt16.toNat_ofNat_of_lt' (by unfold UInt16.size; omega)
    refine ⟨_, _, by rw [charUnits, if_neg h], ?_, ?_, ?_⟩
    · simp only [isLeading, hl, Bool.and_eq_true, decide_eq_true_eq]
      omega
    · simp only [isTrailing, ht, Bool.and_eq_true, decide_eq_true_eq]
      omega
    · have he : 0x10000 + (0xD800 + (c.toNat - 0x10000) / 0x400 - 0xD800) * 0x400 +
          (0xDC00 + (c.toNat - 0x10000) % 0x400 - 0xDC00) = c.toNat := by omega
      rw [joinPair, hl, ht, he, Char.ofNat_toNat]

theorem decode_cons_of_not_isLeading {u : UInt16} (h : isLeading u = false) (rest : List UInt16) :
    decode (u :: rest) = loneChar u :: decode rest := by
  cases rest with
  | nil => rfl
  | cons v rest => simp [decode, h]

theorem decode_cons_plain {u : UInt16} (h : isSurrogate u = false) (rest : List UInt16) :
    decode (u :: rest) = loneChar u :: decode rest :=
  decode_cons_of_not_isLeading (Bool.or_eq_false_iff.mp h).1 rest

theorem decode_cons_pair {l t : UInt16} (hl : isLeading l = true) (ht : isTrailing t = true)
    (rest : List UInt16) : decode (l :: t :: rest) = joinPair l t :: decode rest := by
  simp [decode, hl, ht]

/-- Whole characters are read as themselves, whatever follows. -/
theorem decode_append (cs : List Char) (rest : List UInt16) :
    decode (cs.flatMap charUnits ++ rest) = cs ++ decode rest := by
  induction cs with
  | nil => rfl
  | cons c cs ih =>
    rw [List.flatMap_cons, List.append_assoc]
    rcases charUnits_cases c with ⟨u, hc, hu, he⟩ | ⟨l, t, hc, hl, ht, he⟩
    · rw [hc, List.singleton_append, decode_cons_plain hu, ih, he, List.cons_append]
    · rw [hc, List.cons_append, List.singleton_append, decode_cons_pair hl ht, ih, he,
        List.cons_append]

theorem decode_flatMap_charUnits (cs : List Char) : decode (cs.flatMap charUnits) = cs := by
  have h := decode_append cs []
  rwa [List.append_nil, decode, List.append_nil] at h

theorem decodeStrict?_cons_plain {u : UInt16} (h : isSurrogate u = false) (rest : List UInt16) :
    decodeStrict? (u :: rest) = (decodeStrict? rest).map (loneChar u :: ·) := by
  have hl : isLeading u = false := (Bool.or_eq_false_iff.mp h).1
  cases rest with
  | nil => simp [decodeStrict?, loneChar, h]
  | cons v rest => simp [decodeStrict?, loneChar, h, hl]

/-- The units of a text pair up. -/
theorem decodeStrict?_flatMap_charUnits (cs : List Char) :
    decodeStrict? (cs.flatMap charUnits) = some cs := by
  induction cs with
  | nil => rfl
  | cons c cs ih =>
    rw [List.flatMap_cons]
    rcases charUnits_cases c with ⟨u, hc, hu, he⟩ | ⟨l, t, hc, hl, ht, he⟩
    · simp [hc, decodeStrict?_cons_plain hu, ih, he]
    · simp [hc, decodeStrict?, hl, ht, ih, he]

theorem ofList_decode_units (s : String) : String.ofList (decode (units s)) = s := by
  rw [units, decode_flatMap_charUnits, String.ofList_toList]

theorem units_ne_nil {s : String} (h : s ≠ "") : units s ≠ [] := by
  intro hu
  apply h
  rw [← ofList_decode_units s, hu]
  rfl

theorem units_append (a b : String) : units (a ++ b) = units a ++ units b := by
  simp [units]

/-! ## Where surrogates stand -/

def leadingAt (us : List UInt16) (k : Nat) : Bool := us[k]?.any isLeading

/-- An offset inside a surrogate pair: its second half stands there. -/
def trailingAt (us : List UInt16) (k : Nat) : Bool := us[k]?.any isTrailing

theorem not_isTrailing_of_isLeading {u : UInt16} (h : isLeading u = true) :
    isTrailing u = false := by
  simp only [isLeading, isTrailing, Bool.and_eq_true, Bool.and_eq_false_iff, decide_eq_true_eq,
    decide_eq_false_iff_not] at h ⊢
  omega

theorem not_isLeading_of_isTrailing {u : UInt16} (h : isTrailing u = true) :
    isLeading u = false := by
  cases hl : isLeading u with
  | false => rfl
  | true => rw [not_isTrailing_of_isLeading hl] at h; cases h

/-- No text begins with the second half of a pair. -/
theorem trailingAt_zero (cs : List Char) : trailingAt (cs.flatMap charUnits) 0 = false := by
  cases cs with
  | nil => rfl
  | cons c cs =>
    rw [List.flatMap_cons]
    rcases charUnits_cases c with ⟨u, hc, hu, -⟩ | ⟨l, t, hc, hl, -, -⟩
    · rw [hc]; exact (Bool.or_eq_false_iff.mp hu).2
    · rw [hc]; exact not_isTrailing_of_isLeading hl

/-- Second halves of pairs stand exactly after first halves. -/
theorem trailingAt_succ (cs : List Char) (k : Nat) :
    trailingAt (cs.flatMap charUnits) (k + 1) = leadingAt (cs.flatMap charUnits) k := by
  induction cs generalizing k with
  | nil => rfl
  | cons c cs ih =>
    -- what follows a whole character begins with no second half
    have h0 := trailingAt_zero cs
    rw [List.flatMap_cons]
    rcases charUnits_cases c with ⟨u, hc, hu, -⟩ | ⟨l, t, hc, hl, ht, -⟩
    · rw [hc, List.singleton_append]
      cases k with
      | zero => exact h0.trans (Bool.or_eq_false_iff.mp hu).1.symm
      | succ k => exact ih k
    · rw [hc, List.cons_append, List.singleton_append]
      match k with
      | 0 => exact ht.trans hl.symm
      | 1 => exact h0.trans (not_isLeading_of_isTrailing ht).symm
      | k + 2 => exact ih k

/-! ## Splitting at a boundary -/

/-- An offset at which no pair is cut divides the characters. -/
theorem exists_split_of_not_trailingAt {cs : List Char} {k : Nat}
    (hk : k ≤ (cs.flatMap charUnits).length) (ht : trailingAt (cs.flatMap charUnits) k = false) :
    ∃ before after, cs = before ++ after ∧ (before.flatMap charUnits).length = k := by
  induction cs generalizing k with
  | nil => exact ⟨[], [], rfl, (Nat.le_zero.mp hk).symm⟩
  | cons c cs ih =>
    cases k with
    | zero => exact ⟨[], c :: cs, rfl, rfl⟩
    | succ k =>
      rw [List.flatMap_cons] at hk ht
      rcases charUnits_cases c with ⟨u, hc, -, -⟩ | ⟨l, t, hc, -, htr, -⟩
      · rw [hc, List.singleton_append] at hk ht
        obtain ⟨before, after, rfl, hb⟩ := ih (by simpa using hk) ht
        exact ⟨c :: before, after, rfl, by simp [hc, hb]⟩
      · rw [hc, List.cons_append, List.singleton_append] at hk ht
        cases k with
        | zero => rw [show trailingAt _ 1 = isTrailing t from rfl, htr] at ht; cases ht
        | succ k =>
          obtain ⟨before, after, rfl, hb⟩ := ih (by simpa using hk) ht
          exact ⟨c :: before, after, rfl, by simp [hc, hb]⟩

/-- **Between two offsets at which no pair is cut lies a piece of the text.** -/
theorem exists_piece {s : String} {offset length : Nat} (hlen : offset + length ≤ unitLength s)
    (hstart : trailingAt (units s) offset = false)
    (hstop : trailingAt (units s) (offset + length) = false) :
    ∃ before piece after : String, s = before ++ piece ++ after ∧ unitLength before = offset ∧
      unitLength piece = length := by
  obtain ⟨front, after, hs, hf⟩ := exists_split_of_not_trailingAt hlen hstop
  have hu : units s = front.flatMap charUnits ++ after.flatMap charUnits := by
    rw [units, hs, List.flatMap_append]
  -- the front ends at `offset + length`, which may be `offset` itself
  have hstart' : trailingAt (front.flatMap charUnits) offset = false := by
    cases Nat.lt_or_ge offset (front.flatMap charUnits).length with
    | inl hlt => rwa [trailingAt, ← List.getElem?_append_left hlt, ← hu]
    | inr hge => rw [trailingAt, List.getElem?_eq_none hge]; rfl
  obtain ⟨before, piece, rfl, hb⟩ := exists_split_of_not_trailingAt (by omega) hstart'
  refine ⟨String.ofList before, String.ofList piece, String.ofList after, ?_, ?_, ?_⟩
  · rw [← String.ofList_append, ← String.ofList_append, ← hs, String.ofList_toList]
  · rw [unitLength, units, String.toList_ofList, hb]
  · rw [List.flatMap_append, List.length_append] at hf
    rw [unitLength, units, String.toList_ofList]
    omega

/-! ## Text that reads a name -/

theorem ReadsAt.unitsAgree {caseSensitive : Bool} {needle hay : List UInt16} {i k : Nat}
    (h : ReadsAt caseSensitive needle hay i) (hk : k < needle.length) :
    ∃ a b, hay[i + k]? = some a ∧ needle[k]? = some b ∧ UnitsAgree caseSensitive a b := by
  have hlen := List.Forall₂.length_eq h
  have ha := List.Forall₂.get h (hlen.symm ▸ hk) hk
  refine ⟨_, needle[k], ?_, List.getElem?_eq_getElem hk, ha⟩
  rw [List.get_eq_getElem, ← List.getElem?_eq_getElem, List.getElem?_take_of_lt hk,
    List.getElem?_drop]

theorem ReadsAt.trailingAt_eq {caseSensitive : Bool} {needle hay : List UInt16} {i k : Nat}
    (h : ReadsAt caseSensitive needle hay i) (hk : k < needle.length) :
    trailingAt hay (i + k) = trailingAt needle k := by
  obtain ⟨a, b, ha, hb, hab⟩ := h.unitsAgree hk
  rw [trailingAt, trailingAt, ha, hb]
  exact hab.isTrailing_eq

theorem ReadsAt.leadingAt_eq {caseSensitive : Bool} {needle hay : List UInt16} {i k : Nat}
    (h : ReadsAt caseSensitive needle hay i) (hk : k < needle.length) :
    leadingAt hay (i + k) = leadingAt needle k := by
  obtain ⟨a, b, ha, hb, hab⟩ := h.unitsAgree hk
  rw [leadingAt, leadingAt, ha, hb]
  exact hab.isLeading_eq

/-- **A text reads a name only between characters.** The name begins with no second half of a pair
and ends with no first half, and the text agrees with it there. -/
theorem ReadsAt.uncut {caseSensitive : Bool} {w s : String} {i : Nat}
    (h : ReadsAt caseSensitive (units w) (units s) i) (hw : units w ≠ []) :
    trailingAt (units s) i = false ∧ trailingAt (units s) (i + unitLength w) = false := by
  have hp : 0 < (units w).length := List.length_pos_iff.mpr hw
  have hstart : trailingAt (units s) (i + 0) = false :=
    (h.trailingAt_eq hp).trans (trailingAt_zero w.toList)
  obtain ⟨k, hk⟩ : ∃ k, unitLength w = k + 1 := Nat.exists_eq_add_one.mpr hp
  refine ⟨hstart, ?_⟩
  calc trailingAt (units s) (i + unitLength w)
      = leadingAt (units s) (i + k) := by rw [hk]; exact trailingAt_succ s.toList (i + k)
    _ = leadingAt (units w) k := h.leadingAt_eq (by change k < unitLength w; omega)
    _ = trailingAt (units w) (unitLength w) := by rw [hk]; exact (trailingAt_succ w.toList k).symm
    _ = false := by rw [trailingAt, unitLength, List.getElem?_length]; rfl

end Text

/-- A slice that begins and ends with a piece of the text is that piece. -/
theorem SourceText.slice_piece (t : SourceText) {before piece after : String}
    (h : t.text = before ++ piece ++ after) :
    (t.units.drop (Text.unitLength before)).take (Text.unitLength piece) = Text.units piece ∧
      t.slice (Text.unitLength before) (Text.unitLength piece) = piece := by
  have hu : (t.units.drop (Text.unitLength before)).take (Text.unitLength piece) =
      Text.units piece := by
    rw [t.units_eq, h, Text.units_append, Text.units_append, List.append_assoc,
      show Text.unitLength before = (Text.units before).length from rfl, List.drop_left]
    exact List.take_left
  exact ⟨hu, by rw [SourceText.slice, hu, Text.ofList_decode_units]⟩

end Mentions
