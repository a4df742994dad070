import Mentions.Proofs.Text.Arithmetic
import Mentions.Proofs.Text.Boundary

/-! # What slices show

A slice shows of each character what its units hold of it: all, half or nothing. Two slices that
meet give the text back exactly where they meet between two characters. The bounds of a slice are
computed with words, which stop at the greatest count; that is past the end of every text, so that
no bound is lost.
-/

namespace Mentions

namespace Text

variable {s : String} {k : Nat}

/-! ## Offsets between characters and inside pairs -/

/-- An offset at which the text divides in two: between characters, or at an end. -/
def DividesAt (s : String) (k : Nat) : Prop :=
  ∃ before after : String, s = before ++ after ∧ unitLength before = k

/-- An offset inside a surrogate pair: strictly between the two ends of one character. -/
def CutsPairAt (s : String) (k : Nat) : Prop :=
  ∃ (before : String) (c : Char) (after : String), s = before ++ String.singleton c ++ after ∧
    unitLength before < k ∧ k < unitLength before + (charUnits c).length

theorem trailingAt_append (us vs : List UInt16) (k : Nat) :
    trailingAt (us ++ vs) (us.length + k) = trailingAt vs k := by
  rw [trailingAt, trailingAt, List.getElem?_append_right (Nat.le_add_right _ _),
    Nat.add_sub_cancel_left]

theorem DividesAt.not_trailingAt (h : DividesAt s k) :
    k ≤ unitLength s ∧ trailingAt (units s) k = false := by
  obtain ⟨before, after, rfl, rfl⟩ := h
  rw [unitLength, unitLength, units_append, List.length_append]
  exact ⟨Nat.le_add_right _ _,
    (trailingAt_append (units before) (units after) 0).trans (trailingAt_zero after.toList)⟩

theorem leadingAt_append (us vs : List UInt16) :
    leadingAt (us ++ vs) us.length = leadingAt vs 0 := by
  rw [leadingAt, leadingAt, List.getElem?_append_right (Nat.le_refl _), Nat.sub_self]

/-- The character around the second half of a pair. -/
theorem exists_pair_of_trailingAt {cs : List Char}
    (h : trailingAt (cs.flatMap charUnits) k = true) :
    ∃ before c after l t, cs = before ++ c :: after ∧ (before.flatMap charUnits).length + 1 = k ∧
      charUnits c = [l, t] ∧ isLeading l = true ∧ isTrailing t = true := by
  cases k with
  | zero => rw [trailingAt_zero] at h; cases h
  | succ k =>
    -- the first half of the pair stands one unit before, between two characters
    have hlead : leadingAt (cs.flatMap charUnits) k = true := (trailingAt_succ cs k).symm.trans h
    obtain ⟨u, hu, hul⟩ := (Option.any_eq_true ..).mp hlead
    have hle : k ≤ (cs.flatMap charUnits).length := by
      obtain ⟨hlt, -⟩ := List.getElem?_eq_some_iff.mp hu
      exact Nat.le_of_lt hlt
    have hnot : trailingAt (cs.flatMap charUnits) k = false := by
      rw [trailingAt, hu]
      exact not_isTrailing_of_isLeading hul
    obtain ⟨before, after, rfl, rfl⟩ := exists_split_of_not_trailingAt hle hnot
    rw [List.flatMap_append, leadingAt_append] at hlead
    cases after with
    | nil => cases hlead
    | cons c after =>
      rw [List.flatMap_cons] at hlead
      rcases charUnits_cases c with ⟨u, hc, hu, -⟩ | ⟨l, t, hc, hl, ht, -⟩
      · have hul : isLeading u = true := by rwa [hc] at hlead
        rw [(Bool.or_eq_false_iff.mp hu).1] at hul
        cases hul
      · exact ⟨before, c, after, l, t, rfl, rfl, hc, hl, ht⟩

theorem cutsPairAt_iff : CutsPairAt s k ↔ trailingAt (units s) k = true := by
  constructor
  · rintro ⟨before, c, after, rfl, hlow, hhigh⟩
    have hsplit : units (before ++ String.singleton c ++ after) =
        units before ++ (charUnits c ++ units after) := by simp [units]
    obtain ⟨j, rfl⟩ := Nat.exists_eq_add_of_lt hlow
    rw [hsplit, Nat.add_assoc, unitLength, trailingAt_append]
    rw [unitLength] at hhigh
    -- only a pair has an offset strictly inside it
    rcases charUnits_cases c with ⟨u, hc, -, -⟩ | ⟨l, t, hc, -, ht, -⟩
    · rw [hc, List.length_singleton] at hhigh
      omega
    · rw [hc] at hhigh ⊢
      simp only [List.length_cons, List.length_nil] at hhigh
      obtain rfl : j = 0 := by omega
      exact ht
  · intro h
    obtain ⟨before, c, after, l, t, hs, hk, hc, -, -⟩ := exists_pair_of_trailingAt h
    have hbefore : unitLength (String.ofList before) + 1 = k := by
      rw [unitLength, units, String.toList_ofList, hk]
    refine ⟨String.ofList before, c, String.ofList after, ?_, by omega, ?_⟩
    · rw [← String.ofList_toList (s := s), hs]
      apply String.toList_injective
      simp
    · rw [hc, List.length_cons, List.length_singleton]
      omega

/-! ## Windows of units -/

/-- What the units from `start` up to `stop` show of a character that begins at `i`: the character
itself when they hold all its units, U+FFFD when they hold one half of its pair, else nothing. -/
def glimpse (start stop i : Nat) (c : Char) : List Char :=
  let held := min stop (i + (charUnits c).length) - max start i
  if held = (charUnits c).length then [c] else if held = 0 then [] else [replacement]

/-- What the units from `start` up to `stop` show of characters of which the first begins at `i`. -/
def glimpses (start stop : Nat) : Nat → List Char → List Char
  | _, [] => []
  | i, c :: rest =>
    glimpse start stop i c ++ glimpses start stop (i + (charUnits c).length) rest

theorem loneChar_of_isLeading {u : UInt16} (h : isLeading u = true) : loneChar u = replacement := by
  simp [loneChar, isSurrogate, h]

theorem loneChar_of_isTrailing {u : UInt16} (h : isTrailing u = true) :
    loneChar u = replacement := by
  simp [loneChar, isSurrogate, h]

theorem decode_window_cons (c : Char) (us : List UInt16) (start stop i : Nat) :
    decode (((charUnits c ++ us).take (stop - i)).drop (start - i)) =
      glimpse start stop i c ++ decode ((us.take (stop - (i + (charUnits c).length))).drop
        (start - (i + (charUnits c).length))) := by
  have hheld : ∀ w, min stop (i + w) - max start i = min (stop - i) w - (start - i) := by omega
  simp only [glimpse, hheld, Nat.sub_add_eq]
  generalize stop - i = a
  generalize start - i = b
  rcases charUnits_cases c with ⟨u, hc, hu, he⟩ | ⟨l, t, hc, hl, ht, he⟩
  · rw [hc]
    rcases a with _ | a
    · simp [decode]
    · rcases b with _ | b
      · simp [decode_cons_plain hu, he]
      · simp
  · have hlone := loneChar_of_isLeading hl
    have htone := loneChar_of_isTrailing ht
    have htlead := not_isLeading_of_isTrailing ht
    rw [hc]
    rcases a with _ | _ | a
    · simp [decode]
    · rcases b with _ | b
      · simp [decode, hlone]
      · simp [decode]
    · rcases b with _ | _ | b
      · simp [decode_cons_pair hl ht, he]
      · simp [decode_cons_of_not_isLeading htlead, htone]
      · simp

theorem decode_window (cs : List Char) (start stop i : Nat) :
    decode (((cs.flatMap charUnits).take (stop - i)).drop (start - i)) =
      glimpses start stop i cs := by
  induction cs generalizing i with
  | nil => simp [decode, glimpses]
  | cons c cs ih => rw [List.flatMap_cons, decode_window_cons, ih, glimpses]

end Text

namespace SourceText

/-- A slice as it is computed with words: both bounds stop at the end of the text, and the sum of
offset and length at the greatest count. -/
def sliceInWords (greatest : Nat) (t : SourceText) (offset length : Nat) : Checked String := do
  let start := min (offset : Int) t.length
  let stop := min ((Word.count greatest).clamp (offset + length)) t.length
  let window ← Text.slice t.units start stop
  return String.ofList (Text.decode window)

variable {t : SourceText} {k n : Nat}

theorem sliceInWords_eq {greatest : Nat} (h : t.length ≤ greatest) (offset length : Nat) :
    t.sliceInWords greatest offset length = .ok (t.slice offset length) := by
  rw [SourceText.length] at h
  have hstop : min ((Word.count greatest).clamp (offset + length)) t.units.length =
      min ((offset + length : Nat) : Int) t.units.length := by
    simp only [Word.clamp, Word.count]
    omega
  have hslice : Text.slice t.units (min (offset : Int) t.units.length)
      (min ((offset + length : Nat) : Int) t.units.length) =
        .ok ((t.units.drop offset).take length) := by
    rw [Text.slice_of_le (by omega) (by omega), Int.toNat_natCast, List.drop_take]
    rcases Nat.le_total offset t.units.length with hle | hle
    · rw [show (min (offset : Int) t.units.length).toNat = offset by omega,
        Nat.add_sub_cancel_left]
    · rw [List.drop_of_length_le hle, List.drop_of_length_le (by omega), List.take_nil,
        List.take_nil]
  rw [sliceInWords, SourceText.length, hstop, hslice, Checked.ok_bind]
  rfl

theorem slice_eq_glimpses (t : SourceText) (offset length : Nat) :
    t.slice offset length =
      String.ofList (Text.glimpses offset (offset + length) 0 t.text.toList) := by
  rw [← Text.decode_window, Nat.sub_zero, Nat.sub_zero, List.drop_take, Nat.add_sub_cancel_left,
    slice, t.units_eq, Text.units]

theorem slice_between {a b : Nat} (hab : a ≤ b) (ha : Text.DividesAt t.text a)
    (hb : Text.DividesAt t.text b) :
    ∃ before piece after : String, t.text = before ++ piece ++ after ∧
      Text.unitLength before = a ∧ Text.unitLength (before ++ piece) = b ∧
      t.slice a (b - a) = piece := by
  obtain ⟨-, hstart⟩ := ha.not_trailingAt
  obtain ⟨hle, hstop⟩ := hb.not_trailingAt
  have hsum : a + (b - a) = b := Nat.add_sub_cancel' hab
  rw [← hsum] at hle hstop
  obtain ⟨before, piece, after, hs, rfl, hpiece⟩ := Text.exists_piece hle hstart hstop
  refine ⟨before, piece, after, hs, rfl, ?_, ?_⟩
  · rw [← hsum, ← hpiece, Text.unitLength, Text.units_append, List.length_append]
    rfl
  · rw [← hpiece]
    exact (t.slice_piece hs).2

theorem slice_zero (t : SourceText) (k : Nat) :
    t.slice 0 k = String.ofList (Text.decode (t.units.take k)) := rfl

/-- A slice that is long enough reaches the end of the text. -/
theorem slice_to_end (hn : t.length - min k t.length ≤ n) :
    t.slice k n = String.ofList (Text.decode (t.units.drop k)) := by
  have hlen : (t.units.drop k).length ≤ n := by
    rw [List.length_drop]
    unfold length at hn
    omega
  rw [slice, List.take_of_length_le hlen]

theorem slice_append_slice_of_not_cut (hn : t.length - min k t.length ≤ n)
    (hcut : ¬ Text.CutsPairAt t.text k) : t.slice 0 k ++ t.slice k n = t.text := by
  rw [slice_zero, slice_to_end hn]
  rcases Nat.le_total k t.length with hk | hk
  · rw [Text.cutsPairAt_iff, Bool.not_eq_true] at hcut
    rw [length, t.units_eq] at hk
    obtain ⟨before, after, hs, hbefore⟩ := Text.exists_split_of_not_trailingAt hk hcut
    have hunits : t.units = before.flatMap Text.charUnits ++ after.flatMap Text.charUnits := by
      rw [t.units_eq, Text.units, hs, List.flatMap_append]
    rw [hunits, List.take_left' hbefore, List.drop_left' hbefore, Text.decode_flatMap_charUnits,
      Text.decode_flatMap_charUnits, ← String.ofList_append, ← hs, String.ofList_toList]
  · rw [List.take_of_length_le hk, List.drop_of_length_le hk, t.units_eq, Text.ofList_decode_units]
    exact String.append_empty

/-- Both halves of a cut pair are shown, so the slices hold one character more than the text. -/
theorem slice_append_slice_of_cut (hn : t.length - min k t.length ≤ n)
    (hcut : Text.CutsPairAt t.text k) : t.slice 0 k ++ t.slice k n ≠ t.text := by
  obtain ⟨before, c, after, lead, trail, hs, hk, hc, hl, ht⟩ :=
    Text.exists_pair_of_trailingAt (Text.cutsPairAt_iff.mp hcut)
  have hunits : t.units =
      (before.flatMap Text.charUnits ++ [lead]) ++ trail :: after.flatMap Text.charUnits := by
    rw [t.units_eq, Text.units, hs, List.flatMap_append, List.flatMap_cons, hc]
    simp
  have hlen : (before.flatMap Text.charUnits ++ [lead]).length = k := by
    rw [List.length_append, List.length_singleton, hk]
  rw [slice_zero, slice_to_end hn, hunits, List.take_left' hlen, List.drop_left' hlen,
    Text.decode_append, Text.decode_cons_of_not_isLeading (Text.not_isLeading_of_isTrailing ht),
    Text.decode_flatMap_charUnits]
  intro h
  have hcount := congrArg (fun s : String => s.toList.length) h
  simp only [hs, String.toList_append, String.toList_ofList, List.length_append, Text.decode,
    List.length_cons, List.length_nil] at hcount
  omega

/-- **Slices are a faithful view of the units.** Computed with words that can count the text, a
slice is what it is with numbers of any size, so that neither bound fails nor gets lost. Two slices
that meet at an offset, of which the second is long enough, give the text back exactly when the
offset is inside no surrogate pair. Between two offsets that divide the text a slice is the piece
between them; and any slice shows each character whole where it holds all its units, as U+FFFD where
it holds half of its pair, and not at all elsewhere. -/
theorem slices_view_units (greatest : Nat) (ht : t.length ≤ greatest) :
    (∀ offset length, t.sliceInWords greatest offset length = .ok (t.slice offset length)) ∧
    (∀ k n, t.length - min k t.length ≤ n →
      (t.slice 0 k ++ t.slice k n = t.text ↔ ¬ Text.CutsPairAt t.text k)) ∧
    (∀ a b, a ≤ b → Text.DividesAt t.text a → Text.DividesAt t.text b →
      ∃ before piece after : String, t.text = before ++ piece ++ after ∧
        Text.unitLength before = a ∧ Text.unitLength (before ++ piece) = b ∧
        t.slice a (b - a) = piece) ∧
    ∀ offset length, t.slice offset length =
      String.ofList (Text.glimpses offset (offset + length) 0 t.text.toList) := by
  refine ⟨sliceInWords_eq ht, fun k n hn => ⟨fun h hcut => ?_, ?_⟩,
    fun a b hab ha hb => slice_between hab ha hb, slice_eq_glimpses t⟩
  · exact slice_append_slice_of_cut hn hcut h
  · exact slice_append_slice_of_not_cut hn

namespace Sample

/-- A text of four units with a pair in the middle. -/
def paired : SourceText := .ofString "a😀b"

end Sample

theorem sample_pair_cut_in_halves :
    Sample.paired.length ≤ 4 ∧
    Sample.paired.sliceInWords 4 2 4 = .ok (String.ofList [Text.replacement, 'b']) ∧
    Sample.paired.slice 0 2 ++ Sample.paired.slice 2 4 ≠ "a😀b" ∧
    Sample.paired.slice 0 3 ++ Sample.paired.slice 3 1 = "a😀b" ∧
    ∃ before piece after : String, "a😀b" = before ++ piece ++ after ∧
      Text.unitLength before = 1 ∧ Text.unitLength (before ++ piece) = 3 ∧
      Sample.paired.slice 1 2 = piece := by
  have hlen : Sample.paired.length ≤ 4 := by decide
  obtain ⟨hwords, hjoin, hbetween, hshown⟩ := slices_view_units 4 hlen
  have hcut : Text.CutsPairAt "a😀b" 2 := Text.cutsPairAt_iff.mpr (by decide)
  have hnot : ¬ Text.CutsPairAt "a😀b" 3 := by
    rw [Text.cutsPairAt_iff]
    decide
  refine ⟨hlen, (hwords 2 4).trans ?_, fun h => (hjoin 2 4 (by decide)).mp h hcut,
    (hjoin 3 1 (by decide)).mpr hnot, hbetween 1 3 (by decide) ?_ ?_⟩
  · rw [hshown]
    rfl
  · exact ⟨"a", "😀b", by decide, by decide⟩
  · exact ⟨"a😀", "b", by decide, by decide⟩

end SourceText
end Mentions
