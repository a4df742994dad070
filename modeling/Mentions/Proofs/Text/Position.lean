import Mathlib.Data.List.Count
import Mentions.Text.Source

/-! # Positions and offsets

The line of a position counts the line feeds before its offset, and the column counts from the start
of that line. So positions come in the order of their offsets, and an offset is found again from its
position: it lies as many units after the start of the line as the column says.
-/

namespace Mentions

/-- The order of reading: by line, then by column. -/
def Position.Before (p q : Position) : Prop :=
  p.line < q.line ∨ (p.line = q.line ∧ p.character < q.character)

namespace Position

theorem Before.trans {p q r : Position} (hpq : p.Before q) (hqr : q.Before r) : p.Before r := by
  unfold Before at *
  omega

theorem before_advance (p : Position) (u : UInt16) : p.Before (p.advance u) := by
  unfold Before advance
  split
  · exact .inl (Nat.lt_succ_self _)
  · exact .inr ⟨rfl, Nat.lt_succ_self _⟩

theorem line_advance (p : Position) (u : UInt16) :
    (p.advance u).line = p.line + if u = 10 then 1 else 0 := by
  unfold advance
  split <;> rfl

end Position

namespace SourceText

/-- A line starts where the text does, and directly after each line feed. Lines are numbered by the
line feeds before their start. -/
structure LineStartsAt (t : SourceText) (line start : Nat) : Prop where
  feed : start = 0 ∨ ∃ i, t.units[i]? = some 10 ∧ start = i + 1
  number : (t.units.take start).count 10 = line

variable {t : SourceText} {i j line : Nat}

/-! ## One unit on -/

theorem position_succ {u : UInt16} (hu : t.units[i]? = some u) :
    t.position (i + 1) = (t.position i).advance u := by
  simp [position, List.take_add_one, hu]

theorem exists_unit (hi : i < t.length) : ∃ u, t.units[i]? = some u :=
  ⟨t.units[i], List.getElem?_eq_getElem hi⟩

theorem position_of_length_le (hi : t.length ≤ i) : t.position i = t.position t.length := by
  rw [position, position, List.take_of_length_le hi, length, List.take_length]

/-! ## Lines -/

theorem count_take_succ {u : UInt16} (hu : t.units[i]? = some u) :
    (t.units.take (i + 1)).count 10 = (t.units.take i).count 10 + if u = 10 then 1 else 0 := by
  simp [List.take_add_one, hu, List.count_singleton]

/-- The line of an offset is the number of line feeds before it. -/
theorem line_position (t : SourceText) (i : Nat) :
    (t.position i).line = (t.units.take i).count 10 := by
  induction i with
  | zero => rfl
  | succ i ih =>
    cases hu : t.units[i]? with
    | some u => rw [position_succ hu, Position.line_advance, count_take_succ hu, ih]
    | none =>
      have hlen : t.length ≤ i := List.getElem?_eq_none_iff.mp hu
      rw [position_of_length_le (Nat.le_succ_of_le hlen), ← position_of_length_le hlen, ih,
        List.take_of_length_le hlen, List.take_of_length_le (Nat.le_succ_of_le hlen)]

theorem LineStartsAt.le {start start' : Nat} (h : t.LineStartsAt line start)
    (h' : t.LineStartsAt line start') : start' ≤ start := by
  rcases h'.feed with rfl | ⟨i, hi, rfl⟩
  · exact Nat.zero_le _
  · by_contra hlt
    have hle : (t.units.take start).count 10 ≤ (t.units.take i).count 10 :=
      (List.take_prefix_take_left (by omega)).sublist.count_le 10
    have hcount := count_take_succ hi
    rw [h'.number, ← h.number, if_pos rfl] at hcount
    omega

theorem LineStartsAt.unique {start start' : Nat} (h : t.LineStartsAt line start)
    (h' : t.LineStartsAt line start') : start = start' :=
  Nat.le_antisymm (h'.le h) (h.le h')

/-- What counting keeps up: the column is the distance to the start of the line. -/
theorem exists_lineStart (hi : i ≤ t.length) :
    ∃ start, t.LineStartsAt (t.position i).line start ∧ start + (t.position i).character = i := by
  induction i with
  | zero => exact ⟨0, ⟨.inl rfl, rfl⟩, rfl⟩
  | succ i ih =>
    obtain ⟨u, hu⟩ := exists_unit hi
    obtain ⟨start, hstart, hcharacter⟩ := ih (Nat.le_of_succ_le hi)
    rw [position_succ hu]
    by_cases hfeed : u = 10
    · subst hfeed
      refine ⟨i + 1, ⟨.inr ⟨i, hu, rfl⟩, ?_⟩, ?_⟩
      · rw [count_take_succ hu, Position.line_advance, line_position]
      · rfl
    · refine ⟨start, ?_, ?_⟩
      · rw [Position.line_advance, if_neg hfeed]
        exact hstart
      · rw [Position.advance, if_neg hfeed]
        exact congrArg Nat.succ hcharacter

/-- An offset is found again from its position. -/
theorem LineStartsAt.offset_eq {start : Nat} (h : t.LineStartsAt (t.position i).line start)
    (hi : i ≤ t.length) : i = start + (t.position i).character := by
  obtain ⟨start', hstart, hcharacter⟩ := exists_lineStart hi
  rw [h.unique hstart]
  exact hcharacter.symm

/-- Neither counter passes the length of the text. -/
theorem line_add_character_le (t : SourceText) (i : Nat) :
    (t.position i).line + (t.position i).character ≤ t.length := by
  have hwithin : ∀ i ≤ t.length, (t.position i).line + (t.position i).character ≤ t.length := by
    intro i hi
    obtain ⟨start, hstart, hcharacter⟩ := exists_lineStart hi
    have hline := List.count_le_length (a := 10) (l := t.units.take start)
    rw [hstart.number, List.length_take] at hline
    omega
  rcases Nat.le_total i t.length with hi | hi
  · exact hwithin i hi
  · rw [position_of_length_le hi]
    exact hwithin _ (Nat.le_refl _)

/-! ## The order of positions -/

theorem position_before (hij : i < j) (hj : j ≤ t.length) :
    (t.position i).Before (t.position j) := by
  induction j with
  | zero => exact absurd hij (Nat.not_lt_zero i)
  | succ j ih =>
    obtain ⟨u, hu⟩ := exists_unit hj
    have hstep : (t.position j).Before (t.position (j + 1)) :=
      position_succ hu ▸ Position.before_advance _ u
    rcases Nat.lt_succ_iff_lt_or_eq.mp hij with hlt | rfl
    · exact (ih hlt (Nat.le_of_succ_le hj)).trans hstep
    · exact hstep

/-- **Positions lose nothing.** Up to the end of the text they come in the order of the offsets, and
from there on they stay the same. The line counts the line feeds before the offset, and the offset
lies as many units after the start of that line as the column says; line and column together do not
pass the length of the text, so that words of 32 bits hold them in a text shorter than 2³² units. The
two ends of a range come in order, and are equal for an empty span only; with the starts of their
lines they give the span back. -/
theorem positions_lose_nothing (t : SourceText) :
    (∀ i j, i < j → j ≤ t.length → (t.position i).Before (t.position j)) ∧
    (∀ i, t.length ≤ i → t.position i = t.position t.length) ∧
    (∀ i, (t.position i).line = (t.units.take i).count 10) ∧
    (∀ i, (t.position i).line + (t.position i).character ≤ t.length) ∧
    (∀ i ≤ t.length, (∃ start, t.LineStartsAt (t.position i).line start) ∧
      ∀ start, t.LineStartsAt (t.position i).line start →
        i = start + (t.position i).character) ∧
    ∀ s : Span, s.stop ≤ t.length →
      let (first, last) := t.range s
      (s.isEmpty = true → first = last) ∧ (s.isEmpty = false → first.Before last) ∧
        ∀ start start', t.LineStartsAt first.line start → t.LineStartsAt last.line start' →
          s = ⟨start + first.character, (start' + last.character) - (start + first.character)⟩ := by
  refine ⟨fun i j => position_before, fun i => position_of_length_le, line_position t,
    line_add_character_le t, fun i hi => ⟨?_, fun start hstart => hstart.offset_eq hi⟩,
    fun ⟨offset, length⟩ hs => ⟨fun he => ?_, fun hn => ?_, fun start start' hstart hstart' => ?_⟩⟩
  · obtain ⟨start, hstart, -⟩ := exists_lineStart hi
    exact ⟨start, hstart⟩
  · obtain rfl : length = 0 := by simpa [Span.isEmpty] using he
    rfl
  · have hlength : length ≠ 0 := by simpa [Span.isEmpty] using hn
    exact position_before (Nat.lt_add_of_pos_right (Nat.pos_of_ne_zero hlength)) hs
  · have hoffset := hstart.offset_eq (Nat.le_trans (Nat.le_add_right _ _) hs)
    have hstop := hstart'.offset_eq hs
    rw [← hoffset, ← hstop]
    simp [Span.stop]

end SourceText
end Mentions
