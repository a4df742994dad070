import Mentions.Proofs.Text.Scan

/-! # Searching a window with words

Offsets and counts are kept in words, and a scan takes slices of a text and pieces of a slice. Here
the scan of a window is written with an `Arithmetic` that says what becomes of each result, and with
slices and pieces that fail where a list does not have them. With an arithmetic that counts exactly
as far as both bounds it never fails, however long the text is, and it finds what the scan with
integers finds.
-/

namespace Mentions

/-- What stops a computation with words and lists. -/
inductive Fault where
  /-- A result does not fit its word. -/
  | overflow
  /-- A slice is asked for that the list does not have. -/
  | outOfRange
  /-- Pieces of no units are asked for. -/
  | emptyPieces
  deriving DecidableEq, Repr

abbrev Checked (α : Type) := Except Fault α

theorem Checked.ok_bind {α β : Type} (x : α) (f : α → Checked β) : (Except.ok x >>= f) = f x := rfl

/-- The integers that a word holds. -/
structure Word where
  least : Int
  greatest : Int

namespace Word

/-- The word of recorded offsets. -/
def offset : Word := ⟨-2147483648, 2147483647⟩

/-- The word in which hints are computed. -/
def wide : Word := ⟨-9223372036854775808, 9223372036854775807⟩

/-- The word that counts units. -/
def count (greatest : Int) : Word := ⟨0, greatest⟩

def Holds (w : Word) (x : Int) : Prop := w.least ≤ x ∧ x ≤ w.greatest

instance (w : Word) (x : Int) : Decidable (w.Holds x) := inferInstanceAs (Decidable (_ ∧ _))

def convert? (w : Word) (x : Int) : Option Int := if w.Holds x then some x else none

def check (w : Word) (x : Int) : Checked Int := if w.Holds x then .ok x else .error .overflow

def clamp (w : Word) (x : Int) : Int := max w.least (min x w.greatest)

def wrap (w : Word) (x : Int) : Int := w.least + (x - w.least) % (w.greatest - w.least + 1)

variable {w : Word} {x : Int}

theorem convert?_of_holds (h : w.Holds x) : w.convert? x = some x := if_pos h

theorem check_of_holds (h : w.Holds x) : w.check x = .ok x := if_pos h

theorem clamp_of_holds (h : w.Holds x) : w.clamp x = x := by
  unfold clamp Holds at *
  omega

theorem wrap_of_holds (h : w.Holds x) : w.wrap x = x := by
  unfold wrap
  unfold Holds at h
  rw [Int.emod_eq_of_lt (by omega) (by omega)]
  omega

end Word

/-- How a search computes: what becomes of each result, given the exact one. -/
structure Arithmetic where
  /-- A sum of recorded offsets, which stops at the ends of its word. -/
  saturated : Int → Int
  /-- A sum or difference of wide integers. -/
  wide : Int → Checked Int
  /-- A count taken as a wide integer. -/
  widened : Int → Int
  /-- A sum or difference of counts. -/
  count : Int → Checked Int
  /-- An integer taken as a count, where it can be one. -/
  count? : Int → Option Int

namespace Arithmetic

/-- Words that fail on overflow. The greatest count depends on the machine. -/
def checked (greatest : Int) : Arithmetic where
  saturated := Word.offset.clamp
  wide := Word.wide.check
  widened := Word.wide.wrap
  count := (Word.count greatest).check
  count? := (Word.count greatest).convert?

/-- Words that go on at the other end on overflow. -/
def wrapping (greatest : Int) : Arithmetic :=
  { checked greatest with
    wide := fun x => .ok (Word.wide.wrap x)
    count := fun x => .ok ((Word.count greatest).wrap x) }

/-- Integers without bounds. -/
def unbounded : Arithmetic where
  saturated := id
  wide := .ok
  widened := id
  count := .ok
  count? := fun x => if 0 ≤ x then some x else none

/-- Counts up to `bound` are exact. -/
structure CountsTo (a : Arithmetic) (bound : Int) : Prop where
  count : ∀ x, (Word.count bound).Holds x → a.count x = .ok x
  count? : ∀ x, (Word.count bound).Holds x → a.count? x = some x

theorem CountsTo.mono {a : Arithmetic} {bound bound' : Int} (ha : a.CountsTo bound)
    (hle : bound' ≤ bound) : a.CountsTo bound' where
  count x h := ha.count x ⟨h.1, Int.le_trans h.2 hle⟩
  count? x h := ha.count? x ⟨h.1, Int.le_trans h.2 hle⟩

theorem countsTo_checked (greatest : Int) : (checked greatest).CountsTo greatest where
  count _ := Word.check_of_holds
  count? _ := Word.convert?_of_holds

theorem countsTo_wrapping (greatest : Int) : (wrapping greatest).CountsTo greatest where
  count _ h := congrArg Except.ok (Word.wrap_of_holds h)
  count? _ := Word.convert?_of_holds

theorem countsTo_unbounded (bound : Int) : unbounded.CountsTo bound where
  count _ _ := rfl
  count? _ h := if_pos h.1

/-- The arithmetic is exact as far as a search of a text goes that offsets can index. Only one past
the greatest offset may the sum of offsets stay at it. -/
structure Exact (a : Arithmetic) : Prop where
  saturated : ∀ x, Word.offset.Holds x → a.saturated x = x
  saturated_past : 2147483647 ≤ a.saturated 2147483648 ∧ a.saturated 2147483648 ≤ 2147483648
  wide : ∀ x, Word.wide.Holds x → a.wide x = .ok x
  widened : ∀ x, Word.wide.Holds x → a.widened x = x
  count : ∀ x, (Word.count 4294967295).Holds x → a.count x = .ok x
  count? : ∀ x, (Word.count 4294967295).Holds x → a.count? x = some x
  count?_neg : ∀ x < 0, a.count? x = none

theorem Exact.countsTo {a : Arithmetic} (ha : a.Exact) : a.CountsTo 4294967295 :=
  ⟨ha.count, ha.count?⟩

theorem exact_checked {greatest : Int} (hg : 4294967295 ≤ greatest) : (checked greatest).Exact where
  saturated _ := Word.clamp_of_holds
  saturated_past :=
    show 2147483647 ≤ Word.offset.clamp 2147483648 ∧ Word.offset.clamp 2147483648 ≤ 2147483648 by
      decide
  wide _ := Word.check_of_holds
  widened _ := Word.wrap_of_holds
  count := ((countsTo_checked greatest).mono hg).count
  count? := ((countsTo_checked greatest).mono hg).count?
  count?_neg _ hx := if_neg fun h => Int.not_le.mpr hx h.1

theorem exact_wrapping {greatest : Int} (hg : 4294967295 ≤ greatest) :
    (wrapping greatest).Exact :=
  { exact_checked hg with
    wide := fun _ h => congrArg Except.ok (Word.wrap_of_holds h)
    count := ((countsTo_wrapping greatest).mono hg).count }

theorem exact_unbounded : unbounded.Exact where
  saturated _ _ := rfl
  saturated_past := by decide
  wide _ _ := rfl
  widened _ _ := rfl
  count _ _ := rfl
  count? _ h := if_pos h.1
  count?_neg _ hx := if_neg (Int.not_le.mpr hx)

end Arithmetic

namespace Text

/-- The units from `start` up to `stop`. -/
def slice (units : List UInt16) (start stop : Int) : Checked (List UInt16) :=
  if 0 ≤ start ∧ start ≤ stop ∧ stop ≤ units.length then
    .ok ((units.take stop.toNat).drop start.toNat)
  else .error .outOfRange

/-- All pieces of so many units, in order. -/
def pieces (length : Nat) (units : List UInt16) : Checked (List (List UInt16)) :=
  if length = 0 then .error .emptyPieces
  else .ok ((List.range (units.length + 1 - length)).map fun i => (units.drop i).take length)

/-- Whether a piece agrees with a name of the same length. -/
def agrees (caseSensitive : Bool) (needle piece : List UInt16) : Bool :=
  (piece.zip needle).all fun (u, n) => sameUnit caseSensitive u n

/-- The least offset from `start` on where `needle` lies in `hay` and ends by `stop`. -/
def findWith (a : Arithmetic) (needle hay : List UInt16) (caseSensitive : Bool)
    (start stop : Int) : Checked (Option Int) :=
  if needle.isEmpty || start < 0 || stop < 0 then .ok none
  else
    match a.count? start, a.count? stop with
    | some start, some stop =>
      let stop := min stop hay.length
      if stop ≤ start then .ok none
      else do
        if (← a.count (stop - start)) < needle.length then return none
        let window ← slice hay start stop
        match (← pieces needle.length window).findIdx? (agrees caseSensitive needle) with
        | some place => return some (← a.count (place + start))
        | none => return none
    | _, _ => .ok none

variable {caseSensitive : Bool} {needle hay window : List UInt16} {a : Arithmetic}
  {start stop : Int} {i k : Nat}

theorem agrees_iff {piece : List UInt16} (hl : piece.length = needle.length) :
    agrees caseSensitive needle piece = true ↔
      List.Forall₂ (UnitsAgree caseSensitive) piece needle := by
  rw [List.forall₂_iff_zip, agrees, List.all_eq_true]
  simp [hl, sameUnit_iff]

variable (caseSensitive window) in
/-- The first piece that agrees with a name is where the name first begins. -/
theorem findIdx?_pieces (hn : needle ≠ []) :
    ∃ all, pieces needle.length window = .ok all ∧
      ((all.findIdx? (agrees caseSensitive needle) = none →
        ∀ k, beginsWith caseSensitive needle (window.drop k) = false) ∧
      ∀ k, all.findIdx? (agrees caseSensitive needle) = some k →
        beginsWith caseSensitive needle (window.drop k) = true ∧
          ∀ j < k, beginsWith caseSensitive needle (window.drop j) = false) := by
  have hlen := List.length_pos_iff.mpr hn
  refine ⟨_, if_neg (Nat.ne_of_gt hlen), ?_⟩
  have hpiece : ∀ i < window.length + 1 - needle.length,
      agrees caseSensitive needle ((window.drop i).take needle.length) =
        beginsWith caseSensitive needle (window.drop i) := by
    intro i hi
    rw [Bool.eq_iff_iff, beginsWith_iff, agrees_iff]
    rw [List.length_take, List.length_drop]
    omega
  have hshort : ∀ i, window.length + 1 - needle.length ≤ i →
      beginsWith caseSensitive needle (window.drop i) = false := by
    intro i hi
    rw [← Bool.not_eq_true, beginsWith_iff]
    intro h
    have hl := h.length_eq
    rw [List.length_take, List.length_drop] at hl
    omega
  constructor
  · intro hnone i
    rw [List.findIdx?_eq_none_iff] at hnone
    rcases Nat.lt_or_ge i (window.length + 1 - needle.length) with hi | hi
    · rw [← hpiece i hi]
      exact hnone _ (List.mem_map_of_mem (List.mem_range.mpr hi))
    · exact hshort i hi
  · intro k hk
    obtain ⟨hlt, hagrees, hfirst⟩ := List.findIdx?_eq_some_iff_getElem.mp hk
    simp only [List.length_map, List.length_range] at hlt
    simp only [List.getElem_map, List.getElem_range, Bool.not_eq_true] at hagrees hfirst
    refine ⟨hpiece k hlt ▸ hagrees, fun j hj => ?_⟩
    rw [← hpiece j (Nat.lt_trans hj hlt)]
    exact hfirst j hj

theorem slice_of_le (hs : 0 ≤ start) (hle : start ≤ min stop hay.length) :
    slice hay start (min stop hay.length) = .ok ((hay.take stop.toNat).drop start.toNat) := by
  have htake : hay.take (min stop hay.length).toNat = hay.take stop.toNat := by
    rw [List.take_eq_take_min (i := stop.toNat)]
    congr 1
    omega
  rw [slice, if_pos ⟨hs, hle, Int.min_le_right ..⟩, htake]

theorem find?_eq_none_of_beginsWith (hn : needle ≠ []) (hs : 0 ≤ start)
    (h : ∀ k, beginsWith caseSensitive needle
      (((hay.take stop.toNat).drop start.toNat).drop k) = false) :
    find? needle hay caseSensitive start stop = none := by
  rw [find?_eq_none_iff]
  intro i ho
  obtain ⟨k, -, hk⟩ := (occurs_iff_beginsWith hn hs).mp ho
  exact Bool.false_ne_true ((h k).symm.trans hk)

theorem find?_eq_some_of_beginsWith (hn : needle ≠ []) (hs : 0 ≤ start)
    (hk : beginsWith caseSensitive needle
      (((hay.take stop.toNat).drop start.toNat).drop k) = true)
    (hfirst : ∀ j < k, beginsWith caseSensitive needle
      (((hay.take stop.toNat).drop start.toNat).drop j) = false) :
    find? needle hay caseSensitive start stop = some (start.toNat + k) := by
  rw [find?_eq_some_iff, occurs_iff_beginsWith hn hs]
  refine ⟨⟨k, rfl, hk⟩, fun i hi ho => ?_⟩
  obtain ⟨j, rfl, hj⟩ := (occurs_iff_beginsWith hn hs).mp ho
  exact Bool.false_ne_true ((hfirst j (Nat.lt_of_add_lt_add_left hi)).symm.trans hj)

/-- Nothing is found in a window without room for it. -/
theorem find?_eq_none_of_no_room (h : min stop hay.length - start < needle.length) :
    find? needle hay caseSensitive start stop = none := by
  rw [find?_eq_none_iff]
  intro i ho
  have hstart := ho.start_le
  have hstop := ho.le_stop
  omega

/-- **The scan with words finds what the scan with integers finds, and never fails.** -/
theorem findWith_eq {bound : Int} (ha : a.CountsTo bound) (hstart : start ≤ bound)
    (hstop : stop ≤ bound) :
    findWith a needle hay caseSensitive start stop =
      .ok ((find? needle hay caseSensitive start stop).map Int.ofNat) := by
  by_cases hb : (needle.isEmpty || decide (start < 0) || decide (stop < 0)) = true
  · rw [findWith, if_pos hb, find?, if_pos hb]
    rfl
  rw [findWith, if_neg hb]
  simp only [Bool.or_eq_true, decide_eq_true_eq, List.isEmpty_iff, not_or, Int.not_lt] at hb
  obtain ⟨⟨hn, hs⟩, ht⟩ := hb
  have hpos := List.length_pos_iff.mpr hn
  have hcount (x : Int) (h0 : 0 ≤ x) (h : x ≤ bound) : a.count x = .ok x := ha.count x ⟨h0, h⟩
  rw [ha.count? start ⟨hs, hstart⟩, ha.count? stop ⟨ht, hstop⟩]
  dsimp only
  split
  · rw [find?_eq_none_of_no_room (by omega)]
    rfl
  rw [hcount _ (by omega) (by omega), Checked.ok_bind]
  split
  · rw [find?_eq_none_of_no_room (by omega)]
    rfl
  obtain ⟨all, hall, hnowhere, hsomewhere⟩ :=
    findIdx?_pieces caseSensitive ((hay.take stop.toNat).drop start.toNat) hn
  rw [slice_of_le hs (by omega), Checked.ok_bind, hall, Checked.ok_bind]
  split
  · rename_i place hplace
    obtain ⟨hk, hfirst⟩ := hsomewhere place hplace
    have hfound := find?_eq_some_of_beginsWith hn hs hk hfirst
    have hbound := (find?_eq_some_iff.mp hfound).1.le_stop
    rw [hcount _ (by omega) (by omega), hfound, Checked.ok_bind, Option.map_some,
      Int.ofNat_eq_natCast, Int.add_comm, Int.natCast_add, Int.toNat_of_nonneg hs]
    rfl
  · rename_i hplace
    rw [find?_eq_none_of_beginsWith hn hs (hnowhere hplace)]
    rfl

end Text
end Mentions
