import Mathlib.Data.Set.Basic
import Mathlib.Order.Bounds.Defs
import Mentions.Proofs.Text.Arithmetic
import Mentions.Proofs.Text.Boundary

/-! # The places of a name in a window

`places` are the offsets at which a name lies wholly in a window, with each unit compared by itself.
A scan between any two signed bounds finds the least of them, and nothing exactly when there are
none; half of a surrogate pair may stand alone in the name and in the text. A scan with words takes
no slice or piece that the text does not have.
-/

namespace Mentions.Text

/-- The offsets from `start` on at which all units of `needle` agree with those of `hay`, and end by
`stop`. -/
def places (caseSensitive : Bool) (needle hay : List UInt16) (start stop : Int) : Set Nat :=
  {i | start ≤ i ∧ (i + needle.length : Int) ≤ min stop hay.length ∧
    ∀ k < needle.length, ∃ u n, hay[i + k]? = some u ∧ needle[k]? = some n ∧
      UnitsAgree caseSensitive u n}

variable {caseSensitive : Bool} {needle hay : List UInt16} {start stop : Int} {i : Nat}

theorem readsAt_iff_unitsAgree :
    ReadsAt caseSensitive needle hay i ↔ ∀ k < needle.length, ∃ u n, hay[i + k]? = some u ∧
      needle[k]? = some n ∧ UnitsAgree caseSensitive u n := by
  refine ⟨fun h k hk => h.unitsAgree hk, fun h => ?_⟩
  have hlen : ((hay.drop i).take needle.length).length = needle.length := by
    rw [List.length_take, List.length_drop]
    rcases Nat.eq_zero_or_pos needle.length with hzero | hpos
    · omega
    · -- the last unit of the name has one of the text beside it
      obtain ⟨u, -, hu, -⟩ := h (needle.length - 1) (Nat.sub_one_lt_of_lt hpos)
      have hlast := (List.getElem?_eq_some_iff.mp hu).1
      omega
  refine List.forall₂_iff_get.mpr ⟨hlen, fun k hk hk' => ?_⟩
  obtain ⟨u, n, hu, hn, hun⟩ := h k hk'
  rw [← List.getElem?_drop, ← List.getElem?_take_of_lt hk', List.getElem?_eq_getElem hk] at hu
  rw [List.getElem?_eq_getElem hk'] at hn
  obtain rfl := Option.some.inj hu
  obtain rfl := Option.some.inj hn
  exact hun

theorem occurs_iff_mem_places :
    Occurs caseSensitive needle hay start stop i ↔
      needle ≠ [] ∧ 0 ≤ start ∧ 0 ≤ stop ∧ i ∈ places caseSensitive needle hay start stop := by
  constructor
  · intro ho
    have hstop := ho.le_stop
    exact ⟨ho.nonempty, ho.start_nonneg, by omega, ho.start_le, hstop,
      readsAt_iff_unitsAgree.mp ho.reads⟩
  · intro ⟨hn, hs, _, hstart, hstop, hunits⟩
    exact ⟨hn, hs, hstart, hstop, readsAt_iff_unitsAgree.mpr hunits⟩

theorem find?_eq_some_iff_isLeast :
    find? needle hay caseSensitive start stop = some i ↔
      needle ≠ [] ∧ 0 ≤ start ∧ 0 ≤ stop ∧
        IsLeast (places caseSensitive needle hay start stop) i := by
  rw [find?_eq_some_iff]
  constructor
  · intro ⟨ho, hfirst⟩
    obtain ⟨hn, hs, ht, hi⟩ := occurs_iff_mem_places.mp ho
    refine ⟨hn, hs, ht, hi, fun j hj => Nat.le_of_not_lt fun hlt => ?_⟩
    exact hfirst j hlt (occurs_iff_mem_places.mpr ⟨hn, hs, ht, hj⟩)
  · intro ⟨hn, hs, ht, hi, hleast⟩
    refine ⟨occurs_iff_mem_places.mpr ⟨hn, hs, ht, hi⟩, fun j hlt ho => ?_⟩
    exact Nat.not_le_of_lt hlt (hleast (occurs_iff_mem_places.mp ho).2.2.2)

theorem find?_eq_none_iff_places :
    find? needle hay caseSensitive start stop = none ↔
      needle = [] ∨ start < 0 ∨ stop < 0 ∨ places caseSensitive needle hay start stop = ∅ := by
  rw [find?_eq_none_iff, Set.eq_empty_iff_forall_notMem]
  constructor
  · intro hnone
    by_contra! hsome
    obtain ⟨hn, hs, ht, i, hi⟩ := hsome
    exact hnone i (occurs_iff_mem_places.mpr ⟨hn, hs, ht, hi⟩)
  · intro hno i ho
    obtain ⟨hn, hs, ht, hi⟩ := occurs_iff_mem_places.mp ho
    rcases hno with rfl | hs' | ht' | hempty
    · exact hn rfl
    · exact Int.not_le.mpr hs' hs
    · exact Int.not_le.mpr ht' ht
    · exact hempty i hi

/-- **The scan finds the least place of a name.** Between any two bounds of 64 bits it finds an
offset exactly when the name is not empty, no bound is negative and this is the least of its places;
and it finds nothing exactly when there is no such offset. Let counts be words that hold every bound
that is not negative. Then scanning with words, whether they fail or wrap on overflow, never fails
and finds the same: no result overflows, every slice lies in the text and no pieces of no units are
asked for. -/
theorem finds_least_place {greatest : Int} (hg : Int64.maxValue.toInt ≤ greatest)
    (caseSensitive : Bool) (needle hay : List UInt16) (start stop : Int64) :
    (∀ i, find? needle hay caseSensitive start.toInt stop.toInt = some i ↔
      needle ≠ [] ∧ 0 ≤ start.toInt ∧ 0 ≤ stop.toInt ∧
        IsLeast (places caseSensitive needle hay start.toInt stop.toInt) i) ∧
    (find? needle hay caseSensitive start.toInt stop.toInt = none ↔
      needle = [] ∨ start.toInt < 0 ∨ stop.toInt < 0 ∨
        places caseSensitive needle hay start.toInt stop.toInt = ∅) ∧
    ∀ a ∈ [Arithmetic.checked greatest, .wrapping greatest, .unbounded],
      findWith a needle hay caseSensitive start.toInt stop.toInt =
        .ok ((find? needle hay caseSensitive start.toInt stop.toInt).map Int.ofNat) := by
  have hcounts : ∀ a ∈ [Arithmetic.checked greatest, .wrapping greatest, .unbounded],
      a.CountsTo greatest := by
    simp only [List.forall_mem_cons]
    exact ⟨Arithmetic.countsTo_checked _, Arithmetic.countsTo_wrapping _,
      Arithmetic.countsTo_unbounded _, fun _ h => absurd h List.not_mem_nil⟩
  have hbound (x : Int64) : x.toInt ≤ greatest := Int.le_trans x.toInt_le hg
  exact ⟨fun _ => find?_eq_some_iff_isLeast, find?_eq_none_iff_places,
    fun a ha => findWith_eq (hcounts a ha) (hbound start) (hbound stop)⟩

/-- Half of a pair, then a name in capitals twice. -/
def Sample.shouted : List UInt16 := 0xD83D :: units "FOO FOO"

theorem sample_shouted_name_found :
    Int64.maxValue.toInt ≤ 18446744073709551615 ∧
    findWith (.checked 18446744073709551615) (units "foo") Sample.shouted false (1 : Int64).toInt
      Int64.maxValue.toInt = .ok (some 1) ∧
    IsLeast (places false (units "foo") Sample.shouted (1 : Int64).toInt Int64.maxValue.toInt) 1 ∧
    places true (units "foo") Sample.shouted (1 : Int64).toInt Int64.maxValue.toInt = ∅ := by
  have hg : Int64.maxValue.toInt ≤ 18446744073709551615 := by decide
  obtain ⟨hsome, -, hwords⟩ :=
    finds_least_place hg false (units "foo") Sample.shouted 1 Int64.maxValue
  obtain ⟨-, hnone, -⟩ := finds_least_place hg true (units "foo") Sample.shouted 1 Int64.maxValue
  have hfind : find? (units "foo") Sample.shouted false (1 : Int64).toInt Int64.maxValue.toInt =
      some 1 := by decide
  have hmiss : find? (units "foo") Sample.shouted true (1 : Int64).toInt Int64.maxValue.toInt =
      none := by decide
  refine ⟨hg, ?_, ((hsome 1).mp hfind).2.2.2, ?_⟩
  · rw [hwords _ List.mem_cons_self, hfind]
    rfl
  · rcases hnone.mp hmiss with h | h | h | hempty
    · exact absurd h (by decide)
    · exact absurd h (by decide)
    · exact absurd h (by decide)
    · exact hempty

end Mentions.Text
