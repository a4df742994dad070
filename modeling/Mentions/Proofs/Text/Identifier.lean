import Mentions.Proofs.Text.Boundary

/-! # Identifiers in a text

A name unit may agree without case with a unit that is none, the Kelvin sign, but the lowercase of
that is one. So near an identifier, the unit after it included, a name stands only inside it.
-/

namespace Mentions.Text

/-- The units of identifiers: ASCII letters and digits, the underscore and the dollar sign. -/
def isNameUnit (u : UInt16) : Bool :=
  let n := u.toNat
  (0x30 ≤ n && n ≤ 0x39) || (0x41 ≤ n && n ≤ 0x5A) || (0x61 ≤ n && n ≤ 0x7A) || n == 0x5F ||
    n == 0x24

def nameUnitAt (us : List UInt16) (k : Nat) : Bool := us[k]?.any isNameUnit

/-- A name that is spelled in the units of identifiers. -/
def IsName (w : String) : Prop := w ≠ "" ∧ ∀ u ∈ units w, isNameUnit u = true

/-- An identifier from one offset up to another; in neither case mode can a name go on with the
unit after it. -/
structure IdentifierAt (us : List UInt16) (first stop : Nat) : Prop where
  inside : ∀ k, first ≤ k → k < stop → nameUnitAt us k = true
  before : ∀ k, k + 1 = first → nameUnitAt us k = false
  after : ∀ u, us[stop]? = some u → isNameUnit (lower u) = false

/-! ## Name units under comparison without case -/

theorem isNameUnit_lower_ascii :
    ∀ n < 0x80, isNameUnit n.toUInt16 = true → isNameUnit (lower n.toUInt16) = true := by
  decide +kernel

theorem isNameUnit_lower {u : UInt16} (h : isNameUnit u = true) : isNameUnit (lower u) = true := by
  have hlt : u.toNat < 0x80 := by
    simp only [isNameUnit, Bool.or_eq_true, Bool.and_eq_true, decide_eq_true_eq, beq_iff_eq] at h
    omega
  have hu : u.toNat.toUInt16 = u := UInt16.ofNat_toNat
  have hl := isNameUnit_lower_ascii u.toNat hlt
  rw [hu] at hl
  exact hl h

theorem UnitsAgree.symm {caseSensitive : Bool} {a b : UInt16} (h : UnitsAgree caseSensitive a b) :
    UnitsAgree caseSensitive b a := by
  cases caseSensitive with
  | true => exact Eq.symm h
  | false => exact Eq.symm h

/-- What agrees with a name unit has the lowercase of one. -/
theorem UnitsAgree.isNameUnit_lower {caseSensitive : Bool} {a b : UInt16}
    (h : UnitsAgree caseSensitive a b) (hb : isNameUnit b = true) :
    isNameUnit (lower a) = true := by
  cases caseSensitive with
  | true =>
    obtain rfl : a = b := h
    exact Text.isNameUnit_lower hb
  | false =>
    have hl : lower a = lower b := h
    rw [hl]
    exact Text.isNameUnit_lower hb

/-! ## Names in an identifier -/

theorem IsName.units_ne_nil {w : String} (hw : IsName w) : units w ≠ [] :=
  Text.units_ne_nil hw.1

variable {caseSensitive : Bool} {us : List UInt16} {first stop i : Nat}

/-- Near an identifier a name stands only inside it. -/
theorem IdentifierAt.occurs_iff {w : String} (hid : IdentifierAt us first stop) (hw : IsName w) :
    Occurs caseSensitive (units w) us first (stop + 1) i ↔
      first ≤ i ∧ i + unitLength w ≤ stop ∧ ReadsAt caseSensitive (units w) us i := by
  have hpos : 0 < (units w).length := List.length_pos_iff.mpr hw.units_ne_nil
  unfold unitLength
  constructor
  · intro ho
    have hstart := ho.start_le
    have hstop := ho.le_stop
    refine ⟨by omega, ?_, ho.reads⟩
    by_contra hout
    -- the name would end with the unit after the identifier
    have hlast : i + ((units w).length - 1) = stop := by omega
    obtain ⟨a, b, ha, hb, hab⟩ := ho.reads.unitsAgree (show (units w).length - 1 < _ by omega)
    rw [hlast] at ha
    have hname := hab.isNameUnit_lower (hw.2 b (List.mem_of_getElem? hb))
    rw [hid.after a ha] at hname
    cases hname
  · intro ⟨hstart, hstop, hr⟩
    exact occurs_iff_readsAt.mpr ⟨hw.units_ne_nil, by omega, by omega, by omega, hr⟩

/-- What has a dot before its last unit does not stand near an identifier. -/
theorem IdentifierAt.not_occurs_dotted {front back : List UInt16}
    (hid : IdentifierAt us first stop) (hb : back ≠ []) :
    ¬ Occurs caseSensitive (front ++ 0x2E :: back) us first (stop + 1) i := by
  intro ho
  have hpos : 0 < back.length := List.length_pos_iff.mpr hb
  have hlen : (front ++ 0x2E :: back).length = front.length + (back.length + 1) := by simp
  have hstart := ho.start_le
  have hstop := ho.le_stop
  obtain ⟨a, b, ha, hdot, hab⟩ := ho.reads.unitsAgree (show front.length < _ by omega)
  obtain rfl : 0x2E = b := by simpa using hdot
  have hin := hid.inside (i + front.length) (by omega) (by omega)
  rw [nameUnitAt, ha] at hin
  -- the dot would agree with a unit of the identifier
  have hl := hab.symm.isNameUnit_lower (show isNameUnit a = true from hin)
  exact absurd hl (by decide)

end Mentions.Text
