import Mathlib.Data.List.Forall2
import Mentions.Json

/-! # Fields of records

What a reader gets from the members of an object: `Entry` says which value a field has that may be
absent or null, and fields written with `ofOption` or as 32-bit words are read back.
-/

namespace Mentions

namespace Json

def members? : Json → Option (List (String × Json))
  | object members => some members
  | _ => none

/-- What an object has under a name that does not repeat: nothing, where the name is absent or its
value is null, or else what its value is read as. -/
inductive Entry {α : Type} (decode : Json → Option α) (members : List (String × Json))
    (name : String) : Option α → Prop
  | absent (h : members.filter (·.1 == name) = []) : Entry decode members name none
  | null {key : String} (h : members.filter (·.1 == name) = [(key, .null)]) :
      Entry decode members name none
  | value {key : String} {v : Json} {a : α} (h : members.filter (·.1 == name) = [(key, v)])
      (hv : v ≠ .null) (hd : decode v = some a) : Entry decode members name (some a)

variable {α : Type} {decode : Json → Option α} {members : List (String × Json)} {name : String}

theorem nullable_of_ne_null {v : Json} (hv : v ≠ .null) :
    nullable decode (some v) = (decode v).map some := by
  cases v with
  | null => exact absurd rfl hv
  | _ => rfl

theorem nullable_eq_some_iff {v : Json} (hv : v ≠ .null) {o : Option α} :
    nullable decode (some v) = some o ↔ ∃ a, decode v = some a ∧ o = some a := by
  rw [nullable_of_ne_null hv, Option.map_eq_some_iff]
  simp only [eq_comm]

theorem exists_member?_iff_entry {o : Option α} :
    (∃ field, member? members name = some field ∧ nullable decode field = some o) ↔
      Entry decode members name o := by
  unfold member?
  constructor
  · rintro ⟨field, hm, hn⟩
    split at hm
    · rename_i h
      cases hm
      cases hn
      exact .absent h
    · rename_i key v h
      cases hm
      by_cases hv : v = .null
      · subst hv
        cases hn
        exact .null h
      · obtain ⟨a, hd, rfl⟩ := (nullable_eq_some_iff hv).mp hn
        exact .value h hv hd
    · cases hm
  · intro h
    cases h with
    | absent h => exact ⟨none, by rw [h], rfl⟩
    | null h => exact ⟨some .null, by rw [h], rfl⟩
    | @value key v a h hv hd =>
      exact ⟨some v, by rw [h], (nullable_eq_some_iff hv).mpr ⟨a, hd, rfl⟩⟩

/-- The fields of an object are its members of their names. -/
theorem fields?_object_eq_some_iff {names : List String} {fields : List (Option Json)} :
    fields? names (.object members) = some fields ↔
      List.Forall₂ (fun name field => member? members name = some field) names fields := by
  rw [fields?]
  induction names generalizing fields with
  | nil => simp [eq_comm]
  | cons name names ih =>
    simp only [List.mapM_cons, Option.pure_def, Option.bind_eq_bind, Option.bind_eq_some_iff, ih,
      List.forall₂_cons_left_iff]
    simp [eq_comm]

/-! ## Written fields -/

theorem nullable_ofOption {encode : α → Json} (hnull : ∀ a, encode a ≠ .null)
    (h : ∀ a, decode (encode a) = some a) (o : Option α) :
    nullable decode (some (ofOption encode o)) = some o := by
  cases o with
  | none => rfl
  | some a => rw [ofOption, nullable_of_ne_null (hnull a), h, Option.map_some]

theorem int32?_toInt (n : Int32) : int32? (.integer n.toInt) = some n := by
  have hlow := n.le_toInt
  have hhigh := n.toInt_lt
  have hin : -2147483648 ≤ n.toInt ∧ n.toInt ≤ 2147483647 := by omega
  simp [int32?, integerIn?, hin]

end Json
end Mentions
