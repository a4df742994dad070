import Mentions.Proofs.Json.Fields
import Mentions.Settings.Patch

/-! # Which values are patches

A value is a patch of the settings if it is an object in which each section is absent, null or an
object, and in these each field is absent, null or of its own type. Nothing is asked of members with
other names, and there is no other way to be a patch.
-/

namespace Mentions

namespace Patch

open Json (Entry)

/-- The candidate is the patch: an object of objects, with the fields of the patch in them. -/
def IsIn (p : Patch) (candidate : Json) : Prop :=
  ∃ members matching textSearch accuracy logging, candidate = .object members ∧
    Entry Json.members? members "matching" matching ∧
    Entry Json.members? members "textSearch" textSearch ∧
    Entry Json.members? members "accuracy" accuracy ∧
    Entry Json.members? members "logging" logging ∧
    Entry Json.bool? (matching.getD []) "includeConstructors" p.includeConstructors ∧
    Entry Json.bool? (textSearch.getD []) "caseSensitive" p.caseSensitive ∧
    Entry Json.bool? (textSearch.getD []) "fallbackToAstOffsets" p.fallbackToOffsets ∧
    Entry Json.string? (accuracy.getD []) "alwaysAccurateMarker" p.alwaysAccurateMarker ∧
    Entry level? (logging.getD []) "level" p.level

/-- An absent section is read as one without members. -/
theorem sectionFields?_eq_some_iff {names : List String} {field : Option Json}
    {fields : List (Option Json)} :
    sectionFields? names field = some fields ↔
      ∃ inner, Json.nullable Json.members? field = some inner ∧
        Json.fields? names (.object (inner.getD [])) = some fields := by
  have hnone : Json.fields? names (.object []) = some (names.map fun _ => none) := by
    rw [Json.fields?_object_eq_some_iff]
    induction names with
    | nil => exact .nil
    | cons name names ih => exact .cons rfl ih
  rcases field with _ | v
  · simp [sectionFields?, Json.nullable, hnone]
  · cases v with
    | null => simp [sectionFields?, Json.nullable, hnone]
    | object members => simp [sectionFields?, Json.nullable, Json.members?]
    | _ => simp [sectionFields?, Json.nullable, Json.members?]

/-- A section of an object with its fields, read at once. -/
theorem exists_sectionFields?_iff {members : List (String × Json)} {name : String}
    {names : List String} {fields : List (Option Json)} :
    (∃ field, Json.member? members name = some field ∧ sectionFields? names field = some fields) ↔
      ∃ inner, Entry Json.members? members name inner ∧
        List.Forall₂ (fun name field => Json.member? (inner.getD []) name = some field)
          names fields := by
  simp only [sectionFields?_eq_some_iff, Json.fields?_object_eq_some_iff,
    ← Json.exists_member?_iff_entry]
  constructor
  · rintro ⟨field, hm, inner, hn, hf⟩
    exact ⟨inner, ⟨field, hm, hn⟩, hf⟩
  · rintro ⟨inner, ⟨field, hm, hn⟩, hf⟩
    exact ⟨field, hm, inner, hn, hf⟩

/-- **A value is read as a patch exactly when it is that patch.** -/
theorem ofJson?_eq_some_iff {candidate : Json} {p : Patch} :
    ofJson? candidate = some p ↔ p.IsIn candidate := by
  constructor
  · intro h
    unfold ofJson? at h
    split at h
    · rename_i members
      split at h
      · rename_i matching textSearch accuracy logging hf
        rw [Json.fields?_object_eq_some_iff] at hf
        simp only [List.forall₂_cons, List.forall₂_nil_left_iff] at hf
        obtain ⟨hm, ht, ha, hl, -⟩ := hf
        split at h
        · rename_i constructors caseSensitive fallback marker level hms hts has hls
          obtain ⟨mi, hme, hmf⟩ := exists_sectionFields?_iff.mp ⟨_, hm, hms⟩
          obtain ⟨ti, hte, htf⟩ := exists_sectionFields?_iff.mp ⟨_, ht, hts⟩
          obtain ⟨ai, hae, haf⟩ := exists_sectionFields?_iff.mp ⟨_, ha, has⟩
          obtain ⟨li, hle, hlf⟩ := exists_sectionFields?_iff.mp ⟨_, hl, hls⟩
          simp only [List.forall₂_cons, List.forall₂_nil_left_iff, and_true] at hmf htf haf hlf
          simp only [Option.bind_eq_bind, Option.bind_eq_some_iff, Option.pure_def,
            Option.some.injEq] at h
          obtain ⟨_, hc, _, hcs, _, hfb, _, hmk, _, hlv, rfl⟩ := h
          exact ⟨members, mi, ti, ai, li, rfl, hme, hte, hae, hle,
            Json.exists_member?_iff_entry.mp ⟨_, hmf, hc⟩,
            Json.exists_member?_iff_entry.mp ⟨_, htf.1, hcs⟩,
            Json.exists_member?_iff_entry.mp ⟨_, htf.2, hfb⟩,
            Json.exists_member?_iff_entry.mp ⟨_, haf, hmk⟩,
            Json.exists_member?_iff_entry.mp ⟨_, hlf, hlv⟩⟩
        · cases h
      · cases h
    · cases h
  · rintro ⟨members, mi, ti, ai, li, rfl, hme, hte, hae, hle, hc, hcs, hfb, hmk, hlv⟩
    obtain ⟨constructors, hcm, hc⟩ := Json.exists_member?_iff_entry.mpr hc
    obtain ⟨caseSensitive, hcsm, hcs⟩ := Json.exists_member?_iff_entry.mpr hcs
    obtain ⟨fallback, hfbm, hfb⟩ := Json.exists_member?_iff_entry.mpr hfb
    obtain ⟨marker, hmkm, hmk⟩ := Json.exists_member?_iff_entry.mpr hmk
    obtain ⟨level, hlvm, hlv⟩ := Json.exists_member?_iff_entry.mpr hlv
    obtain ⟨matching, hm, hms⟩ := exists_sectionFields?_iff.mpr ⟨mi, hme, .cons hcm .nil⟩
    obtain ⟨textSearch, ht, hts⟩ :=
      exists_sectionFields?_iff.mpr ⟨ti, hte, .cons hcsm (.cons hfbm .nil)⟩
    obtain ⟨accuracy, ha, has⟩ := exists_sectionFields?_iff.mpr ⟨ai, hae, .cons hmkm .nil⟩
    obtain ⟨logging, hl, hls⟩ := exists_sectionFields?_iff.mpr ⟨li, hle, .cons hlvm .nil⟩
    have hf : Json.fields? ["matching", "textSearch", "accuracy", "logging"] (.object members) =
        some [matching, textSearch, accuracy, logging] :=
      Json.fields?_object_eq_some_iff.mpr (.cons hm (.cons ht (.cons ha (.cons hl .nil))))
    simp [ofJson?, hf, hms, hts, has, hls, hc, hcs, hfb, hmk, hlv]

end Patch

end Mentions
