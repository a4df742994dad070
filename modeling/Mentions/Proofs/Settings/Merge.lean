import Mentions.Proofs.Settings.Patch
import Mentions.Proofs.Text.Trim

/-! # Which value a setting ends with

Every payload offers two candidates, itself and what it has under the name of the settings section.
`FinalValue` says what a list of candidates makes of one field: the value in the last patch among
them that sets it, else the initial value. Merging payloads one after the other computes exactly
that for each of the five fields, and cleans the marker.
-/

namespace Mentions

/-- The value that a field ends with: that of the last patch among the candidates that sets it, or
the initial one if there is none. Candidates that are no patches do not count. -/
inductive FinalValue {α : Type} (field : Patch → Option α) (initial : α) (candidates : List Json) :
    α → Prop
  | set {front rest : List Json} {c : Json} {p : Patch} {a : α}
      (hc : candidates = front ++ c :: rest) (hp : p.IsIn c) (ha : field p = some a)
      (hlast : ∀ c' ∈ rest, ∀ p' : Patch, p'.IsIn c' → field p' = none) :
      FinalValue field initial candidates a
  | unset (h : ∀ c ∈ candidates, ∀ p : Patch, p.IsIn c → field p = none) :
      FinalValue field initial candidates initial

namespace FinalValue
variable {α β : Type} {field : Patch → Option α} {initial a b : α} {cs : List Json}

theorem nil : FinalValue field initial [] initial := .unset fun _ hc => nomatch hc

/-- One more candidate decides the field if it is a patch that sets it, and changes nothing else. -/
theorem snoc (h : FinalValue field initial cs a) (c : Json) :
    FinalValue field initial (cs ++ [c]) (((Patch.ofJson? c).bind field).getD a) := by
  cases hb : (Patch.ofJson? c).bind field with
  | some b =>
    obtain ⟨p, hp, ha⟩ := Option.bind_eq_some_iff.mp hb
    have hc : cs ++ [c] = cs ++ c :: [] := rfl
    exact .set hc (Patch.ofJson?_eq_some_iff.mp hp) ha nofun
  | none =>
    have hnone : ∀ p : Patch, p.IsIn c → field p = none := by
      intro p hp
      rw [Patch.ofJson?_eq_some_iff.mpr hp] at hb
      exact hb
    cases h with
    | @set front rest c' p a hc hp ha hlast =>
      have hc' : cs ++ [c] = front ++ c' :: (rest ++ [c]) := by simp [hc]
      refine .set hc' hp ha fun d hd => ?_
      rcases List.mem_append.mp hd with hd | hd
      · exact hlast d hd
      · rw [List.mem_singleton.mp hd]
        exact hnone
    | unset hunset =>
      refine .unset fun d hd => ?_
      rcases List.mem_append.mp hd with hd | hd
      · exact hunset d hd
      · rw [List.mem_singleton.mp hd]
        exact hnone

/-- What a field ends with, seen through a function of its values. -/
theorem of_map {g : α → β} {b : β}
    (h : FinalValue (fun p => (field p).map g) (g initial) cs b) :
    ∃ a, FinalValue field initial cs a ∧ b = g a := by
  cases h with
  | set hc hp hb hlast =>
    obtain ⟨a, ha, rfl⟩ := Option.map_eq_some_iff.mp hb
    refine ⟨a, .set hc hp ha ?_, rfl⟩
    intro c' hc' p' hp'
    exact Option.map_eq_none_iff.mp (hlast c' hc' p' hp')
  | unset hunset =>
    exact ⟨initial, .unset fun c hc p hp => Option.map_eq_none_iff.mp (hunset c hc p hp), rfl⟩

end FinalValue

namespace Settings

/-- The settings after payloads, each merged over what the ones before it left. -/
def ofPayloads : List Json → Settings
  | [] => ofPayload none
  | first :: rest => rest.foldl merge (ofPayload (some first))

/-- What an object has under the name of the settings section. -/
def scoped? : Json → Option Json
  | .object members => members.lookup "typeref-search"
  | _ => none

theorem candidates_eq (payload : Json) :
    candidates payload = payload :: (scoped? payload).toList := by
  cases payload with
  | object members =>
    cases h : members.lookup "typeref-search" <;> simp [candidates, scoped?, settingsKey, h]
  | _ => rfl

theorem ofPayloads_eq_foldl (payloads : List Json) :
    ofPayloads payloads = payloads.foldl merge .default := by
  cases payloads <;> rfl

/-! ## Markers -/

theorem unpadded_defaultMarker : Text.Unpadded defaultMarker := by
  intro c h
  rcases h with h | h <;> cases h <;> decide

theorem cleanMarker_ne_empty (marker : String) : cleanMarker marker ≠ "" := by
  rw [cleanMarker]
  by_cases h : Text.trim marker = ""
  · rw [if_pos h]
    decide
  · rwa [if_neg h]

theorem unpadded_cleanMarker (marker : String) : Text.Unpadded (cleanMarker marker) := by
  rw [cleanMarker]
  by_cases h : Text.trim marker = ""
  · rw [if_pos h]
    exact unpadded_defaultMarker
  · rw [if_neg h]
    exact Text.unpadded_trim marker

theorem cleanMarker_cleanMarker (marker : String) :
    cleanMarker (cleanMarker marker) = cleanMarker marker := by
  have htrim := Text.trim_of_unpadded (unpadded_cleanMarker marker)
  rw [cleanMarker, htrim, if_neg (cleanMarker_ne_empty marker)]

theorem marker_normalize (s : Settings) :
    s.normalize.alwaysAccurateMarker = cleanMarker s.alwaysAccurateMarker := by
  simp only [normalize]

/-- After any payloads the marker is a clean one. -/
theorem exists_marker_ofPayloads (payloads : List Json) :
    ∃ marker, (ofPayloads payloads).alwaysAccurateMarker = cleanMarker marker := by
  rw [ofPayloads_eq_foldl]
  suffices ∀ s : Settings, (∃ marker, s.alwaysAccurateMarker = cleanMarker marker) →
      ∃ marker, (payloads.foldl merge s).alwaysAccurateMarker = cleanMarker marker from
    this .default ⟨defaultMarker, by decide⟩
  induction payloads with
  | nil => exact fun s h => h
  | cons payload payloads ih =>
    intro s _
    exact ih (s.merge payload) ⟨_, marker_normalize _⟩

theorem cleanMarker_marker_ofPayloads (payloads : List Json) :
    cleanMarker (ofPayloads payloads).alwaysAccurateMarker =
      (ofPayloads payloads).alwaysAccurateMarker := by
  obtain ⟨marker, h⟩ := exists_marker_ofPayloads payloads
  rw [h, cleanMarker_cleanMarker]

/-! ## Fields -/

section
variable {α : Type} (read : Settings → α) (field : Patch → Option α)
  (happly : ∀ s p, read (s.apply p) = (field p).getD (read s))
include happly

theorem read_applyCandidate (s : Settings) (c : Json) :
    read (s.applyCandidate c) = ((Patch.ofJson? c).bind field).getD (read s) := by
  unfold applyCandidate
  cases Patch.ofJson? c with
  | none => rfl
  | some p => exact happly s p

theorem finalValue_applyCandidates {initial : α} {cs : List Json} {s : Settings}
    (h : FinalValue field initial cs (read s)) (more : List Json) :
    FinalValue field initial (cs ++ more) (read (more.foldl applyCandidate s)) := by
  induction more generalizing cs s with
  | nil => rwa [List.append_nil]
  | cons c more ih =>
    have hc := h.snoc c
    rw [← read_applyCandidate read field happly] at hc
    simpa using ih hc

/-- A field that cleaning leaves alone ends with its final value. -/
theorem finalValue_ofPayloads (hnormalize : ∀ s, read s.normalize = read s) (payloads : List Json) :
    FinalValue field (read .default) (payloads.flatMap candidates)
      (read (ofPayloads payloads)) := by
  rw [ofPayloads_eq_foldl]
  suffices ∀ cs s, FinalValue field (read .default) cs (read s) →
      FinalValue field (read .default) (cs ++ payloads.flatMap candidates)
        (read (payloads.foldl merge s)) from this [] _ .nil
  induction payloads with
  | nil =>
    intro cs s h
    simpa using h
  | cons payload payloads ih =>
    intro cs s h
    have hmerge : FinalValue field (read .default) (cs ++ candidates payload)
        (read (s.merge payload)) := by
      rw [merge, hnormalize]
      exact finalValue_applyCandidates read field happly h (candidates payload)
    simpa using ih _ _ hmerge

end

/-- The marker is cleaned after every payload, so only its clean value is kept track of. -/
theorem finalMarker_ofPayloads (payloads : List Json) :
    FinalValue (fun p => p.alwaysAccurateMarker.map cleanMarker) (cleanMarker defaultMarker)
      (payloads.flatMap candidates) (ofPayloads payloads).alwaysAccurateMarker := by
  have happly : ∀ s p, cleanMarker (apply s p).alwaysAccurateMarker =
      (p.alwaysAccurateMarker.map cleanMarker).getD (cleanMarker s.alwaysAccurateMarker) :=
    fun s p => (Option.getD_map cleanMarker _ _).symm
  have hnormalize : ∀ s : Settings, cleanMarker s.normalize.alwaysAccurateMarker =
      cleanMarker s.alwaysAccurateMarker := by
    intro s
    rw [marker_normalize, cleanMarker_cleanMarker]
  have hclean := finalValue_ofPayloads (fun s => cleanMarker s.alwaysAccurateMarker) _ happly
    hnormalize payloads
  rwa [cleanMarker_marker_ofPayloads payloads] at hclean

/-- **The last candidate that sets a setting decides it.** After payloads merged one after the
other, each field has the value in the last patch that sets it among the payloads and their settings
sections, or its default where no patch does. The marker has this value without blanks at either
end, or the default marker where nothing else is left. -/
theorem last_candidate_decides (payloads : List Json) :
    let candidates := payloads.flatMap fun payload => payload :: (scoped? payload).toList
    let s := ofPayloads payloads
    FinalValue (·.includeConstructors) false candidates s.includeConstructors ∧
      FinalValue (·.caseSensitive) false candidates s.caseSensitive ∧
      FinalValue (·.fallbackToOffsets) true candidates s.fallbackToOffsets ∧
      FinalValue (·.level) .info candidates s.level ∧
      ∃ marker trimmed, FinalValue (·.alwaysAccurateMarker) "refactoring" candidates marker ∧
        Text.TrimsTo marker trimmed ∧
        s.alwaysAccurateMarker = if trimmed = "" then "refactoring" else trimmed := by
  intro cs s
  have hcs : payloads.flatMap candidates = cs := List.flatMap_congr fun p _ => candidates_eq p
  rw [← hcs]
  have hconstructors := finalValue_ofPayloads Settings.includeConstructors
    Patch.includeConstructors (fun _ _ => rfl) (fun _ => by simp only [normalize]) payloads
  have hcase := finalValue_ofPayloads Settings.caseSensitive Patch.caseSensitive
    (fun _ _ => rfl) (fun _ => by simp only [normalize]) payloads
  have hfallback := finalValue_ofPayloads Settings.fallbackToOffsets Patch.fallbackToOffsets
    (fun _ _ => rfl) (fun _ => by simp only [normalize]) payloads
  have hlevel := finalValue_ofPayloads Settings.level Patch.level
    (fun _ _ => rfl) (fun _ => by simp only [normalize]) payloads
  obtain ⟨marker, hfinal, hmarker⟩ := (finalMarker_ofPayloads payloads).of_map
  refine ⟨hconstructors, hcase, hfallback, hlevel, marker, Text.trim marker, hfinal,
    Text.trimsTo_trim marker, ?_⟩
  rw [hmarker, cleanMarker, defaultMarker]

/-- A payload that is no patch itself still has its settings section read; the blank marker of a
later one brings the default back. -/
example :
    let inner := Json.object [("logging", .object [("level", .string "debug")]),
      ("accuracy", .object [("alwaysAccurateMarker", .string "tools")])]
    let blank := Json.object [("accuracy", .object [("alwaysAccurateMarker", .string " ")])]
    ofPayloads [.object [("logging", .bool true), ("typeref-search", inner)], blank] =
      { Settings.default with level := .debug } := by rfl

end Settings
end Mentions
