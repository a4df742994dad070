import Mathlib.Data.List.Basic
import Mentions.Path

/-! # Plain spellings of paths

A path may be spelled with segments that count for nothing. Its plain spelling has none of them and
is a spelling of the same path, so paths are the same exactly when their plain spellings are equal.
-/

namespace Mentions.Path

theorem segments_eq_splitOn (cs : List Char) : segments cs = cs.splitOn '/' := by
  induction cs with
  | nil => rfl
  | cons c cs ih =>
    rw [segments, ih, List.splitOn_eq_splitOnP, List.splitOn_eq_splitOnP,
      List.splitOnP_cons_eq_if_modifyHead]
    by_cases hc : c = '/'
    · simp [hc]
    · rw [if_neg hc, if_neg (by simpa using hc)]
      cases hs : cs.splitOnP (· == '/') with
      | nil => exact absurd hs (List.splitOnP_ne_nil _ _)
      | cons => rfl

theorem slash_not_mem_segments {cs s : List Char} (hs : s ∈ segments cs) : '/' ∉ s := by
  induction cs generalizing s with
  | nil =>
    obtain rfl := List.mem_singleton.mp hs
    exact List.not_mem_nil
  | cons c cs ih =>
    unfold segments at hs
    split at hs
    · rcases List.mem_cons.mp hs with rfl | hs
      · exact List.not_mem_nil
      · exact ih hs
    · rename_i hc
      split at hs
      · obtain rfl := List.mem_singleton.mp hs
        simpa using Ne.symm hc
      · rename_i t rest ht
        rcases List.mem_cons.mp hs with rfl | hs
        · have hin : t ∈ segments cs := by rw [ht]; exact List.mem_cons_self
          simp [Ne.symm hc, ih hin]
        · exact ih (by rw [ht]; exact List.mem_cons_of_mem _ hs)

theorem slash_not_mem_body {cs s : List Char} (hs : s ∈ (Parts.ofChars cs).body) : '/' ∉ s := by
  unfold Parts.ofChars at hs
  split at hs
  · exact slash_not_mem_segments hs
  · obtain rfl := List.mem_singleton.mp hs
    exact List.not_mem_nil
  · exact slash_not_mem_segments hs
  · exact slash_not_mem_segments hs

/-! ## Spelling components -/

/-- The text that consists of a beginning and of the segments. -/
def spell (head : Head) (body : List (List Char)) : List Char :=
  head.text ++ ['/'].intercalate (if head = .here then [] :: body else body)

/-- The spelling of the path without segments that count for nothing. -/
def plain (path : String) : String :=
  String.ofList (spell (components path).1 (components path).2)

/-- Segments that can be those of a path, and that all count. -/
def AllCount (body : List (List Char)) : Prop := ∀ s ∈ body, counts s = true ∧ '/' ∉ s

theorem segments_intercalate_of_not_mem {body : List (List Char)} (h : ∀ s ∈ body, '/' ∉ s)
    (hne : body ≠ []) : segments (['/'].intercalate body) = body := by
  rw [segments_eq_splitOn]
  exact List.splitOn_intercalate '/' h hne

theorem segments_intercalate {body : List (List Char)} (h : AllCount body) (hne : body ≠ []) :
    segments (['/'].intercalate body) = body :=
  segments_intercalate_of_not_mem (fun s hs => (h s hs).2) hne

theorem filter_segments_intercalate {body : List (List Char)} (h : AllCount body) :
    (segments (['/'].intercalate body)).filter counts = body := by
  by_cases hne : body = []
  · rw [hne]; rfl
  · rw [segments_intercalate h hne]
    exact List.filter_eq_self.mpr fun s hs => (h s hs).1

/-- A text whose first segment counts begins with a name. -/
theorem ofChars_of_counts {cs s : List Char} {rest : List (List Char)}
    (hs : segments cs = s :: rest) (hc : counts s = true) :
    Parts.ofChars cs = ⟨.name, segments cs⟩ := by
  unfold Parts.ofChars
  split
  · cases hs; cases hc
  · cases hs; cases hc
  · cases hs; cases hc
  · rfl

theorem ofChars_spell (head : Head) {body : List (List Char)} (h : AllCount body) :
    (Parts.ofChars (spell head body)).head = head ∧
      (Parts.ofChars (spell head body)).body.filter counts = body := by
  cases head with
  | root => exact ⟨rfl, filter_segments_intercalate h⟩
  | here =>
    cases body with
    | nil => exact ⟨rfl, rfl⟩
    | cons s rest =>
      -- an empty segment stands between the dot and the first slash
      have htext : spell .here (s :: rest) = '.' :: '/' :: ['/'].intercalate (s :: rest) := by
        simp [spell, Head.text, List.intercalate_cons_cons]
      have hbody := filter_segments_intercalate h
      rw [htext]
      refine ⟨rfl, ?_⟩
      change (segments ('/' :: ['/'].intercalate (s :: rest))).filter counts = s :: rest
      rw [segments, if_pos rfl, List.filter_cons_of_neg (by decide), hbody]
  | name =>
    cases body with
    | nil => exact ⟨rfl, rfl⟩
    | cons s rest =>
      have htext : spell .name (s :: rest) = ['/'].intercalate (s :: rest) := rfl
      have hsegments := segments_intercalate h (List.cons_ne_nil s rest)
      rw [htext, ofChars_of_counts hsegments (h s List.mem_cons_self).1]
      exact ⟨rfl, filter_segments_intercalate h⟩

/-- A plain spelling has the components of its path. -/
theorem components_plain (path : String) : components (plain path) = components path := by
  have h : AllCount (components path).2 := by
    intro s hs
    obtain ⟨hin, hc⟩ := List.mem_filter.mp hs
    exact ⟨hc, slash_not_mem_body hin⟩
  obtain ⟨hhead, hbody⟩ := ofChars_spell (components path).1 h
  rw [components, parts, plain, String.toList_ofList, hhead, hbody]

/-- **Paths are the same exactly when their plain spellings are equal.** -/
theorem same_iff_plain_eq {a b : String} : same a b = true ↔ plain a = plain b := by
  rw [same, beq_iff_eq]
  constructor
  · intro h
    rw [plain, h, plain]
  · intro h
    rw [← components_plain a, h, components_plain]

end Mentions.Path
