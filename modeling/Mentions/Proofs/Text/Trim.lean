import Mathlib.Data.List.TakeWhile
import Mentions.Settings

/-! # What trimming leaves

Trimming divides a text into blanks, a middle that neither begins nor ends with a blank, and blanks
again. A text that is such a middle already stays as it is.
-/

namespace Mentions.Text

/-- The text neither begins nor ends with a blank. -/
def Unpadded (t : String) : Prop :=
  ∀ c, t.toList.head? = some c ∨ t.toList.getLast? = some c → isBlank c = false

/-- The second text is the first without blanks at either end. -/
structure TrimsTo (s t : String) : Prop where
  around : ∃ front back : List Char, s.toList = front ++ t.toList ++ back ∧
    (∀ c ∈ front, isBlank c = true) ∧ ∀ c ∈ back, isBlank c = true
  unpadded : Unpadded t

theorem not_isBlank_of_head?_dropWhile {cs : List Char} {c : Char}
    (h : (cs.dropWhile isBlank).head? = some c) : isBlank c = false := by
  have hnot := List.head?_dropWhile_not isBlank cs
  rwa [h] at hnot

theorem dropWhile_isBlank_of_head? {cs : List Char}
    (h : ∀ c, cs.head? = some c → isBlank c = false) : cs.dropWhile isBlank = cs := by
  cases cs with
  | nil => rfl
  | cons c cs => simp [h c rfl]

/-- The middle and the blanks after it, of a text without blanks in front. -/
theorem eq_trimmed_append (cs : List Char) :
    cs.dropWhile isBlank =
      trimChars cs ++ ((cs.dropWhile isBlank).reverse.takeWhile isBlank).reverse := by
  rw [trimChars, ← List.reverse_append, List.takeWhile_append_dropWhile, List.reverse_reverse]

theorem unpadded_trim (s : String) : Unpadded (trim s) := by
  intro c h
  rw [trim, String.toList_ofList] at h
  rcases h with h | h
  · -- the middle begins where the text without blanks in front begins
    have hhead : (s.toList.dropWhile isBlank).head? = some c := by
      rw [eq_trimmed_append, List.head?_append, h]
      rfl
    exact not_isBlank_of_head?_dropWhile hhead
  · rw [trimChars, List.getLast?_reverse] at h
    exact not_isBlank_of_head?_dropWhile h

theorem trimsTo_trim (s : String) : TrimsTo s (trim s) := by
  refine ⟨⟨s.toList.takeWhile isBlank,
    ((s.toList.dropWhile isBlank).reverse.takeWhile isBlank).reverse, ?_, ?_, ?_⟩, unpadded_trim s⟩
  · rw [trim, String.toList_ofList, List.append_assoc, ← eq_trimmed_append,
      List.takeWhile_append_dropWhile]
  · intro c hc
    exact List.mem_takeWhile_imp hc
  · intro c hc
    exact List.mem_takeWhile_imp (List.mem_reverse.mp hc)

theorem trim_of_unpadded {t : String} (h : Unpadded t) : trim t = t := by
  have hfront : t.toList.dropWhile isBlank = t.toList :=
    dropWhile_isBlank_of_head? fun c hc => h c (.inl hc)
  have hback : t.toList.reverse.dropWhile isBlank = t.toList.reverse :=
    dropWhile_isBlank_of_head? fun c hc => h c (.inr (by rwa [List.head?_reverse] at hc))
  rw [trim, trimChars, hfront, hback, List.reverse_reverse, String.ofList_toList]

end Mentions.Text
