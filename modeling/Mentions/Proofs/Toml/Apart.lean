import Mentions.Proofs.Json.Opening
import Mentions.Toml.Reader
import Mentions.Visit.Dump

/-! # No settings file is a dump

After the brackets that open a header a key has to follow. The brackets that open a dump are
followed by brackets and braces, with which no key begins, so no text is both.
-/

namespace Mentions

namespace Toml

open Json (Leads OpensNested)
open Json.Scan (isSpace)

variable {c b : Char} {cs after rest : List Char}

theorem isSpace_of_isBlank (h : isBlank b = true) : isSpace b = true := by
  simp only [isBlank, Bool.or_eq_true, decide_eq_true_eq] at h
  obtain rfl | rfl := h <;> rfl

/-- After the blanks of a line comes the first character that is no space, or the line ends. -/
theorem skipBlanks_of_leads (h : Leads cs c after) (hc : isSpace c = false) :
    skipBlanks cs = c :: after ∨
      ∃ b rest, (b = '\n' ∨ b = '\r') ∧ skipBlanks cs = b :: rest ∧ Leads rest c after := by
  induction cs with
  | nil =>
    obtain ⟨blank, -, heq⟩ := h
    simp at heq
  | cons b cs ih =>
    rw [skipBlanks, List.dropWhile_cons]
    by_cases hb : isBlank b = true
    · rw [if_pos hb]
      obtain ⟨rfl, -⟩ | ⟨-, hrest⟩ := h.cases_cons
      · rw [isSpace_of_isBlank hb] at hc
        cases hc
      · exact ih hrest
    · rw [if_neg hb]
      obtain ⟨rfl, rfl⟩ | ⟨hspace, hrest⟩ := h.cases_cons
      · exact .inl rfl
      · refine .inr ⟨b, cs, ?_, rfl, hrest⟩
        simp only [isSpace, isBlank, Bool.or_eq_true, decide_eq_true_eq] at hspace hb
        tauto

/-! ## Keys -/

/-- The characters that stand where a key would have to begin. -/
def Bracket (c : Char) : Prop := c = '[' ∨ c = ']' ∨ c = '\x7b'

theorem not_isSpace_of_bracket (h : Bracket c) : isSpace c = false := by
  obtain rfl | rfl | rfl := h <;> rfl

theorem keyPart?_eq_none (h : Bracket b ∨ b = '\n' ∨ b = '\r') : keyPart? (b :: rest) = none := by
  obtain (rfl | rfl | rfl) | rfl | rfl := h <;> rfl

theorem key?_eq_none (h : Leads cs c after) (hc : Bracket c) : key? cs = none := by
  have hpart : keyPart? (skipBlanks cs) = none := by
    obtain hskip | ⟨b, rest, hb, hskip, -⟩ := skipBlanks_of_leads h (not_isSpace_of_bracket hc)
    · rw [hskip, keyPart?_eq_none (.inl hc)]
    · rw [hskip, keyPart?_eq_none (.inr hb)]
  have hparts : ∀ n, keyParts? n cs = none := by
    intro n
    cases n with
    | zero => rfl
    | succ n => rw [keyParts?, hpart]; rfl
  rw [key?, hparts]
  rfl

/-! ## Documents -/

/-- Neither a header nor the header of an array of tables begins with such a bracket. -/
theorem key?_after_bracket (h : OpensNested ('[' :: cs)) :
    key? cs = none ∧ ∀ inner, cs = '[' :: inner → key? inner = none := by
  cases h with
  | shallow hlead hc hfirst =>
    obtain rfl := hlead.eq_of_bracket
    refine ⟨key?_eq_none hc (.inr hfirst), ?_⟩
    rintro inner rfl
    obtain ⟨rfl, -⟩ | ⟨hspace, -⟩ := hc.cases_cons
    · obtain hfirst | hfirst := hfirst <;> cases hfirst
    · cases hspace
  | deep hlead hinner hc hfirst =>
    obtain rfl := hlead.eq_of_bracket
    refine ⟨key?_eq_none hinner (.inl rfl), ?_⟩
    rintro inner rfl
    obtain rfl := hinner.eq_of_bracket
    exact key?_eq_none hc hfirst

theorem line?_eq_none {d : Document} (h : OpensNested ('[' :: cs)) :
    d.line? ('[' :: cs) = none := by
  obtain ⟨hkey, hinner⟩ := key?_after_bracket h
  unfold Document.line?
  split
  · rename_i inner heq
    rw [hinner inner (List.cons.inj heq).2]
    rfl
  · rename_i heq
    rw [← (List.cons.inj heq).2, hkey]
    rfl
  · rename_i hother
    exact absurd rfl (hother cs)

theorem lines?_eq_none (n : Nat) {d : Document} (h : OpensNested cs) : d.lines? n cs = none := by
  induction n generalizing cs with
  | zero => rfl
  | succ n ih =>
    obtain ⟨after, hlead, hopen⟩ := h.leads
    rw [Document.lines?]
    obtain hskip | ⟨b, rest, hb, hskip, hrest⟩ := skipBlanks_of_leads hlead rfl
    · simp [hskip, line?_eq_none hopen]
    · obtain rfl | rfl := hb
      · have hnext : d.lines? n rest = none := ih (hopen.of_leads hrest)
        have hend : lineEnd? ('\n' :: rest) = some rest := rfl
        simp [hskip, hend, hnext]
      · -- a carriage return ends a line only together with the line feed after it
        have hend : lineEnd? ('\r' :: rest) = newline? ('\r' :: rest) := rfl
        cases rest with
        | nil => simp [hskip, hend, newline?]
        | cons b rest =>
          by_cases hfeed : b = '\n'
          · subst hfeed
            obtain ⟨hbracket, -⟩ | ⟨-, hrest⟩ := hrest.cases_cons
            · cases hbracket
            · have hnext : d.lines? n rest = none := ih (hopen.of_leads hrest)
              simp [hskip, hend, newline?, hnext]
          · simp [hskip, hend, newline?, hfeed]

theorem parse?_eq_none {text : String} (h : OpensNested text.toList) : parse? text = none := by
  obtain ⟨after, hlead, -⟩ := h.leads
  cases hcs : text.toList with
  | nil =>
    obtain ⟨blank, -, heq⟩ := hlead
    simp [hcs] at heq
  | cons c rest =>
    rw [hcs] at h hlead
    have hc : c.toNat ≠ 0xFEFF := by
      obtain ⟨rfl, -⟩ | ⟨hspace, -⟩ := hlead.cases_cons
      · decide
      · simp only [isSpace, Bool.or_eq_true, decide_eq_true_eq] at hspace
        obtain ((rfl | rfl) | rfl) | rfl := hspace <;> decide
    simp only [parse?, hcs, if_neg hc, lines?_eq_none _ h]
    rfl

end Toml

namespace Visit

theorem not_flat_of_ofJson? {v : Json} {visit : Visit} (h : ofJson? v = some visit) : ¬ v.Flat := by
  intro hflat
  cases v with
  | array items => exact hflat
  | object members => exact hflat
  | _ => cases h

theorem not_flat_of_ofJson?_array {v : Json} {more : List Json} {visit : Visit}
    (h : ofJson? (.array (v :: more)) = some visit) : ¬ v.Flat := by
  intro hflat
  have hnode : Node.ofJson? v = none := by
    unfold Node.ofJson?
    cases v with
    | array items => exact hflat.elim
    | object members => exact hflat.elim
    | _ => simp
  have hfields : ∀ fields, Json.fields? ["node", "result", "element"] (.array (v :: more)) =
      some fields → fields.head? = some (some v) := by
    intro fields hfields
    simp only [Json.fields?] at hfields
    split_ifs at hfields
    cases hfields
    rfl
  unfold ofJson? at h
  split at h
  · rename_i node result element hf
    obtain rfl : node = some v := Option.some.inj (hfields _ hf)
    simp [Json.required, hnode] at h
  · cases h

end Visit

namespace Dump

theorem opensNested_of_parse? {text : String} {visits : List Visit}
    (h : parse? text = some visits) : Json.OpensNested text.toList := by
  obtain ⟨v, hv, hvalue⟩ := Option.bind_eq_some_iff.mp h
  obtain ⟨items, hitems, hvisits⟩ := Option.bind_eq_some_iff.mp hvalue
  obtain rfl : v = .array items := by
    cases v <;> cases hitems
    rfl
  have hhead : ∀ v, items.head? = some v → ∃ visit, Visit.ofJson? v = some visit := by
    intro v hv
    obtain ⟨rest, rfl⟩ := List.head?_eq_some_iff.mp hv
    rw [List.mapM_cons] at hvisits
    obtain ⟨visit, hvisit, -⟩ := Option.bind_eq_some_iff.mp hvisits
    exact ⟨visit, hvisit⟩
  refine Json.opensNested_of_parse? hv (fun v hv => ?_) fun v more hv => ?_
  · obtain ⟨visit, hvisit⟩ := hhead v hv
    exact Visit.not_flat_of_ofJson? hvisit
  · obtain ⟨visit, hvisit⟩ := hhead _ hv
    exact Visit.not_flat_of_ofJson?_array hvisit

/-- A text of settings is no dump. -/
theorem parse?_eq_none_of_toml {text : String} {payload : Json}
    (h : Toml.parse? text = some payload) : parse? text = none := by
  cases hdump : parse? text with
  | none => rfl
  | some visits =>
    rw [Toml.parse?_eq_none (opensNested_of_parse? hdump)] at h
    cases h

end Dump
end Mentions
