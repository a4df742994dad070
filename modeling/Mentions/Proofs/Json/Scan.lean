import Mathlib.Tactic.SplitIfs
import Mentions.Json.Printer
import Mentions.Json.Token
import Mentions.Proofs.Json.Number
import Mentions.Proofs.Text.Boundary

/-! # Tokens of compact JSON text

Between two tokens the scanner holds the tokens so far and nothing else. So a text can be cut at its
punctuation, which ends a number or a word, and each piece scanned by itself; the tokens of a value
follow from those of its parts.
-/

namespace Mentions.Json

/-- Values that their text says in full: nothing unreadable, and no numbers but integers of at most
64 bits. -/
inductive Legible : Json → Prop
  | null : Legible null
  | bool (b : Bool) : Legible (bool b)
  | integer {n : Int} (h : n.natAbs < Nat.pow 2 64) : Legible (integer n)
  | string (s : String) : Legible (string s)
  | array {items : List Json} (h : ∀ v ∈ items, Legible v) : Legible (array items)
  | object {members : List (String × Json)} (h : ∀ m ∈ members, Legible m.2) :
      Legible (object members)

mutual

/-- The tokens that a value is written as. -/
def tokens : Json → List Token
  | array items => .openArray :: ([.comma].intercalate (itemTokens items) ++ [.closeArray])
  | object members =>
    .openObject :: ([.comma].intercalate (memberTokens members) ++ [.closeObject])
  | v => [.scalar v]

def itemTokens : List Json → List (List Token)
  | [] => []
  | v :: rest => v.tokens :: itemTokens rest

def memberTokens : List (String × Json) → List (List Token)
  | [] => []
  | (name, v) :: rest => (.scalar (.string name) :: .colon :: v.tokens) :: memberTokens rest

end

/-! ## Punctuation -/

def punctuation? : Char → Option Token
  | '[' => some .openArray
  | ']' => some .closeArray
  | '\x7b' => some .openObject
  | '\x7d' => some .closeObject
  | ',' => some .comma
  | ':' => some .colon
  | _ => none

namespace Scan
variable {s closed : Scan} {c : Char} {t : Token}

theorem begin?_punctuation (hc : punctuation? c = some t) : s.begin? c = some (s.emit t) := by
  unfold punctuation? at hc
  split at hc <;> cases hc <;> rfl

theorem step_punctuation (hc : punctuation? c = some t) (hs : s.close? = some closed) :
    s.step c = some (closed.emit t) := by
  have hlower : c.isLower = false := by
    unfold punctuation? at hc
    split at hc <;> first | rfl | cases hc
  have hnumber : isNumberChar c = false := by
    unfold punctuation? at hc
    split at hc <;> first | rfl | cases hc
  obtain ⟨done, state⟩ := s
  -- inside a string there is nothing to close, and punctuation is text
  cases state with
  | between =>
    cases hs
    exact begin?_punctuation hc
  | word read => simp [step, hlower, hs, begin?_punctuation hc]
  | number read => simp [step, hnumber, hs, begin?_punctuation hc]
  | string units => cases hs
  | escape units => cases hs
  | hex units count value => cases hs

end Scan

/-- After any tokens, the characters are a text of these further tokens, the last of which may still
have to be closed. -/
def Scans (cs : List Char) (ts : List Token) : Prop :=
  ∀ done, ∃ s, cs.foldlM Scan.step ⟨done, .between⟩ = some s ∧
    s.close? = some ⟨ts.reverse ++ done, .between⟩

namespace Scans
variable {as bs : List Char} {ts us : List Token} {c : Char} {t : Token}

theorem nil : Scans [] [] := fun done => ⟨⟨done, .between⟩, rfl, rfl⟩

theorem join (ha : Scans as ts) (hc : punctuation? c = some t) (hb : Scans bs us) :
    Scans (as ++ c :: bs) (ts ++ t :: us) := by
  intro done
  obtain ⟨s, hs, hclose⟩ := ha done
  obtain ⟨s', hs', hclose'⟩ := hb (t :: (ts.reverse ++ done))
  refine ⟨s', ?_, ?_⟩
  · simpa [List.foldlM_append, hs, Scan.step_punctuation hc hclose, Scan.emit] using hs'
  · simpa using hclose'

theorem intercalate {texts : List (List Char)} {parts : List (List Token)}
    (h : texts.Forall₂ Scans parts) :
    Scans ([','].intercalate texts) ([.comma].intercalate parts) := by
  induction h with
  | nil => exact nil
  | @cons text part texts parts hfirst hrest ih =>
    cases hrest with
    | nil => simpa using hfirst
    | cons _ _ => simpa using hfirst.join rfl ih

/-- Punctuation around a text. -/
theorem enclose {first last : Token} (ha : Scans as ts) (opening closing : Char)
    (ho : punctuation? opening = some first) (hc : punctuation? closing = some last) :
    Scans (opening :: (as ++ [closing])) (first :: (ts ++ [last])) :=
  nil.join ho (ha.join hc nil)

end Scans

/-! ## Scalars -/

theorem charUnits_of_lt {c : Char} (h : c.toNat < 0x10000) :
    Text.charUnits c = [c.toNat.toUInt16] := if_pos h

theorem hexDigit?_digitChar : ∀ d < 16, Scan.hexDigit? (Nat.digitChar d) = some d := by decide

theorem foldlM_escapeChar (c : Char) (done : List Token) (units : List UInt16) :
    (escapeChar c).foldlM Scan.step ⟨done, .string units⟩ =
      some ⟨done, .string ((Text.charUnits c).reverse ++ units)⟩ := by
  unfold escapeChar
  split_ifs with hquote hslash hnewline hreturn htab hbackspace hfeed hcontrol
  · subst hquote
    rfl
  · subst hslash
    rfl
  · subst hnewline
    rfl
  · subst hreturn
    rfl
  · subst htab
    rfl
  · simp [Scan.step, Scan.escapeUnit?, charUnits_of_lt, hbackspace]
  · simp [Scan.step, Scan.escapeUnit?, charUnits_of_lt, hfeed]
  · -- any other control character is written as its number, of which two digits are zero
    have hhigh := hexDigit?_digitChar (c.toNat / 16) (by omega)
    have hlow := hexDigit?_digitChar (c.toNat % 16) (by omega)
    have hzero : Scan.hexDigit? '0' = some 0 := rfl
    have hunit := congrArg UInt16.ofNat (Nat.div_add_mod c.toNat 16)
    rw [UInt16.ofNat_add, UInt16.ofNat_mul] at hunit
    have hlt : c.toNat < 0x10000 := by omega
    simpa [Scan.step, hzero, hhigh, hlow, charUnits_of_lt hlt] using hunit
  · simp [Scan.step, hquote, hslash, hcontrol]

theorem foldlM_escaped (cs : List Char) (done : List Token) (units : List UInt16) :
    (cs.flatMap escapeChar).foldlM Scan.step ⟨done, .string units⟩ =
      some ⟨done, .string ((cs.flatMap Text.charUnits).reverse ++ units)⟩ := by
  induction cs generalizing units with
  | nil => rfl
  | cons c cs ih => simp [List.foldlM_append, foldlM_escapeChar, ih]

theorem scans_quote (s : String) : Scans (quote s).toList [.scalar (.string s)] := by
  intro done
  have hopen : Scan.step ⟨done, .between⟩ '\"' = some ⟨done, .string []⟩ := rfl
  have hbody := foldlM_escaped s.toList done []
  have hvalue : Scan.stringValue (s.toList.flatMap Text.charUnits) = .string s := by
    simp [Scan.stringValue, Text.decodeStrict?_flatMap_charUnits]
  have hclose : Scan.step ⟨done, .string (s.toList.flatMap Text.charUnits).reverse⟩ '\"' =
      some ⟨.scalar (.string s) :: done, .between⟩ := by
    simp [Scan.step, Scan.emit, hvalue]
  refine ⟨⟨.scalar (.string s) :: done, .between⟩, ?_, rfl⟩
  simp [quote, List.foldlM_append, hopen, hbody, hclose]

theorem foldlM_digits (done : List Token) (cs read : List Char)
    (hcs : ∀ c ∈ cs, c.isDigit = true) :
    cs.foldlM Scan.step ⟨done, .number read⟩ = some ⟨done, .number (cs.reverse ++ read)⟩ := by
  induction cs generalizing read with
  | nil => rfl
  | cons c cs ih =>
    obtain ⟨hc, hcs⟩ := List.forall_mem_cons.mp hcs
    simp [Scan.step, Scan.isNumberChar, hc, ih (c :: read) hcs]

theorem begin?_number {s : Scan} {c : Char} (hc : c.isDigit = true ∨ c = '-') :
    s.begin? c = some { s with state := .number [c] } := by
  rcases hc with hc | rfl
  · have hne : ∀ d : Char, d.isDigit = false → c ≠ d := by
      rintro d hd rfl
      rw [hc] at hd
      cases hd
    simp [Scan.begin?, Scan.isSpace, hc, hne ' ' rfl, hne '\t' rfl, hne '\n' rfl, hne '\r' rfl,
      hne '[' rfl, hne ']' rfl, hne '\x7b' rfl, hne '\x7d' rfl, hne ',' rfl, hne ':' rfl,
      hne '\"' rfl]
  · rfl

theorem scans_number {c : Char} {cs : List Char} {v : Json} (hc : c.isDigit = true ∨ c = '-')
    (hcs : ∀ d ∈ cs, d.isDigit = true) (hread : Number.read? (c :: cs) = some v) :
    Scans (c :: cs) [.scalar v] := by
  intro done
  have hbegin : Scan.step ⟨done, .between⟩ c = some ⟨done, .number [c]⟩ := begin?_number hc
  have hrest := foldlM_digits done cs [c] hcs
  refine ⟨⟨done, .number (cs.reverse ++ [c])⟩, ?_, ?_⟩
  · simp [hbegin, hrest]
  · simp [Scan.close?, Scan.emit, hread]

theorem scans_toString {n : Int} (h : n.natAbs < Nat.pow 2 64) :
    Scans (toString n).toList [.scalar (.integer n)] := by
  have hread := Number.read?_toString h
  rcases Number.toList_toString_cases n with ⟨m, -, ht⟩ | ⟨m, -, -, ht⟩
  · rw [ht] at hread ⊢
    have hdigits : ∀ c ∈ Nat.toDigits 10 m, c.isDigit = true :=
      fun _ => Number.isDigit_of_mem_toDigits
    cases hm : Nat.toDigits 10 m with
    | nil => exact absurd hm Nat.toDigits_ne_nil
    | cons c cs =>
      rw [hm] at hread hdigits
      obtain ⟨hc, hcs⟩ := List.forall_mem_cons.mp hdigits
      exact scans_number (.inl hc) hcs hread
  · rw [ht] at hread ⊢
    exact scans_number (.inr rfl) (fun _ => Number.isDigit_of_mem_toDigits) hread

/-! ## Values -/

theorem renderItems_eq_map (items : List Json) : renderItems items = items.map render := by
  induction items with
  | nil => rfl
  | cons v rest ih => rw [renderItems, ih, List.map_cons]

theorem renderMembers_eq_map (members : List (String × Json)) :
    renderMembers members = members.map fun m => quote m.1 ++ ":" ++ m.2.render := by
  induction members with
  | nil => rfl
  | cons m rest ih => rw [renderMembers, ih, List.map_cons]

theorem itemTokens_eq_map (items : List Json) : itemTokens items = items.map tokens := by
  induction items with
  | nil => rfl
  | cons v rest ih => rw [itemTokens, ih, List.map_cons]

theorem memberTokens_eq_map (members : List (String × Json)) :
    memberTokens members =
      members.map fun m => .scalar (.string m.1) :: .colon :: m.2.tokens := by
  induction members with
  | nil => rfl
  | cons m rest ih => rw [memberTokens, ih, List.map_cons]

theorem scans_render {v : Json} (h : v.Legible) : Scans v.render.toList v.tokens := by
  induction h with
  | null => exact fun done => ⟨_, rfl, rfl⟩
  | bool b => cases b <;> exact fun done => ⟨_, rfl, rfl⟩
  | integer h => exact scans_toString h
  | string s => exact scans_quote s
  | @array items _ ih =>
    have hitems : (items.map fun v => v.render.toList).Forall₂ Scans (items.map tokens) := by
      simpa using ih
    have harray := (Scans.intercalate hitems).enclose '[' ']' rfl rfl
    simpa [render, tokens, renderItems_eq_map, itemTokens_eq_map, Function.comp_def] using harray
  | @object members _ ih =>
    have hmembers : (members.map fun m => (quote m.1 ++ ":" ++ m.2.render).toList).Forall₂ Scans
        (members.map fun m => .scalar (.string m.1) :: .colon :: m.2.tokens) := by
      suffices ∀ m ∈ members, Scans (quote m.1 ++ ":" ++ m.2.render).toList
          (.scalar (.string m.1) :: .colon :: m.2.tokens) by simpa using this
      intro m hm
      have hmember := (scans_quote m.1).join (c := ':') rfl (ih m hm)
      simpa using hmember
    have hobject := (Scans.intercalate hmembers).enclose '\x7b' '\x7d' rfl rfl
    simpa [render, tokens, renderMembers_eq_map, memberTokens_eq_map, Function.comp_def]
      using hobject

/-- The scanner reads the compact text of a value as the tokens of the value. -/
theorem tokens?_render {v : Json} (h : v.Legible) : tokens? v.render.toList = some v.tokens := by
  obtain ⟨s, hs, hclose⟩ := scans_render h []
  simp [tokens?, Scan.initial, hs, hclose]

end Mentions.Json
