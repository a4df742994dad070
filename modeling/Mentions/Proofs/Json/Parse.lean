import Mentions.Json.Reader
import Mentions.Proofs.Json.Scan

/-! # Compact JSON text is read back

Inside any arrays and objects the reader takes the tokens of a value to the state in which the value
has been given to the frame around it. So a value is read back from its text, unless it is nested
too deep.
-/

namespace Mentions.Json

open ReadState

/-! ## Levels -/

theorem height_le_heightItems {items : List Json} {v : Json} (h : v ∈ items) :
    v.height ≤ heightItems items := by
  induction items with
  | nil => cases h
  | cons w rest ih =>
    rw [heightItems]
    rcases List.mem_cons.mp h with rfl | h
    · exact Nat.le_max_left ..
    · exact Nat.le_trans (ih h) (Nat.le_max_right ..)

theorem heightMembers_eq (members : List (String × Json)) :
    heightMembers members = heightItems (members.map Prod.snd) := by
  induction members with
  | nil => rfl
  | cons m rest ih => rw [heightMembers, ih, List.map_cons, heightItems]

theorem height_le_heightMembers {members : List (String × Json)} {m : String × Json}
    (h : m ∈ members) : m.2.height ≤ heightMembers members := by
  rw [heightMembers_eq]
  exact height_le_heightItems (List.mem_map_of_mem h)

/-! ## Parts between commas -/

section
variable (level : Nat) (stack : List Frame)

/-- Parts are read one after the other, where each leads from the state before a part to the state
after it, and a comma leads back. -/
theorem read_separated {ι β : Type} (before after : List β → ReadState) (text : ι → List Token)
    (value : ι → β) (hcomma : ∀ done, (after done).step .comma = some (before done)) :
    ∀ parts : List ι, parts ≠ [] →
      (∀ p ∈ parts, ∀ done,
        (text p).foldlM step (before done) = some (after (value p :: done))) →
      ∀ done, ([.comma].intercalate (parts.map text)).foldlM step (before done) =
        some (after ((parts.map value).reverse ++ done))
  | [], hne, _ => absurd rfl hne
  | [p], _, hparts => by
    intro done
    simpa using hparts p List.mem_cons_self done
  | p :: q :: parts, _, hparts => by
    intro done
    obtain ⟨hp, hrest⟩ := List.forall_mem_cons.mp hparts
    have ih := read_separated before after text value hcomma (q :: parts)
      (List.cons_ne_nil q parts) hrest (value p :: done)
    simpa [List.foldlM_append, hp, hcomma] using ih

theorem read_items {items : List Json} (hne : items ≠ [])
    (h : ∀ v ∈ items, ∀ stack', nextLevel stack' = level + 1 →
      v.tokens.foldlM step (.value stack') = some (give v stack')) :
    ([.comma].intercalate (itemTokens items)).foldlM step (.firstItem level stack) =
      some (.afterItem level items.reverse stack) := by
  -- the first item begins like a value, for no value begins with the end of an array
  have hfirst : ([.comma].intercalate (itemTokens items)).foldlM step (.firstItem level stack) =
      ([.comma].intercalate (itemTokens items)).foldlM step
        (.value (.array level [] :: stack)) := by
    cases items with
    | nil => exact absurd rfl hne
    | cons v rest => cases v <;> simp [itemTokens, tokens, step]
  have hitems := read_separated (fun done => .value (.array level done :: stack))
    (fun done => .afterItem level done stack) tokens id (fun _ => rfl) items hne
    (fun v hv done => h v hv (.array level done :: stack) rfl) []
  rw [hfirst, itemTokens_eq_map]
  simpa using hitems

theorem read_members {members : List (String × Json)} (hne : members ≠ [])
    (h : ∀ m ∈ members, ∀ stack', nextLevel stack' = level + 1 →
      m.2.tokens.foldlM step (.value stack') = some (give m.2 stack')) :
    ([.comma].intercalate (memberTokens members)).foldlM step (.firstName level stack) =
      some (.afterMember level (members.map fun m => (some m.1, m.2)).reverse stack) := by
  have hfirst : ([.comma].intercalate (memberTokens members)).foldlM step
      (.firstName level stack) =
      ([.comma].intercalate (memberTokens members)).foldlM step (.memberName level [] stack) := by
    cases members with
    | nil => exact absurd rfl hne
    | cons m rest => simp [memberTokens, step]
  have hmembers := read_separated (fun done => .memberName level done stack)
    (fun done => .afterMember level done stack)
    (fun m : String × Json => .scalar (.string m.1) :: .colon :: m.2.tokens)
    (fun m => (some m.1, m.2)) (fun _ => rfl) members hne
    (fun m hm done => h m hm (.object level done (some m.1) :: stack) rfl) []
  rw [hfirst, memberTokens_eq_map]
  simpa using hmembers

end

theorem objectValue_reverse (members : List (String × Json)) :
    objectValue (members.map fun m => (some m.1, m.2)).reverse = .object members := by
  have hmembers : (members.map fun m => (some m.1, m.2)).mapM
      (fun named : Option String × Json => named.1.map (·, named.2)) = some members := by
    induction members with
    | nil => rfl
    | cons m rest ih => simp [ih]
  rw [objectValue, List.reverse_reverse, hmembers]

/-! ## Values -/

/-- The tokens of a value lead to the state in which the value has been given to its frame. -/
theorem read_tokens {v : Json} (h : v.Legible) :
    ∀ stack, nextLevel stack + v.height ≤ maxLevel + 1 →
      v.tokens.foldlM step (.value stack) = some (give v stack) := by
  induction h with
  | null => exact fun _ _ => rfl
  | bool b => exact fun _ _ => rfl
  | integer h => exact fun _ _ => rfl
  | string s => exact fun _ _ => rfl
  | @array items _ ih =>
    intro stack hlevel
    rw [height] at hlevel
    have hnested : nextLevel stack ≤ maxLevel := by omega
    by_cases hne : items = []
    · simp [hne, tokens, itemTokens, step, beginValue?, giveNested, hnested, arrayValue]
    · have hitem : ∀ v ∈ items, ∀ stack', nextLevel stack' = nextLevel stack + 1 →
          v.tokens.foldlM step (.value stack') = some (give v stack') := by
        intro v hv stack' hstack
        have hheight := height_le_heightItems hv
        exact ih v hv stack' (by omega)
      have hitems := read_items (nextLevel stack) stack hne hitem
      simp [tokens, step, beginValue?, List.foldlM_append, hitems, giveNested, hnested, arrayValue]
  | @object members _ ih =>
    intro stack hlevel
    rw [height] at hlevel
    have hnested : nextLevel stack ≤ maxLevel := by omega
    by_cases hne : members = []
    · have hvalue : objectValue [] = .object [] := objectValue_reverse []
      simp [hne, tokens, memberTokens, step, beginValue?, giveNested, hnested, hvalue]
    · have hmember : ∀ m ∈ members, ∀ stack', nextLevel stack' = nextLevel stack + 1 →
          m.2.tokens.foldlM step (.value stack') = some (give m.2 stack') := by
        intro m hm stack' hstack
        have hheight := height_le_heightMembers hm
        exact ih m hm stack' (by omega)
      have hmembers := read_members (nextLevel stack) stack hne hmember
      have hvalue := objectValue_reverse members
      simp [tokens, step, beginValue?, List.foldlM_append, hmembers, giveNested, hnested, hvalue]

/-- A value is read back from its compact text, unless it is nested too deep. -/
theorem parse?_render {v : Json} (h : v.Legible) (hheight : v.height ≤ maxLevel) :
    parse? v.render = some v := by
  have hread := read_tokens h [] (by rw [show nextLevel [] = 1 from rfl]; omega)
  simp [parse?, tokens?_render h, ofTokens?, hread, give]

end Mentions.Json
