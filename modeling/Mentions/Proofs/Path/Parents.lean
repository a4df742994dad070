import Mentions.Proofs.Path.Spelling

/-! # Parents of parents

Going from a path to its parent again and again drops one component each time, the explicit `.` at
the beginning last, so it ends: at the root or at the empty path. The list of ancestors holds the
paths on this way in order, though the text of each parent is read anew.
-/

namespace Mentions.Path

variable {path dir : String} {head : Head} {body : List (List Char)} {s : List Char} {n : Nat}

/-- The path so many parents up. -/
def up : Nat → String → Option String
  | 0, path => some path
  | n + 1, path => (parent? path).bind (up n)

/-- How many parents a path has on the way up: one for each component. -/
def depth (path : String) : Nat :=
  (components path).2.length + if (components path).1 = .here then 1 else 0

/-! ## Texts of segments -/

/-- Segments that a text with this beginning can have, unless it is empty. -/
def Fits : Head → List (List Char) → Prop
  | .root, _ => True
  | .here, body => ∀ s, body.head? = some s → s = []
  | .name, body => ∀ s, body.head? = some s → counts s = true

theorem Fits.of_front {front : List (List Char)} (h : Fits head body) (hp : front <+: body) :
    Fits head front := by
  have hfirst : ∀ s, front.head? = some s → body.head? = some s := by
    obtain ⟨rest, rfl⟩ := hp
    intro s hs
    rw [List.head?_append, hs, Option.some_or]
  cases head with
  | root => trivial
  | here => exact fun s hs => h s (hfirst s hs)
  | name => exact fun s hs => h s (hfirst s hs)

theorem segments_ne_nil (cs : List Char) : segments cs ≠ [] := by
  rw [segments_eq_splitOn]
  exact List.splitOnP_ne_nil _ _

theorem body_ofChars_ne_nil (cs : List Char) : (Parts.ofChars cs).body ≠ [] := by
  unfold Parts.ofChars
  split
  · exact segments_ne_nil _
  · exact List.cons_ne_nil _ _
  · exact segments_ne_nil _
  · exact segments_ne_nil _

theorem segments_cons_of_ne {c : Char} (hc : c ≠ '/') (cs : List Char) :
    ∃ s rest, segments cs = s :: rest ∧ segments (c :: cs) = (c :: s) :: rest := by
  cases hs : segments cs with
  | nil => exact absurd hs (segments_ne_nil cs)
  | cons s rest => exact ⟨s, rest, rfl, by rw [segments, if_neg hc, hs]⟩

/-- A text that does not begin with a slash or an explicit `.` begins with a name. -/
theorem counts_head_segments {cs : List Char} (hne : cs ≠ []) (hroot : ∀ rest, cs ≠ '/' :: rest)
    (hdot : cs ≠ ['.']) (hhere : ∀ rest, cs ≠ '.' :: '/' :: rest)
    (hs : (segments cs).head? = some s) : counts s = true := by
  obtain ⟨c, cs, rfl⟩ := List.exists_cons_of_ne_nil hne
  obtain ⟨first, rest, hrest, hcons⟩ := segments_cons_of_ne (fun h => hroot cs (h ▸ rfl)) cs
  rw [hcons] at hs
  obtain rfl := Option.some.inj hs
  -- a first segment that is `.` would end the text or stand before a slash
  have hne : c :: first ≠ ['.'] := by
    intro h
    obtain ⟨rfl, rfl⟩ := List.cons.inj h
    cases cs with
    | nil => exact hdot rfl
    | cons d cs =>
      by_cases hd : d = '/'
      · exact hhere cs (hd ▸ rfl)
      · obtain ⟨s, rest', -, hcons⟩ := segments_cons_of_ne hd cs
        rw [hcons] at hrest
        cases hrest
  simp [counts, hne]

theorem fits_ofChars (cs : List Char) :
    cs = [] ∨ Fits (Parts.ofChars cs).head (Parts.ofChars cs).body := by
  unfold Parts.ofChars
  split
  · exact .inr trivial
  · exact .inr fun s hs => (Option.some.inj hs).symm
  · refine .inr fun s hs => ?_
    rw [segments, if_pos rfl] at hs
    exact (Option.some.inj hs).symm
  · rename_i hroot hdot hhere
    by_cases hne : cs = []
    · exact .inl hne
    · exact .inr fun s hs => counts_head_segments hne hroot hdot hhere hs

/-- A text is read back as the segments that it was made of. -/
theorem ofChars_text (hslash : ∀ s ∈ body, '/' ∉ s) (hfits : Fits head body) :
    Parts.ofChars (head.text ++ ['/'].intercalate body) =
      ⟨head, if body = [] then [[]] else body⟩ := by
  by_cases hne : body = []
  · subst hne
    cases head <;> rfl
  have hsegments := segments_intercalate_of_not_mem hslash hne
  rw [if_neg hne]
  cases head with
  | root => exact congrArg (Parts.mk Head.root) hsegments
  | here =>
    obtain ⟨s, rest, rfl⟩ := List.exists_cons_of_ne_nil hne
    obtain rfl := hfits s rfl
    cases rest with
    | nil => rfl
    | cons r rest => exact congrArg (Parts.mk Head.here) hsegments
  | name =>
    obtain ⟨s, rest, rfl⟩ := List.exists_cons_of_ne_nil hne
    rw [Head.text, List.nil_append, ofChars_of_counts hsegments (hfits s rfl), hsegments]

/-! ## One step up -/

theorem filter_dropWhile_not_counts (l : List (List Char)) :
    (l.dropWhile (!counts ·)).filter counts = l.filter counts := by
  induction l with
  | nil => rfl
  | cons s l ih =>
    by_cases hs : counts s = true
    · simp [hs]
    · simp [hs, ih]

theorem parentsOf_dropWhile (head : Head) (l : List (List Char)) :
    parentsOf head (l.dropWhile (!counts ·)) = parentsOf head l := by
  induction l with
  | nil => rfl
  | cons s l ih =>
    by_cases hs : counts s = true
    · simp [hs]
    · simp [hs, parentsOf, ih]

theorem counts_of_dropWhile {l before : List (List Char)}
    (h : l.dropWhile (!counts ·) = s :: before) : counts s = true := by
  have hnot := List.head?_dropWhile_not (!counts ·) l
  rw [h] at hnot
  simpa using hnot

/-- The text of a parent is read as the beginning of its path and the segments that are left. -/
theorem parts_textOf {before : List (List Char)}
    (h : (parts path).body.reverse.dropWhile (!counts ·) = s :: before) :
    parts (textOf (parts path).head (before.dropWhile (!counts ·))) =
      ⟨(parts path).head, if before.dropWhile (!counts ·) = [] then [[]]
        else (before.dropWhile (!counts ·)).reverse⟩ := by
  have hsuffix : before.dropWhile (!counts ·) <:+ (parts path).body.reverse :=
    (List.dropWhile_suffix _).trans ((List.suffix_cons s before).trans
      (h ▸ List.dropWhile_suffix _))
  have hfront : (before.dropWhile (!counts ·)).reverse <+: (parts path).body := by
    rwa [← List.reverse_suffix, List.reverse_reverse]
  have hslash : ∀ r ∈ (before.dropWhile (!counts ·)).reverse, '/' ∉ r := by
    intro r hr
    exact slash_not_mem_body (hfront.subset hr)
  have hfits : Fits (parts path).head (parts path).body := by
    refine (fits_ofChars path.toList).resolve_left fun hempty => ?_
    rw [parts, hempty] at h
    cases h
  have hempty : (before.dropWhile (!counts ·)).reverse = [] ↔ before.dropWhile (!counts ·) = [] :=
    List.reverse_eq_nil_iff
  rw [parts, textOf, String.toList_ofList, ofChars_text hslash (hfits.of_front hfront)]
  simp only [hempty]

/-- What a step up comes to: a path loses its last component, an explicit `.` that stands alone
gives way to the empty path, and where no component is left there is no parent. -/
inductive SteppedUp (path : String) : Option String → Prop
  | dropped {dir : String} {s : List Char} (hhead : (components dir).1 = (components path).1)
      (hbody : (components path).2 = (components dir).2 ++ [s]) : SteppedUp path (some dir)
  | here (h : components path = (.here, [])) : SteppedUp path (some "")
  | ended (hhead : (components path).1 ≠ .here) (hbody : (components path).2 = []) :
      SteppedUp path none

theorem parent?_spec (path : String) : SteppedUp path (parent? path) := by
  have hbody : (components path).2.reverse =
      ((parts path).body.reverse.dropWhile (!counts ·)).filter counts := by
    rw [filter_dropWhile_not_counts, List.filter_reverse]
    rfl
  rw [parent?]
  cases h : (parts path).body.reverse.dropWhile (!counts ·) with
  | nil =>
    rw [h] at hbody
    have hnone : (components path).2 = [] := List.reverse_eq_nil_iff.mp hbody
    by_cases hhead : (parts path).head = .here
    · simp only [hhead, if_true]
      exact .here (Prod.ext hhead hnone)
    · simp only [hhead, if_false]
      exact .ended hhead hnone
  | cons s before =>
    have hdir := parts_textOf h
    rw [h, List.filter_cons_of_pos (counts_of_dropWhile h)] at hbody
    refine .dropped (s := s) ?_ ?_
    · rw [components, hdir]
      rfl
    · rw [← List.reverse_reverse (components path).2, hbody, List.reverse_cons, components, hdir]
      congr 1
      rw [← filter_dropWhile_not_counts before]
      by_cases hrest : before.dropWhile (!counts ·) = []
      · rw [if_pos hrest, hrest]
        rfl
      · rw [if_neg hrest, List.filter_reverse]

/-- The ancestors are the path and the ancestors of its parent. -/
theorem ancestors_eq (path : String) :
    ancestors path = path :: ((parent? path).map ancestors).getD [] := by
  rw [ancestors, ← parentsOf_dropWhile, parent?]
  cases h : (parts path).body.reverse.dropWhile (!counts ·) with
  | nil =>
    by_cases hhead : (parts path).head = .here
    · simp only [hhead, if_true]
      rfl
    · simp [hhead, parentsOf]
  | cons s before =>
    rw [parentsOf, if_pos (counts_of_dropWhile h), Option.map_some, Option.getD_some, ancestors,
      parts_textOf h]
    congr 2
    rw [← parentsOf_dropWhile (parts path).head before]
    by_cases hrest : before.dropWhile (!counts ·) = []
    · rw [if_pos hrest, hrest]
      rfl
    · rw [if_neg hrest, List.reverse_reverse]

/-! ## The way up -/

theorem getElem?_ancestors (path : String) (n : Nat) : (ancestors path)[n]? = up n path := by
  induction n generalizing path with
  | zero => rw [ancestors_eq]; rfl
  | succ n ih =>
    rw [ancestors_eq, List.getElem?_cons_succ, up]
    cases parent? path with
    | none => rfl
    | some dir => exact ih dir

theorem depth_parent {dir : String} (h : parent? path = some dir) :
    depth path = depth dir + 1 := by
  have hs := parent?_spec path
  rw [h] at hs
  cases hs with
  | dropped hhead hbody =>
    rw [depth, depth, hhead, hbody, List.length_append, List.length_singleton]
    omega
  | here hpath => rw [depth, hpath]; rfl

theorem parent?_eq_none_iff : parent? path = none ↔ depth path = 0 := by
  constructor
  · intro h
    have hs := parent?_spec path
    rw [h] at hs
    cases hs with
    | ended hhead hbody => rw [depth, hbody, if_neg hhead]; rfl
  · intro h
    cases hp : parent? path with
    | none => rfl
    | some dir =>
      rw [depth_parent hp] at h
      cases h

/-- The way up is as long as there are components. -/
theorem isSome_up_iff : (up n path).isSome ↔ n ≤ depth path := by
  induction n generalizing path with
  | zero => simp [up]
  | succ n ih =>
    rw [up]
    cases hp : parent? path with
    | none =>
      rw [parent?_eq_none_iff.mp hp]
      simp
    | some dir => rw [depth_parent hp, Option.bind_some, ih, Nat.add_le_add_iff_right]

theorem up_succ (n : Nat) (path : String) : up (n + 1) path = (up n path).bind parent? := by
  induction n generalizing path with
  | zero => simp [up]
  | succ n ih =>
    rw [up, up, Option.bind_assoc]
    congr 1
    exact funext ih

/-- Only the empty path and the root have nothing above them. -/
theorem eq_empty_or_root_of_depth (h : depth path = 0) : path = "" ∨ same path "/" = true := by
  obtain ⟨hbody, hhead⟩ : (components path).2 = [] ∧ (components path).1 ≠ .here := by
    unfold depth at h
    split at h
    · omega
    · rename_i hhead
      exact ⟨List.length_eq_zero_iff.mp h, hhead⟩
  cases hcase : (components path).1 with
  | here => exact absurd hcase hhead
  | root => exact .inr (beq_iff_eq.mpr (Prod.ext hcase hbody))
  | name =>
    left
    rcases fits_ofChars path.toList with hempty | hfits
    · exact String.toList_eq_nil_iff.mp hempty
    · have hname : (Parts.ofChars path.toList).head = .name := hcase
      rw [hname] at hfits
      obtain ⟨s, rest, hsegments⟩ :=
        List.exists_cons_of_ne_nil (body_ofChars_ne_nil path.toList)
      have hs : counts s = true := hfits s (by rw [hsegments]; rfl)
      have hmem : s ∈ (components path).2 :=
        List.mem_filter.mpr ⟨by rw [parts, hsegments]; exact List.mem_cons_self, hs⟩
      rw [hbody] at hmem
      cases hmem

end Mentions.Path
