import Mentions.Json.Reader
import Mentions.Proofs.Json.Scan

/-! # How the text of an array begins

A token that is no scalar is one character, so the tokens with which a text begins show in its first
characters, spaces aside. And what the reader has begun it completes: the items that are read first
are the first items of the array.
-/

namespace Mentions.Json

/-- Neither an array nor an object. -/
def Flat : Json → Prop
  | array _ | object _ => False
  | _ => True

/-- The first character that is no space, and the characters after it. -/
def Leads (cs : List Char) (c : Char) (after : List Char) : Prop :=
  ∃ blank, (∀ b ∈ blank, Scan.isSpace b = true) ∧ cs = blank ++ c :: after

theorem Leads.cons {b c : Char} {cs after : List Char} (hb : Scan.isSpace b = true)
    (h : Leads cs c after) : Leads (b :: cs) c after := by
  obtain ⟨blank, hblank, rfl⟩ := h
  exact ⟨b :: blank, List.forall_mem_cons.mpr ⟨hb, hblank⟩, rfl⟩

theorem Leads.self (c : Char) (after : List Char) : Leads (c :: after) c after := ⟨[], nofun, rfl⟩

theorem Leads.cases_cons {b c : Char} {cs after : List Char} (h : Leads (b :: cs) c after) :
    (b = c ∧ cs = after) ∨ (Scan.isSpace b = true ∧ Leads cs c after) := by
  obtain ⟨blank, hblank, heq⟩ := h
  cases blank with
  | nil => exact .inl (List.cons.inj heq)
  | cons b' blank =>
    obtain ⟨rfl, rfl⟩ := List.cons.inj heq
    obtain ⟨hb, hrest⟩ := List.forall_mem_cons.mp hblank
    exact .inr ⟨hb, blank, hrest, rfl⟩

/-! ## First tokens -/

namespace Scan
variable {s s' closed : Scan} {c : Char}

theorem flat_of_word? {read : List Char} {v : Json} (h : word? read = some v) : v.Flat := by
  unfold word? at h
  split at h <;> cases h <;> trivial

theorem flat_of_number? {read : List Char} {v : Json} (h : Number.read? read = some v) :
    v.Flat := by
  obtain ⟨l, -, rfl⟩ := Option.map_eq_some_iff.mp h
  unfold Number.Literal.value
  split_ifs <;> trivial

theorem flat_stringValue (units : List UInt16) : (stringValue units).Flat := by
  unfold stringValue
  split <;> trivial

theorem close?_cases (h : s.close? = some closed) :
    (s.state = .between ∧ closed = s) ∨ ∃ v, v.Flat ∧ closed = s.emit (.scalar v) := by
  unfold close? at h
  split at h
  · rename_i hs
    exact .inl ⟨hs, (Option.some.inj h).symm⟩
  · obtain ⟨v, hv, rfl⟩ := Option.map_eq_some_iff.mp h
    exact .inr ⟨v, flat_of_word? hv, rfl⟩
  · obtain ⟨v, hv, rfl⟩ := Option.map_eq_some_iff.mp h
    exact .inr ⟨v, flat_of_number? hv, rfl⟩
  · cases h

/-- A character between two tokens is a space, a token of its own, or begins a literal. -/
theorem begin?_cases (h : s.begin? c = some s') :
    (isSpace c = true ∧ s' = ⟨s.tokens, .between⟩) ∨
    (∃ t, punctuation? c = some t ∧ s' = s.emit t) ∨
    (s'.tokens = s.tokens ∧ s'.state ≠ .between) := by
  cases hp : punctuation? c with
  | some t =>
    rw [begin?_punctuation hp] at h
    exact .inr (.inl ⟨t, rfl, (Option.some.inj h).symm⟩)
  | none =>
    have hother : ¬ c = '[' ∧ ¬ c = ']' ∧ ¬ c = '\x7b' ∧ ¬ c = '\x7d' ∧ ¬ c = ',' ∧ ¬ c = ':' := by
      refine ⟨?_, ?_, ?_, ?_, ?_, ?_⟩ <;> rintro rfl <;> cases hp
    obtain ⟨h1, h2, h3, h4, h5, h6⟩ := hother
    simp only [begin?, h1, h2, h3, h4, h5, h6, if_false] at h
    split_ifs at h with hspace hquote hnumber hword
    · exact .inl ⟨hspace, (Option.some.inj h).symm⟩
    all_goals
      cases h
      exact .inr (.inr ⟨rfl, by simp⟩)

/-- A literal goes on, or it becomes a token, after which another may follow at once. -/
theorem step_cases (hs : s.state ≠ .between) (h : s.step c = some s') :
    (s'.tokens = s.tokens ∧ s'.state ≠ .between) ∨
    ∃ v more, v.Flat ∧ s'.tokens = more ++ .scalar v :: s.tokens := by
  -- what ends a word or a number is looked at once more, between the tokens
  have hclose : s.close?.bind (·.begin? c) = some s' →
      ∃ v more, v.Flat ∧ s'.tokens = more ++ .scalar v :: s.tokens := by
    intro h
    obtain ⟨closed, hclosed, hbegin⟩ := Option.bind_eq_some_iff.mp h
    obtain ⟨hbetween, -⟩ | ⟨v, hv, rfl⟩ := close?_cases hclosed
    · exact absurd hbetween hs
    obtain ⟨-, rfl⟩ | ⟨t, -, rfl⟩ | ⟨htokens, -⟩ := begin?_cases hbegin
    · exact ⟨v, [], hv, rfl⟩
    · exact ⟨v, [t], hv, rfl⟩
    · exact ⟨v, [], hv, htokens⟩
  obtain ⟨done, state⟩ := s
  cases state with
  | between => exact absurd rfl hs
  | word read =>
    simp only [step] at h
    split_ifs at h
    · cases h
      exact .inl ⟨rfl, by simp⟩
    · exact .inr (hclose h)
  | number read =>
    simp only [step] at h
    split_ifs at h
    · cases h
      exact .inl ⟨rfl, by simp⟩
    · exact .inr (hclose h)
  | string units =>
    simp only [step] at h
    split_ifs at h
    · cases h
      exact .inr ⟨_, [], flat_stringValue units.reverse, rfl⟩
    all_goals
      cases h
      exact .inl ⟨rfl, by simp⟩
  | escape units =>
    simp only [step] at h
    split_ifs at h
    · cases h
      exact .inl ⟨rfl, by simp⟩
    · obtain ⟨u, -, rfl⟩ := Option.map_eq_some_iff.mp h
      exact .inl ⟨rfl, by simp⟩
  | hex units count value =>
    simp only [step] at h
    obtain ⟨d, -, rfl⟩ := Option.map_eq_some_iff.mp h
    left
    split_ifs <;> exact ⟨rfl, by simp⟩

/-- A scan keeps the tokens that it has, and the literal in which it stands is the next one. -/
theorem tokens_of_scanned {cs : List Char} (h : cs.foldlM step s = some s')
    (hclose : s'.close? = some closed) :
    ∃ ts, closed.tokens = ts.reverse ++ s.tokens ∧
      (s.state ≠ .between → ∃ v rest, v.Flat ∧ ts = .scalar v :: rest) := by
  induction cs generalizing s with
  | nil =>
    cases h
    obtain ⟨hbetween, rfl⟩ | ⟨v, hv, rfl⟩ := close?_cases hclose
    · exact ⟨[], rfl, fun hs => absurd hbetween hs⟩
    · exact ⟨[.scalar v], rfl, fun _ => ⟨v, [], hv, rfl⟩⟩
  | cons c cs ih =>
    rw [List.foldlM_cons] at h
    obtain ⟨next, hnext, hrest⟩ := Option.bind_eq_some_iff.mp h
    obtain ⟨ts, htokens, hpending⟩ := ih hrest
    by_cases hs : s.state = .between
    · have hbegin : s.begin? c = some next := by
        obtain ⟨done, state⟩ := s
        cases hs
        exact hnext
      obtain ⟨-, rfl⟩ | ⟨t, -, rfl⟩ | ⟨hsame, -⟩ := begin?_cases hbegin
      · exact ⟨ts, htokens, fun hne => absurd hs hne⟩
      · exact ⟨t :: ts, by simpa [emit] using htokens, fun hne => absurd hs hne⟩
      · exact ⟨ts, hsame ▸ htokens, fun hne => absurd hs hne⟩
    · obtain ⟨hsame, hnext⟩ | ⟨v, more, hv, hmore⟩ := step_cases hs hnext
      · exact ⟨ts, hsame ▸ htokens, fun _ => hpending hnext⟩
      · refine ⟨.scalar v :: (more.reverse ++ ts), ?_, fun _ => ⟨v, _, hv, rfl⟩⟩
        rw [htokens, hmore]
        simp

end Scan

/-- After tokens that are done, the characters are a text of these further tokens. -/
def ReadsAs (done : List Token) (cs : List Char) (ts : List Token) : Prop :=
  ∃ s closed, cs.foldlM Scan.step ⟨done, .between⟩ = some s ∧ s.close? = some closed ∧
    closed.tokens = ts.reverse ++ done

/-- The first token of a text is a scalar, or it is the first character that is no space. -/
theorem ReadsAs.first {done : List Token} {cs : List Char} {t : Token} {ts : List Token}
    (h : ReadsAs done cs (t :: ts)) :
    (∃ v, v.Flat ∧ t = .scalar v) ∨
    ∃ c after, punctuation? c = some t ∧ Leads cs c after ∧ ReadsAs (t :: done) after ts := by
  obtain ⟨s, closed, hscan, hclose, htokens⟩ := h
  induction cs with
  | nil =>
    cases hscan
    cases hclose
    have hlength := congrArg List.length htokens
    simp at hlength
    omega
  | cons c cs ih =>
    rw [List.foldlM_cons] at hscan
    obtain ⟨next, hnext, hrest⟩ := Option.bind_eq_some_iff.mp hscan
    obtain ⟨hspace, rfl⟩ | ⟨t', ht', rfl⟩ | ⟨hsame, hpending⟩ := Scan.begin?_cases hnext
    · obtain hscalar | ⟨c', after, hc', hlead, hafter⟩ := ih hrest
      · exact .inl hscalar
      · exact .inr ⟨c', after, hc', hlead.cons hspace, hafter⟩
    · obtain ⟨us, hus, -⟩ := Scan.tokens_of_scanned hrest hclose
      obtain ⟨rfl, rfl⟩ : t = t' ∧ ts = us := by
        have hall := congrArg List.reverse (htokens.symm.trans hus)
        simpa [Scan.emit] using hall
      exact .inr ⟨c, cs, ht', .self c cs, s, closed, hrest, hclose, hus⟩
    · obtain ⟨us, hus, hscalar⟩ := Scan.tokens_of_scanned hrest hclose
      obtain ⟨v, rest, hv, rfl⟩ := hscalar hpending
      obtain ⟨rfl, -⟩ : t = .scalar v ∧ ts = rest := by
        have hall := congrArg List.reverse (htokens.symm.trans (hsame ▸ hus))
        simpa using hall
      exact .inl ⟨v, hv, rfl⟩

/-! ## First items -/

namespace ReadState

/-- The arrays and objects that a state stands in, the innermost first. -/
def frames : ReadState → List Frame
  | value stack => stack
  | firstItem level stack => .array level [] :: stack
  | afterItem level done stack => .array level done :: stack
  | firstName level stack => .object level [] none :: stack
  | memberName level done stack => .object level done none :: stack
  | colon level done key stack => .object level done key :: stack
  | afterMember level done stack => .object level done none :: stack
  | finished _ => []

/-- The frame a little later: an array keeps its items. -/
inductive Grows : Frame → Frame → Prop
  | array (level : Nat) (done more : List Json) :
      Grows (.array level done) (.array level (more ++ done))
  | object (level level' : Nat) (done done' : List (Option String × Json))
      (key key' : Option String) : Grows (.object level done key) (.object level' done' key')

/-- What a frame can become when it is complete. -/
inductive Becomes : Frame → Json → Prop
  | unreadable (f : Frame) : Becomes f .unreadable
  | array (level : Nat) (done more : List Json) :
      Becomes (.array level done) (.array (done.reverse ++ more))
  | object (level : Nat) (done : List (Option String × Json)) (key : Option String)
      (members : List (String × Json)) : Becomes (.object level done key) (.object members)

variable {s s' : ReadState} {t : Token} {f g : Frame} {rest base : List Frame} {v : Json}

theorem Grows.refl (f : Frame) : Grows f f := by
  cases f with
  | array level done => exact .array level done []
  | object level done key => exact .object level level done done key key

theorem Becomes.of_grows (h : Grows f g) (hv : Becomes g v) : Becomes f v := by
  cases hv with
  | unreadable => exact .unreadable f
  | array _ _ later =>
    cases h with
    | array level done more => simpa using Becomes.array _ done (more.reverse ++ later)
  | object =>
    cases h with
    | object => exact .object ..

theorem frames_give (v : Json) (f : Frame) (rest : List Frame) :
    ∃ g, Grows f g ∧ (give v (f :: rest)).frames = g :: rest := by
  cases f with
  | array level done => exact ⟨_, .array level done [v], rfl⟩
  | object level done key => exact ⟨_, .object level level done ((key, v) :: done) key none, rfl⟩

theorem beginValue?_cases (h : beginValue? (f :: rest) t = some s') :
    (∃ new, s'.frames = new :: f :: rest) ∨ ∃ g, Grows f g ∧ s'.frames = g :: rest := by
  cases t with
  | scalar v =>
    cases h
    exact .inr (frames_give v f rest)
  | openArray =>
    cases h
    exact .inl ⟨_, rfl⟩
  | openObject =>
    cases h
    exact .inl ⟨_, rfl⟩
  | _ => cases h

theorem becomes_array (level level' : Nat) (done : List Json) :
    Becomes (.array level done) (if level' ≤ maxLevel then arrayValue done else .unreadable) := by
  split_ifs
  · simpa [arrayValue] using Becomes.array level done []
  · exact .unreadable _

theorem becomes_object (level level' : Nat) (done done' : List (Option String × Json))
    (key : Option String) :
    Becomes (.object level done key)
      (if level' ≤ maxLevel then objectValue done' else .unreadable) := by
  split_ifs
  · unfold objectValue
    split
    · exact .object ..
    · exact .unreadable _
  · exact .unreadable _

/-- A step enters a frame, goes on in the innermost one, or completes it. -/
theorem step_cases (h : s.step t = some s') (hf : s.frames = f :: rest) :
    (∃ new, s'.frames = new :: f :: rest) ∨ (∃ g, Grows f g ∧ s'.frames = g :: rest) ∨
      ∃ v, Becomes f v ∧ s' = give v rest := by
  cases s with
  | value stack =>
    obtain rfl : stack = f :: rest := hf
    obtain hnew | hgrows := beginValue?_cases h
    · exact .inl hnew
    · exact .inr (.inl hgrows)
  | firstItem level stack =>
    obtain ⟨rfl, rfl⟩ := List.cons.inj hf
    cases t with
    | closeArray =>
      cases h
      exact .inr (.inr ⟨_, becomes_array _ level [], rfl⟩)
    | _ =>
      simp only [step] at h
      obtain hnew | hgrows := beginValue?_cases h
      · exact .inl hnew
      · exact .inr (.inl hgrows)
  | afterItem level done stack =>
    obtain ⟨rfl, rfl⟩ := List.cons.inj hf
    cases t with
    | comma =>
      cases h
      exact .inr (.inl ⟨_, .refl _, rfl⟩)
    | closeArray =>
      cases h
      exact .inr (.inr ⟨_, becomes_array _ level done, rfl⟩)
    | _ => cases h
  | firstName level stack =>
    obtain ⟨rfl, rfl⟩ := List.cons.inj hf
    cases t with
    | closeObject =>
      cases h
      exact .inr (.inr ⟨_, becomes_object _ level [] [] none, rfl⟩)
    | _ =>
      simp only [step] at h
      obtain ⟨key, -, rfl⟩ := Option.map_eq_some_iff.mp h
      exact .inr (.inl ⟨_, .object .., rfl⟩)
  | memberName level done stack =>
    obtain ⟨rfl, rfl⟩ := List.cons.inj hf
    obtain ⟨key, -, rfl⟩ := Option.map_eq_some_iff.mp h
    exact .inr (.inl ⟨_, .object .., rfl⟩)
  | colon level done key stack =>
    obtain ⟨rfl, rfl⟩ := List.cons.inj hf
    cases t with
    | colon =>
      cases h
      exact .inr (.inl ⟨_, .refl _, rfl⟩)
    | _ => cases h
  | afterMember level done stack =>
    obtain ⟨rfl, rfl⟩ := List.cons.inj hf
    cases t with
    | comma =>
      cases h
      exact .inr (.inl ⟨_, .refl _, rfl⟩)
    | closeObject =>
      cases h
      exact .inr (.inr ⟨_, becomes_object _ level done done none, rfl⟩)
    | _ => cases h
  | finished v => cases hf

/-- Tokens that lead to a finished value complete each frame on the way: a first part of them leads
to where the value of the frame has been given to what is around it. -/
theorem completes (ts : List Token) : ∀ {s : ReadState} {f : Frame} (inner : List Frame),
    s.frames = inner ++ f :: base → ts.foldlM step s = some (finished v) →
      ∃ (w : Json) (rest : List Token),
        Becomes f w ∧ rest.foldlM step (give w base) = some (finished v) := by
  induction ts with
  | nil =>
    intro s f inner hf h
    obtain rfl : s = finished v := Option.some.inj h
    cases inner <;> cases hf
  | cons t ts ih =>
    intro s f inner hf h
    rw [List.foldlM_cons] at h
    obtain ⟨next, hnext, hrest⟩ := Option.bind_eq_some_iff.mp h
    cases inner with
    | nil =>
      obtain ⟨new, hnew⟩ | ⟨g, hg, hframes⟩ | ⟨w, hw, rfl⟩ := step_cases hnext hf
      · exact ih [new] hnew hrest
      · obtain ⟨w, rest, hw, hdone⟩ := ih [] hframes hrest
        exact ⟨w, rest, hw.of_grows hg, hdone⟩
      · exact ⟨w, ts, hw, hrest⟩
    | cons top inner =>
      obtain ⟨new, hnew⟩ | ⟨top', -, hframes⟩ | ⟨w, -, rfl⟩ := step_cases hnext hf
      · exact ih (new :: top :: inner) hnew hrest
      · exact ih (top' :: inner) hframes hrest
      · -- the value of the innermost frame goes to the next one, which may be `f`
        cases inner with
        | nil =>
          obtain ⟨g, hg, hframes⟩ := frames_give w f base
          obtain ⟨w', rest, hw', hdone⟩ := ih [] hframes hrest
          exact ⟨w', rest, hw'.of_grows hg, hdone⟩
        | cons next inner =>
          obtain ⟨next', -, hframes⟩ := frames_give w next (inner ++ f :: base)
          exact ih (next' :: inner) hframes hrest

theorem eq_of_finished {ts : List Token} {w : Json}
    (h : ts.foldlM step (finished w) = some (finished v)) : w = v := by
  cases ts with
  | nil => exact ReadState.finished.inj (Option.some.inj h)
  | cons t ts =>
    rw [List.foldlM_cons] at h
    cases h

end ReadState

open ReadState

theorem ofTokens?_eq_some_iff {ts : List Token} {v : Json} :
    ofTokens? ts = some v ↔ ts.foldlM step (.value []) = some (.finished v) := by
  unfold ofTokens?
  split
  · rename_i w hw
    simp [hw]
  · rename_i hother
    simpa using fun h => hother v h

/-- A token with which an item begins, or the end of an array without items. -/
theorem firstItem_cases {level : Nat} {stack : List Frame} {t : Token} {s : ReadState}
    (h : step (.firstItem level stack) t = some s) :
    (t = .closeArray ∨ t = .openArray ∨ t = .openObject) ∨ ∃ v, t = .scalar v := by
  cases t with
  | scalar v => exact .inr ⟨v, rfl⟩
  | closeArray => exact .inl (.inl rfl)
  | openArray => exact .inl (.inr (.inl rfl))
  | openObject => exact .inl (.inr (.inr rfl))
  | _ => cases h

section
variable {ts : List Token} {items : List Json} {v : Json}

/-- The tokens of an array begin with its bracket. -/
theorem tokens_of_array (h : ofTokens? ts = some (.array items)) :
    (∃ rest, ts = .scalar (.array items) :: rest) ∨ ∃ t rest, ts = .openArray :: t :: rest ∧
      ((t = .closeArray ∨ t = .openArray ∨ t = .openObject) ∨ ∃ v, t = .scalar v) := by
  rw [ofTokens?_eq_some_iff] at h
  cases ts with
  | nil => cases h
  | cons t rest =>
    cases t with
    | scalar v =>
      have hfinished : rest.foldlM step (.finished v) = some (.finished (.array items)) := h
      exact .inl ⟨rest, by rw [eq_of_finished hfinished]⟩
    | openArray =>
      cases rest with
      | nil => cases h
      | cons t rest =>
        have hrest : (t :: rest).foldlM step (.firstItem 1 []) =
            some (.finished (.array items)) := h
        rw [List.foldlM_cons] at hrest
        obtain ⟨next, hnext, -⟩ := Option.bind_eq_some_iff.mp hrest
        exact .inr ⟨t, rest, rfl, firstItem_cases hnext⟩
    | openObject =>
      have hrest : rest.foldlM step (.firstName 1 []) = some (.finished (.array items)) := h
      obtain ⟨w, rest, hw, hdone⟩ := completes _ [] rfl hrest
      obtain rfl := eq_of_finished hdone
      cases hw
    | _ => cases h

theorem tokens_of_nested_array (h : ofTokens? (.openArray :: .openArray :: ts) = some v) :
    ∃ t rest, ts = t :: rest ∧
      ((t = .closeArray ∨ t = .openArray ∨ t = .openObject) ∨ ∃ v, t = .scalar v) := by
  rw [ofTokens?_eq_some_iff] at h
  cases ts with
  | nil => cases h
  | cons t rest =>
    have hrest : (t :: rest).foldlM step (.firstItem 2 [.array 1 []]) = some (.finished v) := h
    rw [List.foldlM_cons] at hrest
    obtain ⟨next, hnext, -⟩ := Option.bind_eq_some_iff.mp hrest
    exact ⟨t, rest, rfl, firstItem_cases hnext⟩

theorem head?_of_scalar (h : ofTokens? (.openArray :: .scalar v :: ts) = some (.array items)) :
    items.head? = some v := by
  have hrest : ts.foldlM step (.afterItem 1 [v] []) = some (.finished (.array items)) :=
    ofTokens?_eq_some_iff.mp h
  obtain ⟨w, rest, hw, hdone⟩ := completes _ [] rfl hrest
  obtain rfl := eq_of_finished hdone
  cases hw
  rfl

/-- The first of the items of an array is unreadable, or it is an array that begins as it was
read. -/
theorem head?_of_nested_scalar
    (h : ofTokens? (.openArray :: .openArray :: .scalar v :: ts) = some (.array items)) :
    items.head? = some .unreadable ∨ ∃ more, items.head? = some (.array (v :: more)) := by
  have hrest : ts.foldlM step (.afterItem 2 [v] [.array 1 []]) = some (.finished (.array items)) :=
    ofTokens?_eq_some_iff.mp h
  obtain ⟨first, rest, hfirst, hafter⟩ := completes _ [] rfl hrest
  obtain ⟨w, rest, hw, hdone⟩ := completes _ [] rfl hafter
  obtain rfl := eq_of_finished hdone
  cases hw
  cases hfirst with
  | unreadable => exact .inl rfl
  | array _ _ more => exact .inr ⟨more, rfl⟩

end

/-! ## First characters -/

/-- A text that begins with a bracket, after which an array without items, an object or another
array begins, and a bracket or a brace inside that one. -/
inductive OpensNested (cs : List Char) : Prop
  | shallow {c : Char} {after rest : List Char} (h : Leads cs '[' after) (hc : Leads after c rest)
      (hfirst : c = ']' ∨ c = '\x7b') : OpensNested cs
  | deep {c : Char} {after inner rest : List Char} (h : Leads cs '[' after)
      (hinner : Leads after '[' inner) (hc : Leads inner c rest)
      (hfirst : c = '[' ∨ c = ']' ∨ c = '\x7b') : OpensNested cs

theorem OpensNested.leads {cs : List Char} (h : OpensNested cs) :
    ∃ after, Leads cs '[' after ∧ OpensNested ('[' :: after) := by
  cases h with
  | shallow h hc hfirst => exact ⟨_, h, .shallow (.self '[' _) hc hfirst⟩
  | deep h hinner hc hfirst => exact ⟨_, h, .deep (.self '[' _) hinner hc hfirst⟩

theorem Leads.eq_of_bracket {cs after : List Char} (h : Leads ('[' :: cs) '[' after) :
    cs = after := by
  obtain ⟨-, hcs⟩ | ⟨hspace, -⟩ := h.cases_cons
  · exact hcs
  · cases hspace

theorem OpensNested.of_leads {cs after : List Char} (h : OpensNested ('[' :: after))
    (hlead : Leads cs '[' after) : OpensNested cs := by
  cases h with
  | shallow h hc hfirst =>
    obtain rfl := h.eq_of_bracket
    exact .shallow hlead hc hfirst
  | deep h hinner hc hfirst =>
    obtain rfl := h.eq_of_bracket
    exact .deep hlead hinner hc hfirst

theorem punctuation?_eq_some {c : Char} {t : Token} (h : punctuation? c = some t) :
    (t = .openArray → c = '[') ∧ (t = .closeArray → c = ']') ∧ (t = .openObject → c = '\x7b') ∧
      ∀ v, t ≠ .scalar v := by
  unfold punctuation? at h
  split at h <;> cases h <;> simp

theorem readsAs_of_tokens? {cs : List Char} {ts : List Token} (h : tokens? cs = some ts) :
    ReadsAs [] cs ts := by
  obtain ⟨s, hs, h⟩ := Option.bind_eq_some_iff.mp h
  obtain ⟨closed, hclosed, h⟩ := Option.bind_eq_some_iff.mp h
  exact ⟨s, closed, hs, hclosed, by simp [← Option.some.inj h]⟩

namespace ReadsAs
variable {done ts : List Token} {cs : List Char} {t : Token} {v : Json}

theorem flat (h : ReadsAs done cs (.scalar v :: ts)) : v.Flat := by
  obtain ⟨w, hw, heq⟩ | ⟨c, -, hc, -⟩ := h.first
  · cases heq
    exact hw
  · exact absurd rfl ((punctuation?_eq_some hc).2.2.2 v)

theorem leads (h : ReadsAs done cs (t :: ts)) (ht : ∀ v, t ≠ .scalar v) :
    ∃ c after, punctuation? c = some t ∧ Leads cs c after ∧ ReadsAs (t :: done) after ts := by
  obtain ⟨v, -, hv⟩ | hlead := h.first
  · exact absurd hv (ht v)
  · exact hlead

theorem leads_bracket (h : ReadsAs done cs (.openArray :: ts)) :
    ∃ after, Leads cs '[' after ∧ ReadsAs (.openArray :: done) after ts := by
  obtain ⟨c, after, hc, hlead, hafter⟩ := h.leads nofun
  obtain rfl := (punctuation?_eq_some hc).1 rfl
  exact ⟨after, hlead, hafter⟩

end ReadsAs

/-- An array whose first item is an array or an object, and not an array that begins with a value
that is neither, shows that in the first characters of its text. -/
theorem opensNested_of_parse? {text : String} {items : List Json}
    (h : parse? text = some (.array items)) (hfirst : ∀ v, items.head? = some v → ¬ v.Flat)
    (hinner : ∀ v more, items.head? = some (.array (v :: more)) → ¬ v.Flat) :
    OpensNested text.toList := by
  obtain ⟨ts, hts, h⟩ := Option.bind_eq_some_iff.mp h
  have hreads := readsAs_of_tokens? hts
  obtain ⟨rest, rfl⟩ | ⟨t, rest, rfl, ht⟩ := tokens_of_array h
  · exact hreads.flat.elim
  · obtain ⟨after, hlead, hafter⟩ := hreads.leads_bracket
    obtain (rfl | rfl | rfl) | ⟨v, rfl⟩ := ht
    · obtain ⟨c, rest, hc, hnext, -⟩ := hafter.leads nofun
      exact .shallow hlead hnext (.inl ((punctuation?_eq_some hc).2.1 rfl))
    · obtain ⟨inner, hnext, hnested⟩ := hafter.leads_bracket
      obtain ⟨t, rest, rfl, ht⟩ := tokens_of_nested_array h
      obtain ht | ⟨v, rfl⟩ := ht
      · obtain ⟨c, rest, hc, hthird, -⟩ := hnested.leads (by rintro v rfl; simp at ht)
        obtain ⟨harray, hclosed, hobject, -⟩ := punctuation?_eq_some hc
        obtain ht | ht | ht := ht
        · exact .deep hlead hnext hthird (.inr (.inl (hclosed ht)))
        · exact .deep hlead hnext hthird (.inl (harray ht))
        · exact .deep hlead hnext hthird (.inr (.inr (hobject ht)))
      · have hflat := hnested.flat
        obtain hhead | ⟨more, hhead⟩ := head?_of_nested_scalar h
        · exact absurd trivial (hfirst _ hhead)
        · exact absurd hflat (hinner v more hhead)
    · obtain ⟨c, rest, hc, hnext, -⟩ := hafter.leads nofun
      exact .shallow hlead hnext (.inr ((punctuation?_eq_some hc).2.2.1 rfl))
    · exact absurd hafter.flat (hfirst v (head?_of_scalar h))

end Mentions.Json
