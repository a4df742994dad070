import Mentions.Proofs.Settings.Merge

/-! # Sections of the settings

The sections of a candidate are read one by one, but they count together: a candidate is a patch
only if each of its sections is well-formed. So the content of one section does not show in the
settings of the others as long as it stays well-formed, and a malformed one takes them along.
-/

namespace Mentions

/-- The same members under every name but one. -/
def Json.AlikeBut (name : String) (members members' : List (String × Json)) : Prop :=
  ∀ other, other ≠ name → members.filter (·.1 == other) = members'.filter (·.1 == other)

namespace Settings

open Json (Entry AlikeBut)

inductive Section where
  | matching
  | textSearch
  | accuracy
  | logging
  deriving DecidableEq

/-- The settings of all sections but one are equal. -/
structure AgreeOutside (sec : Section) (s s' : Settings) : Prop where
  matching : sec ≠ .matching → s.includeConstructors = s'.includeConstructors
  textSearch : sec ≠ .textSearch →
    s.caseSensitive = s'.caseSensitive ∧ s.fallbackToOffsets = s'.fallbackToOffsets
  accuracy : sec ≠ .accuracy → s.alwaysAccurateMarker = s'.alwaysAccurateMarker
  logging : sec ≠ .logging → s.level = s'.level

namespace Section

def name : Section → String
  | matching => "matching"
  | textSearch => "textSearch"
  | accuracy => "accuracy"
  | logging => "logging"

/-- The members of a section read as the fields that the patch has of it. -/
def FieldsIn (inner : List (String × Json)) (p : Patch) : Section → Prop
  | matching => Entry Json.bool? inner "includeConstructors" p.includeConstructors
  | textSearch => Entry Json.bool? inner "caseSensitive" p.caseSensitive ∧
      Entry Json.bool? inner "fallbackToAstOffsets" p.fallbackToOffsets
  | accuracy => Entry Json.string? inner "alwaysAccurateMarker" p.alwaysAccurateMarker
  | logging => Entry Patch.level? inner "level" p.level

/-- The section that stands among the members reads as the fields that the patch has of it. -/
def Reads (sec : Section) (members : List (String × Json)) (p : Patch) : Prop :=
  ∃ inner, Entry Json.members? members sec.name inner ∧ sec.FieldsIn (inner.getD []) p

/-- The section is absent, null or an object, in which each field of it is absent, null or of its
own type. -/
def WellFormed (sec : Section) (members : List (String × Json)) : Prop := ∃ p, sec.Reads members p

end Section

/-- Payloads that are the same but for the content of a section, at the top or in what they have
under the name of the settings; `holder` and `holder'` are the objects in which the section stands. -/
inductive DifferIn (sec : Section) :
    (payload payload' : Json) → (holder holder' : List (String × Json)) → Prop
  | top {members members' : List (String × Json)} (h : AlikeBut sec.name members members') :
      DifferIn sec (.object members) (.object members') members members'
  | nested {members members' inner inner' : List (String × Json)}
      (h : AlikeBut "typeref-search" members members')
      (hi : members.filter (·.1 == "typeref-search") = [("typeref-search", .object inner)])
      (hi' : members'.filter (·.1 == "typeref-search") = [("typeref-search", .object inner')])
      (hs : AlikeBut sec.name inner inner') :
      DifferIn sec (.object members) (.object members') inner inner'

variable {sec other : Section} {members members' inner : List (String × Json)} {p q : Patch}
  {s s' : Settings}

/-! ## Reading section by section -/

theorem AlikeBut.symm {name : String} (h : AlikeBut name members members') :
    AlikeBut name members' members := fun other hne => (h other hne).symm

theorem Section.name_inj (h : sec.name = other.name) : sec = other := by
  revert h
  cases sec <;> cases other <;> decide

theorem isIn_object_iff : p.IsIn (.object members) ↔ ∀ sec : Section, sec.Reads members p := by
  constructor
  · rintro ⟨_, matching, textSearch, accuracy, logging, ho, hm, ht, ha, hl, hc, hcs, hf, hmk, hlv⟩
    cases ho
    intro sec
    cases sec with
    | matching => exact ⟨matching, hm, hc⟩
    | textSearch => exact ⟨textSearch, ht, hcs, hf⟩
    | accuracy => exact ⟨accuracy, ha, hmk⟩
    | logging => exact ⟨logging, hl, hlv⟩
  · intro h
    obtain ⟨matching, hm, hc⟩ := h .matching
    obtain ⟨textSearch, ht, hcs, hf⟩ := h .textSearch
    obtain ⟨accuracy, ha, hmk⟩ := h .accuracy
    obtain ⟨logging, hl, hlv⟩ := h .logging
    exact ⟨members, matching, textSearch, accuracy, logging, rfl, hm, ht, ha, hl, hc, hcs, hf, hmk,
      hlv⟩

/-- What is read under a name depends only on the members of that name. -/
theorem entry_of_filter_eq {α : Type} {decode : Json → Option α} {name : String} {o : Option α}
    (h : members.filter (·.1 == name) = members'.filter (·.1 == name))
    (he : Entry decode members name o) : Entry decode members' name o := by
  cases he with
  | absent ha => exact .absent (h.symm.trans ha)
  | null hn => exact .null (h.symm.trans hn)
  | value hm hv hd => exact .value (h.symm.trans hm) hv hd

theorem Section.Reads.of_alikeBut {name : String} (h : AlikeBut name members members')
    (hne : sec.name ≠ name) (hr : sec.Reads members p) : sec.Reads members' p := by
  obtain ⟨inner, he, hf⟩ := hr
  exact ⟨inner, entry_of_filter_eq (h _ hne) he, hf⟩

/-- Members that differ under no name of a section are the same patch. -/
theorem ofJson?_of_alikeBut {name : String} (h : AlikeBut name members members')
    (hne : ∀ sec : Section, sec.name ≠ name) :
    Patch.ofJson? (.object members) = Patch.ofJson? (.object members') := by
  ext p
  rw [Patch.ofJson?_eq_some_iff, Patch.ofJson?_eq_some_iff, isIn_object_iff, isIn_object_iff]
  exact ⟨fun hr sec => (hr sec).of_alikeBut h (hne sec),
    fun hr sec => (hr sec).of_alikeBut (AlikeBut.symm h) (hne sec)⟩

/-! ## Exchanging one section -/

/-- The patch with the fields of one section taken from another. -/
def exchange (sec : Section) (q p : Patch) : Patch :=
  match sec with
  | .matching => { p with includeConstructors := q.includeConstructors }
  | .textSearch =>
    { p with caseSensitive := q.caseSensitive, fallbackToOffsets := q.fallbackToOffsets }
  | .accuracy => { p with alwaysAccurateMarker := q.alwaysAccurateMarker }
  | .logging => { p with level := q.level }

theorem exchange_self : exchange sec p p = p := by cases sec <;> rfl

theorem exchange_outside (sec : Section) (q p : Patch) :
    (sec ≠ .matching → (exchange sec q p).includeConstructors = p.includeConstructors) ∧
    (sec ≠ .textSearch → (exchange sec q p).caseSensitive = p.caseSensitive ∧
      (exchange sec q p).fallbackToOffsets = p.fallbackToOffsets) ∧
    (sec ≠ .accuracy → (exchange sec q p).alwaysAccurateMarker = p.alwaysAccurateMarker) ∧
    (sec ≠ .logging → (exchange sec q p).level = p.level) := by
  cases sec <;> simp [exchange]

theorem Section.Reads.exchange_self (h : sec.Reads members q) :
    sec.Reads members (exchange sec q p) := by
  cases sec <;> exact h

theorem Section.Reads.exchange_of_ne (hne : other ≠ sec) (h : other.Reads members p) :
    other.Reads members (exchange sec q p) := by
  cases other <;> cases sec <;> first | exact h | exact absurd rfl hne

/-- With another well-formed content of one section, a patch stays a patch, and its other fields
stay the same. -/
theorem isIn_exchange (ha : AlikeBut sec.name members members') (hq : sec.Reads members' q)
    (hp : p.IsIn (.object members)) : (exchange sec q p).IsIn (.object members') := by
  rw [isIn_object_iff] at hp ⊢
  intro other
  by_cases h : other = sec
  · subst h
    exact hq.exchange_self
  · have hname : other.name ≠ sec.name := fun hn => h (Section.name_inj hn)
    exact ((hp other).of_alikeBut ha hname).exchange_of_ne h

/-- A candidate with a malformed section changes nothing. -/
theorem applyCandidate_of_malformed (h : ¬ sec.WellFormed members) (s : Settings) :
    s.applyCandidate (.object members) = s := by
  cases hp : Patch.ofJson? (.object members) with
  | none => simp only [applyCandidate, hp]
  | some p => exact absurd ⟨p, isIn_object_iff.mp (Patch.ofJson?_eq_some_iff.mp hp) sec⟩ h

/-! ## Settings outside a section -/

namespace AgreeOutside

theorem refl (sec : Section) (s : Settings) : AgreeOutside sec s s :=
  ⟨fun _ => rfl, fun _ => ⟨rfl, rfl⟩, fun _ => rfl, fun _ => rfl⟩

theorem apply_exchange (h : AgreeOutside sec s s') (q p : Patch) :
    AgreeOutside sec (s.apply p) (s'.apply (exchange sec q p)) := by
  obtain ⟨hm, ht, ha, hl⟩ := exchange_outside sec q p
  refine ⟨fun hne => ?_, fun hne => ⟨?_, ?_⟩, fun hne => ?_, fun hne => ?_⟩
  · rw [apply, apply, hm hne, h.matching hne]
  · rw [apply, apply, (ht hne).1, (h.textSearch hne).1]
  · rw [apply, apply, (ht hne).2, (h.textSearch hne).2]
  · rw [apply, apply, ha hne, h.accuracy hne]
  · rw [apply, apply, hl hne, h.logging hne]

theorem normalize (h : AgreeOutside sec s s') : AgreeOutside sec s.normalize s'.normalize := by
  refine ⟨fun hne => ?_, fun hne => ?_, fun hne => ?_, fun hne => ?_⟩
  · simpa only [Settings.normalize] using h.matching hne
  · simpa only [Settings.normalize] using h.textSearch hne
  · rw [marker_normalize, marker_normalize, h.accuracy hne]
  · simpa only [Settings.normalize] using h.logging hne

/-- The same candidates keep the settings outside the section equal. -/
theorem applyCandidates (h : AgreeOutside sec s s') (cs : List Json) :
    AgreeOutside sec (cs.foldl applyCandidate s) (cs.foldl applyCandidate s') := by
  induction cs generalizing s s' with
  | nil => exact h
  | cons c cs ih =>
    refine ih ?_
    unfold applyCandidate
    cases Patch.ofJson? c with
    | none => exact h
    | some p =>
      have hp := h.apply_exchange p p
      rwa [exchange_self] at hp

/-- So do candidates that differ in the section, if its content is well-formed in both or in
neither. -/
theorem applyCandidate_alike (h : AgreeOutside sec s s')
    (ha : AlikeBut sec.name members members')
    (hw : sec.WellFormed members ↔ sec.WellFormed members') :
    AgreeOutside sec (s.applyCandidate (.object members))
      (s'.applyCandidate (.object members')) := by
  by_cases hm : sec.WellFormed members
  · obtain ⟨q', hq'⟩ := hw.mp hm
    obtain ⟨q, hq⟩ := hm
    cases hp : Patch.ofJson? (.object members) with
    | some p =>
      have hp' : Patch.ofJson? (.object members') = some (exchange sec q' p) :=
        Patch.ofJson?_eq_some_iff.mpr (isIn_exchange ha hq' (Patch.ofJson?_eq_some_iff.mp hp))
      simp only [applyCandidate, hp, hp']
      exact h.apply_exchange q' p
    | none =>
      have hp' : Patch.ofJson? (.object members') = none := by
        rw [← Option.not_isSome_iff_eq_none, Option.isSome_iff_exists]
        rintro ⟨p', hp'⟩
        have hback := isIn_exchange (AlikeBut.symm ha) hq (Patch.ofJson?_eq_some_iff.mp hp')
        rw [Patch.ofJson?_eq_some_iff.mpr hback] at hp
        cases hp
      simp only [applyCandidate, hp, hp']
      exact h
  · rw [applyCandidate_of_malformed hm, applyCandidate_of_malformed (mt hw.mpr hm)]
    exact h

end AgreeOutside

/-! ## Payloads -/

theorem lookup_of_filter {name : String} :
    members.lookup name = (members.filter (·.1 == name)).head?.map Prod.snd := by
  induction members with
  | nil => rfl
  | cons m rest ih =>
    obtain ⟨key, v⟩ := m
    by_cases h : key = name
    · simp [h]
    · have h' : name ≠ key := Ne.symm h
      simp [List.lookup_cons, h, beq_eq_false_iff_ne.mpr h', ih]

theorem scoped?_eq_of_filter {v : Json}
    (h : members.filter (·.1 == "typeref-search") = [("typeref-search", v)]) :
    scoped? (.object members) = some v := by
  rw [scoped?, lookup_of_filter, h]
  rfl

/-- A payload that differs from another in a section offers, among candidates that are the same,
the one in which the section stands. -/
theorem DifferIn.candidates_eq {payload payload' : Json} {holder holder' : List (String × Json)}
    (h : DifferIn sec payload payload' holder holder') :
    ∃ front front' rest, candidates payload = front ++ .object holder :: rest ∧
      candidates payload' = front' ++ .object holder' :: rest ∧
      ∀ s, front.foldl applyCandidate s = front'.foldl applyCandidate s := by
  cases h with
  | top h =>
    have hkey : "typeref-search" ≠ sec.name := by cases sec <;> decide
    have hscoped : scoped? (.object holder) = scoped? (.object holder') := by
      rw [scoped?, scoped?, lookup_of_filter, lookup_of_filter, h _ hkey]
    refine ⟨[], [], (scoped? (.object holder')).toList, ?_, ?_, fun _ => rfl⟩
    · rw [Settings.candidates_eq, hscoped, List.nil_append]
    · rw [Settings.candidates_eq, List.nil_append]
  | @nested members members' _ _ h hi hi' hs =>
    refine ⟨[.object members], [.object members'], [], ?_, ?_, fun s => ?_⟩
    · rw [Settings.candidates_eq, scoped?_eq_of_filter hi]
      rfl
    · rw [Settings.candidates_eq, scoped?_eq_of_filter hi']
      rfl
    · have hsame := ofJson?_of_alikeBut h fun sec => by cases sec <;> decide
      simp only [List.foldl_cons, List.foldl_nil, applyCandidate, hsame]

theorem DifferIn.alikeBut {payload payload' : Json} {holder holder' : List (String × Json)}
    (h : DifferIn sec payload payload' holder holder') : AlikeBut sec.name holder holder' := by
  cases h with
  | top h => exact h
  | nested _ _ _ hs => exact hs

theorem DifferIn.agreeOutside_merge {payload payload' : Json}
    {holder holder' : List (String × Json)} (h : DifferIn sec payload payload' holder holder')
    (hw : sec.WellFormed holder ↔ sec.WellFormed holder') (s : Settings) :
    AgreeOutside sec (s.merge payload) (s.merge payload') := by
  obtain ⟨front, front', rest, hc, hc', hfront⟩ := h.candidates_eq
  rw [merge, merge, hc, hc', List.foldl_append, List.foldl_append, hfront]
  have hstart := AgreeOutside.refl sec (front'.foldl applyCandidate s)
  exact ((hstart.applyCandidate_alike h.alikeBut hw).applyCandidates rest).normalize

/-- **A malformed section takes its candidate along.** Payloads that differ only in the content of
one section lead to the same settings in the other sections, if that content is well-formed in both
or malformed in both. Where it is malformed, the payload counts as if it did not offer the object in
which the section stands, whatever the other sections of that object say. -/
theorem sections_apart_if_read_alike {payload payload' : Json}
    {holder holder' : List (String × Json)} (h : DifferIn sec payload payload' holder holder')
    (s : Settings) :
    ((sec.WellFormed holder ↔ sec.WellFormed holder') →
        AgreeOutside sec (s.merge payload) (s.merge payload')) ∧
      (¬ sec.WellFormed holder' → ∃ front rest,
        candidates payload' = front ++ .object holder' :: rest ∧
          s.merge payload' = ((front ++ rest).foldl applyCandidate s).normalize) := by
  refine ⟨fun hw => h.agreeOutside_merge hw s, fun hw => ?_⟩
  obtain ⟨-, front', rest, -, hc', -⟩ := h.candidates_eq
  refine ⟨front', rest, hc', ?_⟩
  rw [merge, hc', List.foldl_append, List.foldl_append, List.foldl_cons,
    applyCandidate_of_malformed hw]

namespace Sample

/-- Settings of two sections, the first of them with the given content. -/
def withMatching (content : Json) : List (String × Json) :=
  [("matching", content), ("logging", .object [("level", .string "debug")])]

def matchingOn : Json := .object [("includeConstructors", .bool true)]

/-- A text where a truth value belongs. -/
def matchingTypo : Json := .object [("includeConstructors", .string "yes")]

theorem alikeBut_withMatching (content content' : Json) :
    AlikeBut "matching" (withMatching content) (withMatching content') := by
  intro other hne
  simp [withMatching, List.filter, beq_eq_false_iff_ne.mpr (Ne.symm hne)]

theorem differIn_withMatching (content content' : Json) :
    DifferIn .matching (.object (withMatching content)) (.object (withMatching content'))
      (withMatching content) (withMatching content') :=
  .top (alikeBut_withMatching content content')

theorem matchingOn_wellFormed : Section.matching.WellFormed (withMatching matchingOn) :=
  ⟨⟨some true, none, none, none, none⟩, some [("includeConstructors", .bool true)],
    .value rfl nofun rfl, .value rfl nofun rfl⟩

theorem matchingNull_wellFormed : Section.matching.WellFormed (withMatching .null) :=
  ⟨⟨none, none, none, none, none⟩, none, .null rfl, .absent rfl⟩

theorem matchingTypo_malformed : ¬ Section.matching.WellFormed (withMatching matchingTypo) := by
  rintro ⟨p, inner, hinner, hfields⟩
  obtain ⟨field, hm, hn⟩ := Json.exists_member?_iff_entry.mpr hinner
  obtain rfl : some matchingTypo = field := Option.some.inj hm
  obtain rfl : some [("includeConstructors", Json.string "yes")] = inner := Option.some.inj hn
  obtain ⟨value, hv, hb⟩ := Json.exists_member?_iff_entry.mpr hfields
  obtain rfl : some (Json.string "yes") = value := Option.some.inj hv
  cases hb

end Sample

theorem sample_sections_apart :
    DifferIn .matching (.object (Sample.withMatching Sample.matchingOn))
      (.object (Sample.withMatching .null)) (Sample.withMatching Sample.matchingOn)
      (Sample.withMatching .null) ∧
    (Section.matching.WellFormed (Sample.withMatching Sample.matchingOn) ↔
      Section.matching.WellFormed (Sample.withMatching .null)) ∧
    Level.debug = (Settings.default.merge (.object (Sample.withMatching .null))).level ∧
    ¬ Section.matching.WellFormed (Sample.withMatching Sample.matchingTypo) ∧
    ∃ front rest, candidates (.object (Sample.withMatching Sample.matchingTypo)) =
        front ++ .object (Sample.withMatching Sample.matchingTypo) :: rest ∧
      Settings.default.merge (.object (Sample.withMatching Sample.matchingTypo)) =
        ((front ++ rest).foldl applyCandidate .default).normalize := by
  have hw : Section.matching.WellFormed (Sample.withMatching Sample.matchingOn) ↔
      Section.matching.WellFormed (Sample.withMatching .null) :=
    iff_of_true Sample.matchingOn_wellFormed Sample.matchingNull_wellFormed
  obtain ⟨hagree, -⟩ := sections_apart_if_read_alike
    (Sample.differIn_withMatching Sample.matchingOn .null) .default
  obtain ⟨-, hdropped⟩ := sections_apart_if_read_alike
    (Sample.differIn_withMatching Sample.matchingOn Sample.matchingTypo) .default
  have hlevel : (Settings.default.merge (.object (Sample.withMatching Sample.matchingOn))).level =
      .debug := rfl
  exact ⟨Sample.differIn_withMatching _ _, hw, hlevel.symm.trans ((hagree hw).logging nofun),
    Sample.matchingTypo_malformed, hdropped Sample.matchingTypo_malformed⟩

/-- A malformed section does not always leave the others alone: a text where the matching section
has a truth value also takes the logging level away. -/
theorem malformed_section_not_always_alone :
    ¬ ∀ (sec : Section) (payload payload' : Json) (holder holder' : List (String × Json)),
      DifferIn sec payload payload' holder holder' →
        ∀ s : Settings, AgreeOutside sec (s.merge payload) (s.merge payload') := by
  intro h
  have hlevel := (h _ _ _ _ _ (Sample.differIn_withMatching Sample.matchingOn Sample.matchingTypo)
    .default).logging nofun
  have hon : (Settings.default.merge (.object (Sample.withMatching Sample.matchingOn))).level =
      .debug := rfl
  have htypo : (Settings.default.merge (.object (Sample.withMatching Sample.matchingTypo))).level =
      .info := rfl
  rw [hon, htypo] at hlevel
  cases hlevel

end Settings
end Mentions
