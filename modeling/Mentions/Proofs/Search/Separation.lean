import Mentions.Proofs.Search.Reported

/-! # Texts do not interfere

A mention lies in the text of its visit's element, and all that an earlier visit can do to a later
one is to take a span of its text. So against a sink that judges each mention by itself, what is
offered and accepted in one text is what a search of the visits of that text alone would offer.
-/

namespace Mentions

/-- The sink answers every mention by itself, whatever its state. -/
def Sink.AnswersBy {σ : Type} (sink : Sink σ) (answer : Mention → Option Refusal) : Prop :=
  ∀ state m, (sink.offer state m).1 = answer m

namespace Search
variable {σ : Type} {s : Search} {sink : Sink σ} {state state' : SearchState σ} {v : Visit}
  {m : Mention} {o : Offer} {answer : Mention → Option Refusal} {key : String}

/-- Both states have taken the same spans of the text with the key. -/
def SameTaken (key : String) (state state' : SearchState σ) : Prop :=
  ∀ span, (key, span) ∈ state.taken ↔ (key, span) ∈ state'.taken

theorem spot_of_yields (hy : s.yields v = some m) : m.spot = (v.element.key, m.span) := by
  rw [Mention.spot, element_of_yields hy]

theorem element_of_offer (ho : s.offer? sink state v = some o) : o.mention.element = v.element := by
  obtain ⟨hy, -, -⟩ := offer?_eq_some_iff.mp ho
  exact element_of_yields hy

/-! ## One step -/

/-- What a visit gets offered depends on the spans taken of its own text only. -/
theorem offer?_eq_of_sameTaken (ha : sink.AnswersBy answer)
    (h : SameTaken v.element.key state state') :
    s.offer? sink state v = s.offer? sink state' v := by
  ext o
  rw [offer?_eq_some_iff, offer?_eq_some_iff, ha, ha]
  refine and_congr_right fun hy => ?_
  rw [spot_of_yields hy, h]

theorem SameTaken.step (ha : sink.AnswersBy answer) (h : SameTaken v.element.key state state') :
    SameTaken v.element.key (s.step sink state v).next (s.step sink state' v).next := by
  intro span
  have haccepted : s.accepted sink state [v] = s.accepted sink state' [v] := by
    simp only [accepted, offers, offer?_eq_of_sameTaken ha h]
  rw [taken_step, taken_step, haccepted, List.mem_append, List.mem_append, h]

/-- A visit in another text takes no span of this one. -/
theorem SameTaken.step_elsewhere (hk : v.element.key ≠ key) (h : SameTaken key state state') :
    SameTaken key (s.step sink state v).next state' := by
  intro span
  rw [← h]
  constructor
  · intro hin
    have hafter : (key, span) ∈ (s.after sink state [v]).taken := hin
    rcases resolvesTo_of_mem_taken hafter with hin | ⟨u, hu, m, hy, hspot⟩
    · exact hin
    · obtain rfl := List.mem_singleton.mp hu
      rw [spot_of_yields hy] at hspot
      exact absurd (congrArg Prod.fst hspot) hk
  · intro hin
    rw [taken_step]
    exact List.mem_append_right _ hin

theorem offer?_filter_key (state : SearchState σ) (v : Visit) :
    (s.offer? sink state v).toList.filter (·.mention.element.key = key) =
      if v.element.key = key then (s.offer? sink state v).toList else [] := by
  split
  · rename_i hk
    refine List.filter_eq_self.mpr fun o ho => ?_
    rw [element_of_offer (Option.mem_toList.mp ho)]
    exact decide_eq_true hk
  · rename_i hk
    refine List.filter_eq_nil_iff.mpr fun o ho => ?_
    rw [element_of_offer (Option.mem_toList.mp ho)]
    simpa using hk

/-! ## Runs -/

/-- The invariant is that both runs have taken the same spans of the text: a visit in the text is
offered alike in both, any other is passed over in one and leaves the text alone in the other. -/
theorem offers_filter_key (ha : sink.AnswersBy answer) (visits : List Visit)
    (h : SameTaken key state state') :
    (s.offers sink state visits).filter (·.mention.element.key = key) =
      s.offers sink state' (visits.filter (·.element.key = key)) := by
  induction visits generalizing state state' with
  | nil => rfl
  | cons v rest ih =>
    rw [offers, List.filter_append, offer?_filter_key]
    by_cases hk : v.element.key = key
    · subst hk
      rw [if_pos rfl, List.filter_cons_of_pos (by simp), offers, offer?_eq_of_sameTaken ha h,
        ih (h.step ha)]
    · rw [if_neg hk, List.nil_append, List.filter_cons_of_neg (by simpa using hk),
        ih (h.step_elsewhere hk)]

theorem accepted_filter_key (state : SearchState σ) (visits : List Visit) :
    (s.accepted sink state visits).filter (·.element.key = key) =
      (((s.offers sink state visits).filter (·.mention.element.key = key)).filter
        (·.answer.isNone)).map (·.mention) := by
  rw [accepted, List.filter_map, List.filter_filter, List.filter_filter]
  congr 2
  funext o
  exact Bool.and_comm _ _

/-- **Texts do not interfere.** To a sink that answers every mention by itself, the offers and the
accepted mentions of any visits that lie in one text are those of a new search of the visits in that
text alone. -/
theorem texts_searched_apart (ha : sink.AnswersBy answer) (start : σ) (visits : List Visit)
    (key : String) :
    let alone := visits.filter (·.element.key = key)
    (s.offers sink (begin start).state visits).filter (·.mention.element.key = key) =
        s.offers sink (begin start).state alone ∧
      (s.accepted sink (begin start).state visits).filter (·.element.key = key) =
        s.accepted sink (begin start).state alone := by
  intro alone
  have hsame : SameTaken key (begin start).state (begin start).state := fun span => Iff.rfl
  have hoffers := offers_filter_key (s := s) ha visits hsame
  refine ⟨hoffers, ?_⟩
  rw [accepted_filter_key, hoffers, accepted]

/-- The sample's import in another file with the same text. -/
def Sample.importElsewhere : Visit :=
  { Sample.importVisit with
    element := ⟨"Baz.groovy/Baz", none, some ⟨"Baz.groovy", Sample.file.source⟩⟩ }

def Sample.sureOnly (m : Mention) : Option Refusal :=
  if m.accuracy = .accurate then none else some (.rejected "unsure")

/-- A sink that takes accurate mentions only, and counts what it is offered. -/
def Sample.strict : Sink Nat := ⟨"app::Strict", fun n m => (Sample.sureOnly m, n + 1)⟩

theorem sample_file_searched_apart :
    Sample.strict.AnswersBy Sample.sureOnly ∧
    (Sample.search.offers Sample.strict (begin 0).state [Sample.importElsewhere,
        Sample.importVisit, Sample.useAgain, Sample.useVisit]).filter
        (·.mention.element.key = "Bar.groovy") =
      [⟨Sample.search.mention Sample.importVisit ⟨14, 9⟩, none⟩,
        ⟨Sample.search.mention Sample.useAgain ⟨25, 5⟩, some (.rejected "unsure")⟩,
        ⟨Sample.search.mention Sample.useVisit ⟨25, 5⟩, none⟩] := by
  have ha : Sample.strict.AnswersBy Sample.sureOnly := fun _ _ => rfl
  obtain ⟨hoffers, -⟩ := texts_searched_apart (s := Sample.search) ha 0 [Sample.importElsewhere,
    Sample.importVisit, Sample.useAgain, Sample.useVisit] "Bar.groovy"
  exact ⟨ha, hoffers⟩

end Search
end Mentions
