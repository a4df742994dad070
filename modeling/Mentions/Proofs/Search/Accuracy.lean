import Mathlib.Data.List.Infix
import Mentions.Proofs.Search.Offered
import Mentions.Proofs.Settings.Merge

/-! # Which mentions are accurate

A mention is accurate when its type is known for sure, or when the sink lives in a module that the
marker of the settings occurs in. No payload can make the marker empty, which would occur in every
module; so a sink that lives in no module gets no mention as accurate but the sure ones.
-/

namespace Mentions

theorem occursIn_iff_infix {needle : List Char} :
    ∀ {hay : List Char}, occursIn needle hay = true ↔ needle <:+: hay
  | [] => by simp [occursIn]
  | c :: hay => by simp [occursIn, List.infix_cons_iff, occursIn_iff_infix]

theorem beforeLastSeparator_of_not_infix {cs : List Char} (h : ¬ [':', ':'] <:+: cs) :
    beforeLastSeparator cs = none := by
  induction cs with
  | nil => rfl
  | cons c rest ih =>
    rw [List.infix_cons_iff, not_or] at h
    obtain ⟨hfirst, hrest⟩ := h
    have hnot : ¬ (c = ':' ∧ rest.head? = some ':') := by
      rintro ⟨rfl, hhead⟩
      obtain ⟨tail, rfl⟩ := List.head?_eq_some_iff.mp hhead
      exact hfirst ⟨tail, rfl⟩
    simp [beforeLastSeparator, ih hrest, hnot]

/-- A path without a double colon before its generic arguments lies in no module. -/
theorem owningModule_of_not_infix {path : String}
    (h : ¬ [':', ':'] <:+: path.toList.takeWhile (· != '<')) : owningModule path = "" := by
  rw [owningModule, beforeLastSeparator_of_not_infix h]
  rfl

namespace Search

theorem accuracy_eq_accurate_iff {s : Search} {c : Confidence} :
    s.accuracy c = .accurate ↔ c = .exact ∨ s.alwaysAccurate = true := by
  cases hs : s.alwaysAccurate with
  | true => simp [accuracy, hs]
  | false => simp [accuracy, hs]

section
variable {σ : Type} {sink : Sink σ} {state : SearchState σ} {v : Visit} {m : Mention}
  {q : Query} {participant : String} {settings : Settings}

theorem accurate_iff_of_offered
    (hm : ((ofQuery q sink.origin participant settings).step sink state v).offered = some m) :
    m.accuracy = .accurate ↔ v.inference.confidence = .exact ∨
      settings.alwaysAccurateMarker.toList <:+: (owningModule sink.origin).toList := by
  obtain ⟨hy, -⟩ := offered_eq_some_iff.mp hm
  have hmention := eq_mention_of_yields hy
  rw [hmention, mention, accuracy_eq_accurate_iff, ofQuery, occursIn_iff_infix]

theorem accurate_iff_exact_of_offered (hne : settings.alwaysAccurateMarker ≠ "")
    (hmodule : ¬ [':', ':'] <:+: sink.origin.toList.takeWhile (· != '<'))
    (hm : ((ofQuery q sink.origin participant settings).step sink state v).offered = some m) :
    m.accuracy = .accurate ↔ v.inference.confidence = .exact := by
  rw [accurate_iff_of_offered hm, owningModule_of_not_infix hmodule]
  simp [hne]

end

/-- **A mention is accurate by its confidence or by the marker, which no payload makes blank.**
After any payloads the marker is not empty and has no blank at either end. In a search with these
settings, after any visits, an offered mention is accurate exactly when its type is known for sure
or the marker occurs in the module of the sink; and if the sink lives in no module, exactly when its
type is known for sure. -/
theorem accurate_iff_sure_or_marked (payloads : List Json) :
    let settings := Settings.ofPayloads payloads
    let marker := settings.alwaysAccurateMarker
    marker ≠ "" ∧ Text.Unpadded marker ∧
      ∀ (σ : Type) (sink : Sink σ) (start : σ) (q : Query) (participant : String)
        (visits : List Visit) (v : Visit) (m : Mention),
        let s := ofQuery q sink.origin participant settings
        (s.step sink (s.after sink (begin start).state visits) v).offered = some m →
        (m.accuracy = .accurate ↔ v.inference.confidence = .exact ∨
            marker.toList <:+: (owningModule sink.origin).toList) ∧
          (¬ [':', ':'] <:+: sink.origin.toList.takeWhile (· != '<') →
            (m.accuracy = .accurate ↔ v.inference.confidence = .exact)) := by
  intro settings marker
  obtain ⟨written, hclean⟩ := Settings.exists_marker_ofPayloads payloads
  have hmarker : marker = Settings.cleanMarker written := hclean
  have hne : marker ≠ "" := hmarker.trans_ne (Settings.cleanMarker_ne_empty written)
  have hunpadded : Text.Unpadded marker := by
    rw [hmarker]
    exact Settings.unpadded_cleanMarker written
  refine ⟨hne, hunpadded, ?_⟩
  intro σ sink start q participant visits v m s hm
  exact ⟨accurate_iff_of_offered hm, fun hmodule => accurate_iff_exact_of_offered hne hmodule hm⟩

namespace Sample

/-- A blank marker, and a payload that is no patch. -/
def blankPayloads : List Json :=
  [.object [("accuracy", .object [("alwaysAccurateMarker", .string " \t")])], .bool true]

/-- The collector as known under a path. -/
def collectorAt (origin : String) : Sink (Array Mention) := { collector with origin }

/-- The use in the sample, of which the type is a guess. -/
def guessVisit : Visit := { useVisit with inference := ⟨useVisit.inference.type?, .inferred⟩ }

def searchFor (sink : Sink (Array Mention)) : Search :=
  .ofQuery ((Query.ofName "Foo😀").qualified "pkg") sink.origin defaultParticipant
    (.ofPayloads blankPayloads)

/-- What is offered of the guess after the import. -/
def guessOffered (sink : Sink (Array Mention)) : Option Mention :=
  ((searchFor sink).step sink ((searchFor sink).after sink (begin #[]).state [importVisit])
    guessVisit).offered

def guessMention (sink : Sink (Array Mention)) : Mention :=
  (searchFor sink).mention guessVisit ⟨25, 5⟩

end Sample

theorem sample_guess_judged_by_module :
    let marked := Sample.collectorAt "tools::refactoring::Rename<a::b>"
    let homeless := Sample.collectorAt "Rename<refactoring::All>"
    Sample.guessOffered marked = some (Sample.guessMention marked) ∧
    (Sample.guessMention marked).accuracy = .accurate ∧
    Sample.guessOffered homeless = some (Sample.guessMention homeless) ∧
    ¬ [':', ':'] <:+: homeless.origin.toList.takeWhile (· != '<') ∧
    (Sample.guessMention homeless).accuracy ≠ .accurate := by
  intro marked homeless
  obtain ⟨-, -, h⟩ := accurate_iff_sure_or_marked Sample.blankPayloads
  have hmarked : Sample.guessOffered marked = some (Sample.guessMention marked) := rfl
  have hhomeless : Sample.guessOffered homeless = some (Sample.guessMention homeless) := rfl
  have hmodule : ¬ [':', ':'] <:+: homeless.origin.toList.takeWhile (· != '<') := by decide
  obtain ⟨hmark, -⟩ := h _ marked #[] _ _ _ _ _ hmarked
  obtain ⟨-, hexact⟩ := h _ homeless #[] _ _ _ _ _ hhomeless
  have hmarker : (Settings.ofPayloads Sample.blankPayloads).alwaysAccurateMarker =
      "refactoring" := by rfl
  have howner : owningModule marked.origin = "tools::refactoring" := by decide +kernel
  refine ⟨hmarked, hmark.mpr (.inr ?_), hhomeless, hmodule, ?_⟩
  · rw [hmarker, howner]
    decide
  · rw [Ne, hexact hmodule]
    decide

end Search
end Mentions
