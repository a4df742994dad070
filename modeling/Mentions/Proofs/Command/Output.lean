import Mathlib.Tactic.SplitIfs
import Mentions.Proofs.Command.Load
import Mentions.Proofs.Json.Scan
import Mentions.Proofs.Search.Reported

/-! # What a run prints

`Ends` says all that a run with understood arguments can come to. A run succeeds exactly when its
settings, its source and its visits can be loaded, and it prints one line for each mention that a
search of the loaded visits has accepted; any other run prints nothing.
-/

namespace Mentions

/-! ## One line for one value -/

namespace Json

theorem newline_not_mem_escapeChar (c : Char) : '\n' ∉ escapeChar c := by
  have hdigit : ∀ d < 16, '\n' ≠ Nat.digitChar d := by decide
  unfold escapeChar
  split_ifs with hquote hslash hnewline hreturn htab hbackspace hfeed hcontrol
  -- but for digits and the character itself the escapes are fixed texts
  any_goals decide
  · simp [hdigit (c.toNat / 16) (by omega), hdigit (c.toNat % 16) (by omega)]
  · simpa using Ne.symm hnewline

theorem newline_not_mem_quote (s : String) : '\n' ∉ (quote s).toList := by
  simp [quote, newline_not_mem_escapeChar]

theorem newline_not_mem_integer (n : Int) : '\n' ∉ (render (.integer n)).toList := by
  have hdigits : ∀ m, '\n' ∉ Nat.toDigits 10 m := fun m h =>
    absurd (Number.isDigit_of_mem_toDigits h) (by decide)
  rw [render]
  rcases Number.toList_toString_cases n with ⟨m, -, ht⟩ | ⟨m, -, -, ht⟩
  · rw [ht]
    exact hdigits m
  · rw [ht]
    simp [hdigits]

theorem not_mem_intercalate {c : Char} {sep : List Char} (hsep : c ∉ sep) :
    ∀ texts : List (List Char), (∀ text ∈ texts, c ∉ text) → c ∉ sep.intercalate texts
  | [], _ => by simp
  | [text], h => by simpa using h
  | text :: next :: rest, h => by
    obtain ⟨htext, hrest⟩ := List.forall_mem_cons.mp h
    simp [List.intercalate_cons_cons, htext, hsep, not_mem_intercalate hsep (next :: rest) hrest]

theorem newline_not_mem_object {members : List (String × Json)}
    (h : ∀ m ∈ members, '\n' ∉ m.2.render.toList) : '\n' ∉ (render (.object members)).toList := by
  have hmembers : '\n' ∉ [','].intercalate
      (members.map fun m => (quote m.1 ++ ":" ++ m.2.render).toList) := by
    refine not_mem_intercalate (by decide) _ ?_
    intro text htext
    obtain ⟨m, hm, rfl⟩ := List.mem_map.mp htext
    simp [newline_not_mem_quote, h m hm]
  simpa [render, renderMembers_eq_map, Function.comp_def] using hmembers

end Json

/-! ## Lines -/

namespace Command
open FileTree
open Files (run_pure run_bind)

/-- The members that are printed of a mention: what was found and where, and in a source also the
text and the positions of its ends. -/
def printed (unit : Option SourceUnit) (m : Mention) : List (String × Json) :=
  [("element", .string m.element.handle), ("accuracy", .string m.accuracy.name),
    ("offset", .integer m.span.offset), ("length", .integer m.span.length)] ++
  match unit with
  | none => []
  | some unit =>
    [("text", .string (unit.source.slice m.span.offset m.span.length)),
      ("range", rangeJson (unit.source.range m.span))]

theorem line_ofMention (m : Mention) :
    (Report.ofMention m).line = (Json.object (printed m.element.unit m)).render := by
  rw [Report.line, Report.toJson, Report.ofMention]
  cases m.element.unit <;> rfl

theorem newline_not_mem_line (unit : Option SourceUnit) (m : Mention) :
    '\n' ∉ (Json.object (printed unit m)).render.toList := by
  have hposition : ∀ p : Position, '\n' ∉ p.toJson.render.toList := by
    intro p
    rw [Position.toJson]
    refine Json.newline_not_mem_object ?_
    simp [Json.newline_not_mem_integer]
  have hrange : ∀ r, '\n' ∉ (rangeJson r).render.toList := by
    intro r
    rw [rangeJson]
    refine Json.newline_not_mem_object ?_
    simp [hposition]
  have hstring : ∀ s, '\n' ∉ (Json.string s).render.toList := Json.newline_not_mem_quote
  refine Json.newline_not_mem_object ?_
  cases unit <;> simp [printed, hstring, hrange, Json.newline_not_mem_integer]

/-! ## Runs -/

/-- What a run comes to: it stops at settings that cannot be loaded, at a log file that cannot be
made ready, or at a source or visits that cannot be loaded; or it searches all visits. -/
inductive Ends (t : FileTree) (a : Arguments) : Outcome → Prop
  | badSettings {e : SettingsError} (h : ∀ s, ¬ HoldsSettings t a s) : Ends t a (.badSettings e)
  | badLogFile {s : Settings} {path : String} {e : ReadError} {t' : FileTree}
      (hs : HoldsSettings t a s) (hlog : (prepareLog files a.logFile).run t = (.error e, t')) :
      Ends t a (.badLogFile path e)
  | badInput {s : Settings} {e : Dump.LoadError} {t' : FileTree} (hs : HoldsSettings t a s)
      (hlog : (prepareLog files a.logFile).run t = (.ok (), t'))
      (h : ∀ unit recorded, HoldsSource t' a.source unit → ¬ HoldsVisits t' a.events recorded) :
      Ends t a (.ran (shownFor a s (.error e)))
  | searched {s : Settings} {unit : Option SourceUnit} {recorded : List Visit} {t' : FileTree}
      (hs : HoldsSettings t a s) (hlog : (prepareLog files a.logFile).run t = (.ok (), t'))
      (hunit : HoldsSource t' a.source unit) (hvisits : HoldsVisits t' a.events recorded) :
      Ends t a (.ran (shownFor a s (.ok (recorded.map (·.within unit)))))

theorem ends_run (t : FileTree) {args : List String} {a : Arguments}
    (hargs : Arguments.parse args = .ok a) : Ends t a ((run files args).run t).1 := by
  obtain ⟨r, hr, hsettings⟩ := run_loadSettings t a
  simp only [run, hargs, runWith, run_bind, hr]
  cases r with
  | error e => exact .badSettings fun s hs => nomatch (hsettings s).mpr hs
  | ok s =>
    have hs := (hsettings s).mp rfl
    simp only [run_bind]
    cases hlog : (prepareLog files a.logFile).run t with
    | mk r t' =>
      cases r with
      | error e => exact .badLogFile hs hlog
      | ok _ =>
        obtain ⟨r, hr, hvisits⟩ := run_loadVisits t' a
        simp only [run_bind, hr]
        cases r with
        | error e =>
          refine .badInput hs hlog fun unit recorded hunit hrecorded => ?_
          cases (hvisits _).mpr ⟨unit, recorded, hunit, hrecorded, rfl⟩
        | ok visits =>
          obtain ⟨unit, recorded, hunit, hrecorded, rfl⟩ := (hvisits visits).mp rfl
          exact .searched hs hlog hunit hrecorded

theorem query_eq (a : Arguments) :
    a.query = ⟨some a.name, a.qualifier, a.caseSensitive, a.camelCase⟩ := by
  rw [Arguments.query]
  cases a.qualifier <;> rfl

/-- The search of a run holds the mentions that it accepted. -/
theorem search_holds_accepted (q : Query) (s : Settings) (visits : List Visit) :
    (search q s visits).state.sink.toList =
      (Search.ofQuery q collector.origin defaultParticipant s).accepted collector
        (Search.begin #[]).state visits := by
  obtain ⟨-, hstate⟩ := Search.replay_visitor
    (Search.ofQuery q collector.origin defaultParticipant s) collector (Search.begin #[]) visits
  rw [search, hstate, Search.collector_holds_accepted]
  rfl

section
variable {search : Search} {unit : Option SourceUnit} {recorded : List Visit} {m : Mention}

theorem unit_of_accepted (hm : m ∈ search.accepted collector (Search.begin #[]).state
    (recorded.map (·.within unit))) : m.element.unit = unit := by
  obtain ⟨v, hv, hy, -⟩ := Search.exists_visit_of_offer (Search.mem_accepted_iff.mp hm)
  obtain ⟨v, -, rfl⟩ := List.mem_map.mp hv
  rw [Search.element_of_yields hy, Visit.within]

/-- In one source no span is accepted twice. -/
theorem spans_nodup (source : SourceUnit) (visits : List Visit)
    (hvisits : visits = recorded.map (·.within (some source))) :
    ((search.accepted collector (Search.begin #[]).state visits).map Mention.span).Nodup := by
  have hspots := Search.accepted_spots_nodup search collector #[] visits
  have hkey : (search.accepted collector (Search.begin #[]).state visits).map Mention.spot =
      ((search.accepted collector (Search.begin #[]).state visits).map Mention.span).map
        fun span => (source.id, span) := by
    rw [List.map_map]
    refine List.map_congr_left fun m hm => ?_
    rw [hvisits] at hm
    rw [Mention.spot, Element.key, unit_of_accepted hm]
    rfl
  rw [hkey] at hspots
  exact hspots.of_map

end

theorem HoldsSettings.unique {t : FileTree} {a : Arguments} {s s' : Settings}
    (h : HoldsSettings t a s) (h' : HoldsSettings t a s') : s = s' := by
  obtain ⟨r, -, hr⟩ := run_loadSettings t a
  exact Except.ok.inj (((hr s).mpr h).symm.trans ((hr s').mpr h'))

theorem HoldsSource.unique {t : FileTree} {path : Option String} {unit unit' : Option SourceUnit}
    (h : HoldsSource t path unit) (h' : HoldsSource t path unit') : unit = unit' := by
  obtain ⟨r, -, hr⟩ := run_loadSource t path
  exact Except.ok.inj (((hr unit).mpr h).symm.trans ((hr unit').mpr h'))

theorem HoldsSource.isSome_eq {t : FileTree} {path : Option String} {unit : Option SourceUnit}
    (h : HoldsSource t path unit) : path.isSome = unit.isSome := by
  cases h <;> rfl

theorem HoldsVisits.unique {t : FileTree} {path : String} {visits visits' : List Visit}
    (h : HoldsVisits t path visits) (h' : HoldsVisits t path visits') : visits = visits' := by
  obtain ⟨hread, hparse⟩ := h
  obtain ⟨hread', hparse'⟩ := h'
  rw [hread] at hread'
  cases hread'
  exact Option.some.inj (hparse.symm.trans hparse')

/-- **A run prints what its search accepts, or nothing.** With understood arguments, and a log file
that can be made ready if one is named, a run succeeds exactly when its settings, its source and its
visits can be loaded; otherwise it prints nothing. A run that succeeds prints, in order, one line
for each mention that a new search of all loaded visits has accepted by the collector, where every
visit is as it was recorded but for the source unit of its element. With a source all lines have the
text and the positions, and no two the same span; without one no line has them. -/
theorem prints_accepted_mentions {t t' : FileTree} {args : List String} {a : Arguments}
    (hargs : Arguments.parse args = .ok a)
    (hlog : (prepareLog files a.logFile).run t = (.ok (), t')) :
    let outcome := ((run files args).run t).1
    (outcome.exitCode = 0 ↔ (∃ s, HoldsSettings t a s) ∧ (∃ unit, HoldsSource t' a.source unit) ∧
      ∃ recorded, HoldsVisits t' a.events recorded) ∧
    (outcome.exitCode ≠ 0 → outcome.output = []) ∧
    ∀ s unit recorded, HoldsSettings t a s → HoldsSource t' a.source unit →
      HoldsVisits t' a.events recorded →
        let search := Search.ofQuery ⟨some a.name, a.qualifier, a.caseSensitive, a.camelCase⟩
          collector.origin defaultParticipant s
        let accepted := search.accepted collector (Search.begin #[]).state
          (recorded.map (·.within unit))
        outcome.output = accepted.map (fun m => (Json.object (printed unit m)).render) ∧
          (∀ line ∈ outcome.output, '\n' ∉ line.toList) ∧
          (a.source.isSome = unit.isSome ∧ (unit.isSome → (accepted.map Mention.span).Nodup)) := by
  intro outcome
  have hends : Ends t a outcome := ends_run t hargs
  generalize outcome = o at hends ⊢
  cases hends with
  | badSettings h =>
    refine ⟨⟨nofun, fun ⟨⟨s, hs⟩, _⟩ => absurd hs (h s)⟩, fun _ => rfl, fun s _ _ hs => ?_⟩
    exact absurd hs (h s)
  | badLogFile hs h =>
    rw [hlog] at h
    cases h
  | badInput hs h hnone =>
    rw [hlog] at h
    cases h
    refine ⟨⟨nofun, fun ⟨_, ⟨unit, hunit⟩, recorded, hvisits⟩ => ?_⟩, fun _ => rfl,
      fun s unit recorded _ hunit hvisits => ?_⟩
    · exact absurd hvisits (hnone unit recorded hunit)
    · exact absurd hvisits (hnone unit recorded hunit)
  | @searched s unit recorded _ hs h hunit hvisits =>
    rw [hlog] at h
    cases h
    refine ⟨iff_of_true rfl ⟨⟨_, hs⟩, ⟨_, hunit⟩, _, hvisits⟩, fun h => absurd rfl h,
      fun s' unit' recorded' hs' hunit' hvisits' => ?_⟩
    obtain rfl := hs.unique hs'
    obtain rfl := hunit.unique hunit'
    obtain rfl := hvisits.unique hvisits'
    intro search accepted
    have houtput : Outcome.output (.ran (shownFor a s (.ok (recorded.map (·.within unit))))) =
        accepted.map fun m => (Json.object (printed unit m)).render := by
      simp only [Outcome.output, shownFor, search_holds_accepted, query_eq, List.map_map]
      refine List.map_congr_left fun m hm => ?_
      rw [Function.comp_apply, line_ofMention, unit_of_accepted hm]
    refine ⟨houtput, fun line hline => ?_, ?_, fun hsome => ?_⟩
    · rw [houtput] at hline
      obtain ⟨m, -, rfl⟩ := List.mem_map.mp hline
      exact newline_not_mem_line unit m
    · exact hunit.isSome_eq
    · obtain ⟨source, rfl⟩ := Option.isSome_iff_exists.mp hsome
      exact spans_nodup source _ rfl

namespace Sample

/-- One use of a class, visited twice. -/
def dump : String :=
  let use := "[[\"classReference\",\"Foo\",[2,5]],[[\"Foo\",[2,5]],\"EXACT\"],[\"Bar\"]]"
  "[" ++ use ++ "," ++ use ++ "]"

def workspace : FileTree where
  entries := [(["work"], .directory), (["work", "visits.json"], .file dump.toUTF8),
    (["work", "Bar.groovy"], .file "= Foo.x".toUTF8)]
  working := ["work"]

def words : List String :=
  ["--events", "visits.json", "--source=Bar.groovy", "--name", "Foo", "-v"]

def arguments : Arguments where
  events := "visits.json"
  source := some "Bar.groovy"
  name := "Foo"
  qualifier := none
  caseSensitive := false
  camelCase := false
  config := none
  verbose := true
  logFile := none

theorem parse_words : Arguments.parse words = .ok arguments := by decide +kernel

theorem holdsSettings : HoldsSettings workspace arguments .default :=
  .default (by decide +kernel)

theorem holdsSource : HoldsSource workspace (some "Bar.groovy")
    (some ⟨"/work/Bar.groovy", .ofString "= Foo.x"⟩) := by
  have hcanonical : (workspace.canonical "Bar.groovy").getD "Bar.groovy" = "/work/Bar.groovy" := by
    decide +kernel
  rw [← hcanonical]
  exact .file (read_of_text rfl rfl)

def visits : List Visit := (Dump.parse? dump).get (by decide +kernel)

theorem holdsVisits : HoldsVisits workspace "visits.json" visits :=
  .file (read_of_text rfl rfl) (Option.some_get _).symm

end Sample

theorem sample_run_prints_one_line :
    Arguments.parse Sample.words = .ok Sample.arguments ∧
    (prepareLog files none).run Sample.workspace = (.ok (), Sample.workspace) ∧
    (((run files Sample.words).run Sample.workspace).1.exitCode = 0 ∧
    ((run files Sample.words).run Sample.workspace).1.output =
      ["\x7b\"element\":\"Bar\",\"accuracy\":\"accurate\",\"offset\":2,\"length\":3,\"text\":\"Foo\"," ++
        "\"range\":\x7b\"start\":\x7b\"line\":0,\"character\":2\x7d,\"end\":\x7b\"line\":0,\"character\":5\x7d\x7d\x7d"]) := by
  have hlog : (prepareLog files Sample.arguments.logFile).run Sample.workspace =
      (.ok (), Sample.workspace) := rfl
  obtain ⟨hexit, -, hprints⟩ := prints_accepted_mentions Sample.parse_words hlog
  obtain ⟨houtput, -⟩ := hprints _ _ _ Sample.holdsSettings Sample.holdsSource Sample.holdsVisits
  refine ⟨Sample.parse_words, hlog, hexit.mpr ?_, houtput.trans (by decide +kernel)⟩
  exact ⟨⟨_, Sample.holdsSettings⟩, ⟨_, Sample.holdsSource⟩, _, Sample.holdsVisits⟩

end Command
end Mentions
