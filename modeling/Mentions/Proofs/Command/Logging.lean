import Mentions.Proofs.Command.Output
import Mentions.Proofs.FileTree.Alike
import Mentions.Proofs.Settings.Sections
import Mentions.Proofs.Toml.Apart

/-! # What the logging options change

The matching flags of the arguments and the level of the log have no say in what a run finds: two
runs that differ in them only come to the same records, of which each shows those that its level
lets through.
-/

namespace Mentions

/-! ## Lines of the standard error -/

/-- The lines of a text. -/
def Text.lines (text : String) : List String := (text.toList.splitOn '\n').map String.ofList

/-- The lines that a record fills, each with the level that it shows. Only the first line of a
record shows its level. -/
def Notice.lines (n : Notice) : List (Option Level × String) :=
  match Text.lines (Notice.shown n.message) with
  | [] => []
  | first :: rest => (some n.level, first) :: rest.map (none, ·)

theorem Notice.lines_eq_of_length {n : Notice} (h : n.lines.length = 1) :
    ∃ text, n.lines = [(some n.level, text)] := by
  unfold lines at h ⊢
  cases hlines : Text.lines (shown n.message) with
  | nil => simp [hlines] at h
  | cons first rest =>
    have hrest : rest = [] := by simpa [hlines] using h
    exact ⟨first, by simp only [hrest, List.map_nil]⟩

namespace Command
open FileTree
open Files (run_pure run_bind)

namespace Outcome

/-- The lines of complaints and of records after them. -/
def linesOf (complaints : List String) (log : List Notice) : List (Option Level × String) :=
  (complaints.flatMap Text.lines).map (none, ·) ++ log.flatMap Notice.lines

/-- The lines of the standard error. -/
def errorLines (o : Outcome) : List (Option Level × String) := linesOf o.complaints o.log

/-- The lines of the standard error, without the records that a level keeps out. -/
def errorLinesThrough (level : Level) (o : Outcome) : List (Option Level × String) :=
  linesOf o.complaints (o.log.filter (level.passes ·.level))

/-- Everything that is recorded, whether the level lets it through or not. -/
def records : Outcome → List Notice
  | ran shown => shown.notices
  | _ => []

/-- The outcome with another level of the log. -/
def withThreshold (level : Level) : Outcome → Outcome
  | ran shown => ran { shown with threshold := level }
  | o => o

variable (level : Level) (o : Outcome)

theorem exitCode_withThreshold : (o.withThreshold level).exitCode = o.exitCode := by
  cases o <;> rfl

theorem output_withThreshold : (o.withThreshold level).output = o.output := by
  cases o <;> rfl

theorem complaints_withThreshold : (o.withThreshold level).complaints = o.complaints := by
  cases o <;> rfl

theorem log_withThreshold :
    (o.withThreshold level).log = o.records.filter (level.passes ·.level) := by
  cases o <;> rfl

end Outcome

/-- Where every record fills one line, the lines that a level keeps are those at or above it and
those without a level. -/
theorem filter_lines {log : List Notice} (h : ∀ n ∈ log, n.lines.length = 1) (level : Level) :
    (log.flatMap Notice.lines).filter (·.1.all level.passes) =
      (log.filter (level.passes ·.level)).flatMap Notice.lines := by
  induction log with
  | nil => rfl
  | cons n rest ih =>
    obtain ⟨hn, hrest⟩ := List.forall_mem_cons.mp h
    obtain ⟨text, hline⟩ := Notice.lines_eq_of_length hn
    rw [List.flatMap_cons, List.filter_append, ih hrest, hline]
    by_cases hpass : level.passes n.level = true
    · simp [hpass, hline]
    · simp [hpass]

theorem Outcome.errorLinesThrough_eq_filter {o : Outcome} (h : ∀ n ∈ o.log, n.lines.length = 1)
    (level : Level) : o.errorLinesThrough level = o.errorLines.filter (·.1.all level.passes) := by
  rw [errorLinesThrough, errorLines, linesOf, linesOf, List.filter_append, filter_lines h]
  congr 1
  refine (List.filter_eq_self.mpr ?_).symm
  intro line hline
  obtain ⟨text, -, rfl⟩ := List.mem_map.mp hline
  rfl

/-! ## Invocations -/

/-- The arguments are the same but for the matching flags and the flag that makes the log
verbose. -/
def Arguments.AlikeButFlags (a a' : Arguments) : Prop :=
  a' = { a with
    caseSensitive := a'.caseSensitive, camelCase := a'.camelCase, verbose := a'.verbose }

/-- The trees are the same, or they are so but for the logging section in the settings file of a
run, which is well-formed in both. -/
inductive AlikeButLevel (a : Arguments) (t : FileTree) : FileTree → Prop
  | same : AlikeButLevel a t t
  | level {t' : FileTree} {path text text' : String} {spot : Place} {content content' : ByteArray}
      {payload payload' : Json} {holder holder' : List (String × Json)}
      (hfile : a.settingsFile? t = some path) (hspot : t.locate path = .ok spot)
      (hrest : AlikeBut spot content content' t t')
      (hread : t.read path = .ok text) (hread' : t'.read path = .ok text')
      (hparse : Toml.parse? text = some payload) (hparse' : Toml.parse? text' = some payload')
      (hdiffer : Settings.DifferIn .logging payload payload' holder holder')
      (hvalid : Settings.Section.logging.WellFormed holder)
      (hvalid' : Settings.Section.logging.WellFormed holder') : AlikeButLevel a t t'

/-- The source of a run, if one is named, is not its settings file. -/
def SourceApart (a : Arguments) (t : FileTree) : Prop :=
  ∀ source settings, a.source = some source → a.settingsFile? t = some settings →
    ((prepareLog files a.logFile).run t).2.locate source ≠ t.locate settings

variable {a a' : Arguments} {t t' : FileTree} {spot : Place} {content content' : ByteArray}

/-! ## Loading -/

theorem settings_of_toml {text : String} {payload : Json} (h : Toml.parse? text = some payload) :
    Settings.parse? text = some (Settings.default.merge payload) := by
  rw [Settings.parse?, h]
  rfl

theorem settings_eq_of_agreeOutside_logging {s s' : Settings}
    (h : Settings.AgreeOutside .logging s s') : s' = { s with level := s'.level } := by
  obtain ⟨hm, ht, ha, -⟩ := h
  cases s
  cases s'
  simp_all

theorem settingsFile?_of_alikeBut (h : AlikeBut spot content content' t t') (a : Arguments) :
    a.settingsFile? t = a.settingsFile? t' := by
  simp only [Arguments.settingsFile?, nearestSettings?, h.isFile_eq]

theorem loadSettings_of_alikeButFlags (h : a.AlikeButFlags a') :
    loadSettings files a' = loadSettings files a := by
  rw [h]
  rfl

/-- The settings are loaded in both trees or in neither, and only their levels differ. -/
theorem loadSettings_alike (hflags : a.AlikeButFlags a') (hlevel : AlikeButLevel a t t') :
    (∃ e, (loadSettings files a).run t = (.error e, t) ∧
      (loadSettings files a').run t' = (.error e, t')) ∨
    ∃ s level, (loadSettings files a).run t = (.ok s, t) ∧
      (loadSettings files a').run t' = (.ok { s with level }, t') := by
  rw [loadSettings_of_alikeButFlags hflags]
  cases hlevel with
  | same =>
    obtain ⟨r, hr, -⟩ := run_loadSettings t a
    cases r with
    | error e => exact .inl ⟨e, hr, hr⟩
    | ok s => exact .inr ⟨s, s.level, hr, hr⟩
  | level hfile hspot hrest hread hread' hparse hparse' hdiffer hvalid hvalid' =>
    obtain ⟨r, hr, hiff⟩ := run_loadSettings t a
    obtain ⟨r', hr', hiff'⟩ := run_loadSettings t' a
    have hfile' := (settingsFile?_of_alikeBut hrest a).symm.trans hfile
    have hs := (hiff _).mpr (.file hfile hread (settings_of_toml hparse))
    have hs' := (hiff' _).mpr (.file hfile' hread' (settings_of_toml hparse'))
    have hagree := hdiffer.agreeOutside_merge (iff_of_true hvalid hvalid') .default
    rw [hs] at hr
    rw [hs', settings_eq_of_agreeOutside_logging hagree] at hr'
    exact .inr ⟨_, _, hr, hr'⟩

/-- The log file is made ready in both trees or in neither. -/
theorem prepareLog_alike (h : AlikeBut spot content content' t t') (path : Option String) :
    ((prepareLog files path).run t).1 = ((prepareLog files path).run t').1 ∧
      AlikeBut spot content content' ((prepareLog files path).run t).2
        ((prepareLog files path).run t').2 := by
  cases path with
  | none => exact ⟨rfl, h⟩
  | some path =>
    have hprepare := h.prepare (logFileParts path).1 (logFileParts path).2
    simp only [prepareLog, run_prepare]
    generalize t.prepare (logFileParts path).1 (logFileParts path).2 = r at hprepare ⊢
    generalize t'.prepare (logFileParts path).1 (logFileParts path).2 = r' at hprepare ⊢
    cases hprepare with
    | failed e => exact ⟨rfl, h⟩
    | done hmade => exact ⟨rfl, hmade⟩

/-- Visits are loaded alike from texts that are the same, and from texts neither of which is a
dump. -/
theorem loadDump_congr {path : String} (unit : Option SourceUnit)
    (hread : t.read path = t'.read path ∨ ∃ text text', t.read path = .ok text ∧
      t'.read path = .ok text' ∧ Dump.parse? text = none ∧ Dump.parse? text' = none) :
    ((Dump.load files path unit).run t).1 = ((Dump.load files path unit).run t').1 := by
  obtain hread | ⟨text, text', hread, hread', hnone, hnone'⟩ := hread
  · simp only [Dump.load, run_bind, run_read, hread]
    cases t'.read path with
    | error e => rfl
    | ok text =>
      cases hparse : Dump.parse? text with
      | none => simp only [hparse, run_pure]
      | some visits => cases unit <;> simp only [hparse, run_pure]
  · simp only [Dump.load, run_bind, run_read, hread, hread', hnone, hnone', run_pure]

theorem loadSource_congr {path : String} (hread : t.read path = t'.read path)
    (hcanonical : t.canonical = t'.canonical) :
    ((loadSource files (some path)).run t).1 = ((loadSource files (some path)).run t').1 := by
  simp only [loadSource, Dump.loadUnit, SourceUnit.load, SourceUnit.idOfPath, run_bind, run_read,
    hread]
  cases t'.read path with
  | error e => rfl
  | ok text => simp only [run_bind, run_canonical, hcanonical, run_pure]

theorem loadVisits_congr
    (hsource : ((loadSource files a.source).run t).1 = ((loadSource files a.source).run t').1)
    (hdump : ∀ unit, ((Dump.load files a.events unit).run t).1 =
      ((Dump.load files a.events unit).run t').1) :
    ((loadVisits files a).run t).1 = ((loadVisits files a).run t').1 := by
  obtain ⟨r, hr, -⟩ := run_loadSource t a.source
  obtain ⟨r', hr', -⟩ := run_loadSource t' a.source
  rw [hr, hr'] at hsource
  obtain rfl : r = r' := hsource
  rw [loadVisits, run_bind, run_bind, hr, hr']
  cases r with
  | error e => rfl
  | ok unit => exact hdump unit

theorem loadVisits_of_alikeButFlags (h : a.AlikeButFlags a') :
    loadVisits files a' = loadVisits files a := by
  rw [h]
  rfl

theorem logFile_of_alikeButFlags (h : a.AlikeButFlags a') : a'.logFile = a.logFile := by
  rw [h]

/-- In both trees the log file is made ready or not, and the same visits are loaded then. Where the
settings file is the dump, it is none in either tree. -/
theorem loadVisits_alike (hlevel : AlikeButLevel a t t') (hapart : t = t' ∨ SourceApart a t) :
    ((prepareLog files a.logFile).run t).1 = ((prepareLog files a.logFile).run t').1 ∧
      ((loadVisits files a).run ((prepareLog files a.logFile).run t).2).1 =
        ((loadVisits files a).run ((prepareLog files a.logFile).run t').2).1 := by
  cases hlevel with
  | same => exact ⟨rfl, rfl⟩
  | @level _ path text text' spot _ _ _ _ _ _ hfile hspot hrest hread hread' hparse hparse' =>
    obtain rfl | hapart := hapart
    · exact ⟨rfl, rfl⟩
    obtain ⟨hready, hmade⟩ := prepareLog_alike hrest a.logFile
    have hspot' : t'.locate path = .ok spot := by rw [← hrest.locate_eq, hspot]
    refine ⟨hready, loadVisits_congr ?_ fun unit => loadDump_congr unit ?_⟩
    · cases hs : a.source with
      | none => rfl
      | some source =>
        refine loadSource_congr (hmade.read_eq ?_) hmade.canonical_eq
        rw [← hspot]
        exact hapart source path hs hfile
    · by_cases hdump : ((prepareLog files a.logFile).run t).2.locate a.events = .ok spot
      · right
        refine ⟨text, text', ?_, ?_, Dump.parse?_eq_none_of_toml hparse,
          Dump.parse?_eq_none_of_toml hparse'⟩
        · rw [read_eq_of_entry_eq hdump hspot (hmade.left.trans hrest.left.symm), hread]
        · rw [hmade.locate_eq] at hdump
          rw [read_eq_of_entry_eq hdump hspot' (hmade.right.trans hrest.right.symm), hread']
      · exact .inl (hmade.read_eq hdump)

/-! ## Searching -/

/-- No step of a search reads the two flags or the level. -/
theorem visitor_alike (search : Search) (caseSensitive camelCase : Bool) (level : Level) :
    Search.visitor { search with
      caseSensitive, camelCase, settings := { search.settings with level } } collector =
      search.visitor collector := rfl

theorem search_alike (q : Query) (s : Settings) (caseSensitive camelCase : Bool) (level : Level)
    (visits : List Visit) :
    search { q with caseSensitive, camelCase } { s with level } visits = search q s visits :=
  congrArg (fun visitor => (replay visitor (Search.begin #[]) visits).2)
    (visitor_alike (.ofQuery q collector.origin defaultParticipant s) caseSensitive camelCase level)

theorem shownFor_threshold (a : Arguments) (s : Settings)
    (r : Except Dump.LoadError (List Visit)) :
    { shownFor a s r with threshold := a.threshold s } = shownFor a s r := by
  cases r <;> rfl

theorem shownFor_alike (h : a.AlikeButFlags a') (s : Settings) (level : Level)
    (r : Except Dump.LoadError (List Visit)) :
    shownFor a' { s with level } r =
      { shownFor a s r with threshold := a'.threshold { s with level } } := by
  cases r with
  | error e => rfl
  | ok visits =>
    have hquery : a'.query =
        { a.query with caseSensitive := a'.caseSensitive, camelCase := a'.camelCase } := by
      rw [query_eq, query_eq, h]
    simp only [shownFor, hquery, search_alike]
    rfl

/-! ## Runs -/

/-- Both runs stop at their settings, or they come to the same but for the level of the log. -/
theorem runs_alike {args args' : List String} (hargs : Arguments.parse args = .ok a)
    (hargs' : Arguments.parse args' = .ok a') (hflags : a.AlikeButFlags a')
    (hlevel : AlikeButLevel a t t') (hapart : t = t' ∨ SourceApart a t) :
    (((run files args').run t').1 = ((run files args).run t).1 ∧ ∀ s, ¬ HoldsSettings t a s) ∨
    ∃ o s s', HoldsSettings t a s ∧ HoldsSettings t' a' s' ∧
      ((run files args).run t).1 = o.withThreshold (a.threshold s) ∧
      ((run files args').run t').1 = Outcome.withThreshold (a'.threshold s') o := by
  obtain ⟨r, hr, hsettings⟩ := run_loadSettings t a
  obtain ⟨r', hr', hsettings'⟩ := run_loadSettings t' a'
  simp only [run, hargs, hargs', runWith, run_bind, logFile_of_alikeButFlags hflags,
    loadVisits_of_alikeButFlags hflags]
  rcases loadSettings_alike hflags hlevel with ⟨e, he, he'⟩ | ⟨s, level, hs, hs'⟩
  · left
    obtain rfl : r = .error e := congrArg Prod.fst (hr.symm.trans he)
    refine ⟨by rw [he, he']; rfl, fun s hs => ?_⟩
    cases (hsettings s).mpr hs
  · right
    obtain rfl : r = .ok s := congrArg Prod.fst (hr.symm.trans hs)
    obtain rfl : r' = .ok { s with level } := congrArg Prod.fst (hr'.symm.trans hs')
    obtain ⟨hready, hvisits⟩ := loadVisits_alike hlevel hapart
    have hheld := (hsettings s).mp rfl
    have hheld' := (hsettings' { s with level }).mp rfl
    simp only [hs, hs', run_bind]
    cases hlog : (prepareLog files a.logFile).run t with
    | mk ready made =>
      cases hlog' : (prepareLog files a.logFile).run t' with
      | mk ready' made' =>
        rw [hlog, hlog'] at hready hvisits
        obtain rfl : ready = ready' := hready
        cases ready with
        | error e => exact ⟨.badLogFile (a.logFile.getD "") e, s, _, hheld, hheld', rfl, rfl⟩
        | ok _ =>
          refine ⟨.ran (shownFor a s ((loadVisits files a).run made).1), s, _, hheld, hheld',
            ?_, ?_⟩
          · exact congrArg Outcome.ran (shownFor_threshold a s _).symm
          · rw [hvisits]
            exact congrArg Outcome.ran (shownFor_alike hflags s level _)

theorem filter_passes_filter (records : List Notice) {level level' : Level}
    (h : level.rank ≤ level'.rank) :
    (records.filter (level'.passes ·.level)).filter (level.passes ·.level) =
      records.filter (level.passes ·.level) := by
  rw [List.filter_filter]
  refine List.filter_congr fun n _ => ?_
  simp only [Level.passes, Bool.and_eq_left_iff_imp, decide_eq_true_eq]
  omega

/-- **The log options change the log only.** Two runs whose arguments differ in the matching flags
and the verbose flag at most, and whose settings files differ in a well-formed logging section at
most, end with the same exit code and print the same, if the source is not the settings file.
Of the lines of the standard error the quieter run shows those of the other without the records
that its level keeps out. Where every record fills one line, these are the lines at or above its
level and those without a level. -/
theorem log_options_change_log_only {a a' : Arguments} {t t' : FileTree} {args args' : List String}
    (hargs : Arguments.parse args = .ok a) (hargs' : Arguments.parse args' = .ok a')
    (hflags : a.AlikeButFlags a') (hlevel : AlikeButLevel a t t')
    (hapart : t = t' ∨ SourceApart a t) :
    let o := ((run files args).run t).1
    let o' := ((run files args').run t').1
    o.exitCode = o'.exitCode ∧ o.output = o'.output ∧
    ((∀ s, ¬ HoldsSettings t a s) → o.errorLines = o'.errorLines) ∧
    ∀ s s', HoldsSettings t a s → HoldsSettings t' a' s' →
      (a.threshold s).rank ≤ (a'.threshold s').rank →
        o.errorLines = o'.errorLinesThrough (a.threshold s) ∧
        ((∀ n ∈ o'.log, n.lines.length = 1) →
          o.errorLines = o'.errorLines.filter (·.1.all (a.threshold s).passes)) := by
  intro o o'
  rcases runs_alike hargs hargs' hflags hlevel hapart with
    ⟨hsame, hnone⟩ | ⟨base, s, s', hs, hs', ho, ho'⟩
  · have hsame : o' = o := hsame
    rw [hsame]
    exact ⟨rfl, rfl, fun _ => rfl, fun s _ hs => absurd hs (hnone s)⟩
  · have ho : o = base.withThreshold (a.threshold s) := ho
    have ho' : o' = base.withThreshold (a'.threshold s') := ho'
    refine ⟨?_, ?_, fun hnone => absurd hs (hnone s), fun s₁ s₁' hs₁ hs₁' hrank => ?_⟩
    · rw [ho, ho', Outcome.exitCode_withThreshold, Outcome.exitCode_withThreshold]
    · rw [ho, ho', Outcome.output_withThreshold, Outcome.output_withThreshold]
    · obtain rfl := hs.unique hs₁
      obtain rfl := hs'.unique hs₁'
      have hlines : o.errorLines = o'.errorLinesThrough (a.threshold s) := by
        rw [Outcome.errorLines, Outcome.errorLinesThrough, ho, ho', Outcome.log_withThreshold,
          Outcome.log_withThreshold, Outcome.complaints_withThreshold,
          Outcome.complaints_withThreshold, filter_passes_filter _ hrank]
      exact ⟨hlines, fun hone => hlines.trans (Outcome.errorLinesThrough_eq_filter hone _)⟩

namespace Sample

def levelText (level : String) : String := "[logging]\nlevel = \"" ++ level ++ "\"\n"

/-- A dump, a source and a settings file that sets a level. -/
def leveled (level dump : String) : FileTree where
  entries := [(["work"], .directory), (["work", "visits.json"], .file dump.toUTF8),
    (["work", "Foo.java"], .file "class Foo { }".toUTF8),
    (["work", settingsFileName], .file (levelText level).toUTF8)]
  working := ["work"]

theorem alikeBut_leveled (level level' dump : String) :
    AlikeBut ["work", settingsFileName] (levelText level).toUTF8 (levelText level').toUTF8
      (leveled level dump) (leveled level' dump) := by
  refine ⟨rfl, rfl, rfl, fun place hplace => ?_⟩
  cases place with
  | nil => rfl
  | cons name rest => simp [leveled, entry?, List.lookup_cons, beq_eq_false_iff_ne.mpr hplace]

def loggingOf (level : String) : List (String × Json) :=
  [("logging", .object [("level", .string level)])]

theorem differIn_logging (level level' : String) :
    Settings.DifferIn .logging (.object (loggingOf level)) (.object (loggingOf level'))
      (loggingOf level) (loggingOf level') := by
  refine .top fun other hne => ?_
  have hother : ("logging" == other) = false := beq_eq_false_iff_ne.mpr (Ne.symm hne)
  simp [loggingOf, hother]

theorem logging_wellFormed {level : String} {l : Level} (h : Level.ofName? level = some l) :
    Settings.Section.logging.WellFormed (loggingOf level) :=
  ⟨⟨none, none, none, none, some l⟩, some [("level", .string level)], .value rfl nofun rfl,
    .value rfl nofun h⟩

theorem parse_info : Toml.parse? (levelText "info") = some (.object (loggingOf "info")) := by
  have hchars : (levelText "info").toList =
      ['[', 'l', 'o', 'g', 'g', 'i', 'n', 'g', ']', '\n',
        'l', 'e', 'v', 'e', 'l', ' ', '=', ' ', '\"', 'i', 'n', 'f', 'o', '\"', '\n'] := by
    decide +kernel
  rw [Toml.parse?, hchars]
  rfl

theorem parse_warn : Toml.parse? (levelText "warn") = some (.object (loggingOf "warn")) := by
  have hchars : (levelText "warn").toList =
      ['[', 'l', 'o', 'g', 'g', 'i', 'n', 'g', ']', '\n',
        'l', 'e', 'v', 'e', 'l', ' ', '=', ' ', '\"', 'w', 'a', 'r', 'n', '\"', '\n'] := by
    decide +kernel
  rw [Toml.parse?, hchars]
  rfl

theorem alikeButLevel_leveled {a : Arguments} {level level' dump : String} {l l' : Level}
    (hfile : a.settingsFile? (leveled level dump) = some settingsFileName)
    (hparse : Toml.parse? (levelText level) = some (.object (loggingOf level)))
    (hparse' : Toml.parse? (levelText level') = some (.object (loggingOf level')))
    (hlevel : Level.ofName? level = some l) (hlevel' : Level.ofName? level' = some l') :
    AlikeButLevel a (leveled level dump) (leveled level' dump) :=
  .level hfile rfl (alikeBut_leveled level level' dump) (read_of_text rfl rfl)
    (read_of_text rfl rfl) hparse hparse' (differIn_logging level level')
    (logging_wellFormed hlevel) (logging_wellFormed hlevel')

/-- A search in the visits of a tree, with or without further options. -/
def wordsFor (name source : String) (options : List String) : List String :=
  ["--events", "visits.json", "--source", source, "--name", name] ++ options

def quiet (name source : String) : Arguments where
  events := "visits.json"
  source := some source
  name
  qualifier := none
  caseSensitive := false
  camelCase := false
  config := none
  verbose := false
  logFile := none

def loud (name source : String) : Arguments :=
  { quiet name source with caseSensitive := true, verbose := true }

/-- A dump with one use of a class. -/
def useAt (name extent : String) : String :=
  "[[[\"classReference\",\"" ++ name ++ "\"," ++ extent ++ "],[[\"" ++ name ++ "\"," ++ extent ++
    "],\"EXACT\"],[\"Bar\"]]]"

/-- A use that is recorded where the source declares the class. -/
def classUse : String := useAt "Foo" "[6,9]"

/-- A use that is recorded where the settings file has its level. -/
def levelUse : String := useAt "info" "[19,23]"

/-- What is reported of the use of the class. -/
def classReport : Report := ⟨"Bar", .accurate, ⟨6, 3⟩, some "Foo", some (⟨0, 6⟩, ⟨0, 9⟩)⟩

theorem settingsFile?_leveled {a : Arguments} (level : String) (hconfig : a.config = none)
    (hsource : a.source = some "Foo.java") :
    a.settingsFile? (leveled level classUse) = some settingsFileName := by
  have hnearest : (leveled "warn" classUse).nearestSettings? "Foo.java" =
      some settingsFileName := by
    decide +kernel
  rw [settingsFile?_of_alikeBut (alikeBut_leveled level "warn" classUse),
    Arguments.settingsFile?, hconfig, hsource]
  exact hnearest

theorem holdsSettings_leveled {a : Arguments} {level : String} {s : Settings}
    (hconfig : a.config = none) (hsource : a.source = some "Foo.java")
    (hparse : Settings.parse? (levelText level) = some s) :
    HoldsSettings (leveled level classUse) a s :=
  .file (settingsFile?_leveled level hconfig hsource) (read_of_text rfl rfl) hparse

theorem sourceApart_quiet : SourceApart (quiet "Foo" "Foo.java") (leveled "info" classUse) := by
  intro source settings hsource hsettings
  obtain rfl : "Foo.java" = source := Option.some.inj hsource
  obtain rfl := Option.some.inj ((settingsFile?_leveled "info" rfl rfl).symm.trans hsettings)
  decide +kernel

end Sample

theorem sample_quiet_run_leaves_records_out :
    let o := ((run files (Sample.wordsFor "Foo" "Foo.java" [])).run
      (Sample.leveled "info" Sample.classUse)).1
    let o' := ((run files (Sample.wordsFor "Foo" "Foo.java" ["--case-sensitive", "-v"])).run
      (Sample.leveled "warn" Sample.classUse)).1
    o.exitCode = o'.exitCode ∧ o.output = o'.output ∧ o.output = [Sample.classReport.line] ∧
    o'.errorLines = [(some .info, "Replaying 1 events for 'Foo'"),
      (some .debug, "[typeref] class-reference match for 'Foo' at 6+3"),
      (some .info, "1 matches")] ∧
    o.errorLines = o'.errorLines.filter (·.1.all Level.info.passes) := by
  intro o o'
  have hargs : Arguments.parse (Sample.wordsFor "Foo" "Foo.java" []) =
      .ok (Sample.quiet "Foo" "Foo.java") := by
    decide +kernel
  have hargs' : Arguments.parse (Sample.wordsFor "Foo" "Foo.java" ["--case-sensitive", "-v"]) =
      .ok (Sample.loud "Foo" "Foo.java") := by
    decide +kernel
  have hs : HoldsSettings (Sample.leveled "info" Sample.classUse) (Sample.quiet "Foo" "Foo.java")
      .default :=
    Sample.holdsSettings_leveled rfl rfl (by decide +kernel)
  have hs' : HoldsSettings (Sample.leveled "warn" Sample.classUse) (Sample.loud "Foo" "Foo.java")
      { Settings.default with level := .warn } :=
    Sample.holdsSettings_leveled rfl rfl (by decide +kernel)
  have hlevel : AlikeButLevel (Sample.quiet "Foo" "Foo.java")
      (Sample.leveled "info" Sample.classUse) (Sample.leveled "warn" Sample.classUse) :=
    Sample.alikeButLevel_leveled (Sample.settingsFile?_leveled "info" rfl rfl) Sample.parse_info
      Sample.parse_warn rfl rfl
  obtain ⟨hexit, houtput, -, hlog⟩ :=
    log_options_change_log_only hargs hargs' rfl hlevel (.inr Sample.sourceApart_quiet)
  obtain ⟨-, hfilter⟩ := hlog _ _ hs hs' (by decide)
  -- the louder run is evaluated once for all that is shown of it
  have hloud : (∀ n ∈ o'.log, n.lines.length = 1) ∧ o'.output = [Sample.classReport.line] ∧
      o'.errorLines = [(some .info, "Replaying 1 events for 'Foo'"),
        (some .debug, "[typeref] class-reference match for 'Foo' at 6+3"),
        (some .info, "1 matches")] := by
    decide +kernel
  obtain ⟨hone, hprinted, hlines⟩ := hloud
  exact ⟨hexit, houtput, houtput.trans hprinted, hlines, hfilter hone⟩

/-- Not every line of a louder run without a level is in the quieter one: a record whose message
has a line break fills more than one line, and is left out as a whole. And what a run finds does
depend on the level if the settings file is the source as well. -/
theorem log_options_not_always_about_log :
    (¬ ∀ (t : FileTree) (args args' : List String) (a a' : Arguments) (s : Settings),
      Arguments.parse args = .ok a → Arguments.parse args' = .ok a' → a.AlikeButFlags a' →
        HoldsSettings t a s → (a.threshold s).rank ≤ (a'.threshold s).rank →
          ((run files args).run t).1.errorLines = ((run files args').run t).1.errorLines.filter
            (·.1.all (a.threshold s).passes)) ∧
    ¬ ∀ (t t' : FileTree) (args : List String) (a : Arguments),
      Arguments.parse args = .ok a → AlikeButLevel a t t' →
        ((run files args).run t).1.output = ((run files args).run t').1.output := by
  constructor
  · intro h
    have hargs : Arguments.parse (Sample.wordsFor "F\nG" "Foo.java" []) =
        .ok (Sample.quiet "F\nG" "Foo.java") := by
      decide +kernel
    have hargs' : Arguments.parse (Sample.wordsFor "F\nG" "Foo.java" ["--case-sensitive", "-v"]) =
        .ok (Sample.loud "F\nG" "Foo.java") := by
      decide +kernel
    have hs : HoldsSettings (Sample.leveled "warn" Sample.classUse)
        (Sample.quiet "F\nG" "Foo.java") { Settings.default with level := .warn } :=
      Sample.holdsSettings_leveled rfl rfl (by decide +kernel)
    have hlines := h _ _ _ _ _ _ hargs hargs' rfl hs (by decide)
    revert hlines
    decide +kernel
  · intro h
    have hargs : Arguments.parse (Sample.wordsFor "info" settingsFileName []) =
        .ok (Sample.quiet "info" settingsFileName) := by
      decide +kernel
    have hfile : (Sample.quiet "info" settingsFileName).settingsFile?
        (Sample.leveled "warn" Sample.levelUse) = some settingsFileName := by
      decide +kernel
    have houtput := h _ _ _ _ hargs
      (Sample.alikeButLevel_leveled hfile Sample.parse_warn Sample.parse_info rfl rfl)
    revert houtput
    decide +kernel

end Command
end Mentions
