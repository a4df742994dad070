import Mentions.Command.Run
import Mentions.Proofs.Settings.Nearest
import Mentions.Proofs.Visit.Dump

/-! # What a run loads

On a file tree the settings, the source and the visits of a run are what the tree holds at their
paths. Loading changes nothing in the tree; only the log file is made ready, after the settings are
loaded and before anything else is read.
-/

namespace Mentions

namespace FileTree

theorem run_read (t : FileTree) (path : String) :
    (files.read path).run t = (t.read path, t) := rfl

theorem run_canonical (t : FileTree) (path : String) :
    (files.canonical path).run t = (t.canonical path, t) := rfl

theorem run_prepare (t : FileTree) (dir name : String) :
    (files.prepare dir name).run t = match t.prepare dir name with
      | .ok made => (.ok (), made)
      | .error e => (.error e, t) := by
  have hrun : (files.prepare dir name).run t = (match t.prepare dir name with
      | .ok made => do set made; return .ok ()
      | .error e => return .error e : StateM FileTree (Except ReadError Unit)).run t := rfl
  rw [hrun]
  cases t.prepare dir name <;> rfl

theorem read_of_text {t : FileTree} {path text : String} {place : Place}
    (hplace : t.locate path = .ok place) (hentry : t.entry? place = some (.file text.toUTF8)) :
    t.read path = .ok text := by
  have hdecode : String.fromUTF8? text.toUTF8 = some text := dif_pos text.isValidUTF8
  rw [read, hplace]
  simp only [bind, Except.bind, hentry, hdecode]

/-- The settings file nearest to where a search for it starts. -/
def nearestSettings? (t : FileTree) (start : String) : Option String :=
  let dirs := if t.isFile start then ((Path.parent? start).map Path.ancestors).getD []
    else Path.ancestors start
  (dirs.map (Path.join · settingsFileName)).find? t.isFile

theorem run_discover (t : FileTree) (start : String) :
    (Settings.discover files start).run t = (t.nearestSettings? start, t) :=
  Settings.run_discover t.sees start

end FileTree

/-- The visit with the source unit that its element has in a run. -/
def Visit.within (unit : Option SourceUnit) (v : Visit) : Visit :=
  { v with element := { v.element with unit := unit } }

namespace Command
open FileTree
open Files (run_pure run_bind)

variable {t : FileTree} {a : Arguments}

/-- The settings file that a run uses: the one that is named, else the nearest one to the source or
to the visits. -/
def Arguments.settingsFile? (a : Arguments) (t : FileTree) : Option String :=
  match a.config with
  | some path => some path
  | none => t.nearestSettings? (a.source.getD a.events)

/-- The settings that the tree holds for a run; the defaults where no file is used. -/
inductive HoldsSettings (t : FileTree) (a : Arguments) : Settings → Prop
  | default (h : a.settingsFile? t = none) : HoldsSettings t a .default
  | file {path text : String} {s : Settings} (h : a.settingsFile? t = some path)
      (hread : t.read path = .ok text) (hparse : Settings.parse? text = some s) :
      HoldsSettings t a s

/-- The source unit that the tree holds, under its canonical path, if a source is named. -/
inductive HoldsSource (t : FileTree) : Option String → Option SourceUnit → Prop
  | unnamed : HoldsSource t none none
  | file {path text : String} (hread : t.read path = .ok text) :
      HoldsSource t (some path) (some ⟨(t.canonical path).getD path, .ofString text⟩)

/-- The visits that the tree holds in a dump: all of them, since a dump is read as a whole. -/
inductive HoldsVisits (t : FileTree) (path : String) : List Visit → Prop
  | file {text : String} {visits : List Visit} (hread : t.read path = .ok text)
      (hparse : Dump.parse? text = some visits) : HoldsVisits t path visits

/-! ## Settings -/

theorem holdsSettings_iff_of_none {s : Settings} (hfile : a.settingsFile? t = none) :
    HoldsSettings t a s ↔ s = .default := by
  constructor
  · intro h
    cases h with
    | default => rfl
    | file h => rw [hfile] at h; cases h
  · rintro rfl
    exact .default hfile

theorem holdsSettings_iff_of_some {s : Settings} {path : String}
    (hfile : a.settingsFile? t = some path) :
    HoldsSettings t a s ↔ ∃ text, t.read path = .ok text ∧ Settings.parse? text = some s := by
  constructor
  · intro h
    cases h with
    | default h => rw [hfile] at h; cases h
    | file h hread hparse =>
      obtain rfl := Option.some.inj (hfile.symm.trans h)
      exact ⟨_, hread, hparse⟩
  · rintro ⟨text, hread, hparse⟩
    exact .file hfile hread hparse

theorem run_load (t : FileTree) (path : String) :
    ∃ r, (Settings.load files path).run t = (r, t) ∧
      ∀ s, r = .ok s ↔ ∃ text, t.read path = .ok text ∧ Settings.parse? text = some s := by
  rw [Settings.load, run_bind, run_read]
  cases hread : t.read path with
  | error e => exact ⟨_, rfl, by simp⟩
  | ok text =>
    cases hparse : Settings.parse? text with
    | none =>
      refine ⟨.error (.malformed path "not a TOML document"), ?_, by simp [hparse]⟩
      simp only [hparse, run_pure]
    | some s =>
      refine ⟨.ok s, ?_, by simp [hparse]⟩
      simp only [hparse, run_pure]

/-- The settings of the file that is found, or the defaults. -/
def loadFound : Option String → StateM FileTree (Except SettingsError Settings)
  | some path => Settings.load files path
  | none => pure (.ok .default)

theorem run_loadSettings_eq (t : FileTree) (a : Arguments) :
    (loadSettings files a).run t = (loadFound (a.settingsFile? t)).run t := by
  rw [loadSettings, Arguments.settingsFile?]
  cases a.config with
  | some path => rfl
  | none => exact congrArg (fun found => (loadFound found.1).run found.2) (run_discover t _)

theorem run_loadSettings (t : FileTree) (a : Arguments) :
    ∃ r, (loadSettings files a).run t = (r, t) ∧ ∀ s, r = .ok s ↔ HoldsSettings t a s := by
  rw [run_loadSettings_eq]
  cases hfile : a.settingsFile? t with
  | none =>
    simp only [holdsSettings_iff_of_none hfile]
    exact ⟨.ok .default, rfl, fun s => by rw [Except.ok.injEq, eq_comm]⟩
  | some path =>
    simp only [holdsSettings_iff_of_some hfile]
    exact run_load t path

/-! ## Source and visits -/

theorem holdsSource_some_iff {path : String} {unit : Option SourceUnit} :
    HoldsSource t (some path) unit ↔ ∃ text, t.read path = .ok text ∧
      unit = some ⟨(t.canonical path).getD path, .ofString text⟩ := by
  constructor
  · intro h
    cases h with
    | file hread => exact ⟨_, hread, rfl⟩
  · rintro ⟨text, hread, rfl⟩
    exact .file hread

theorem holdsVisits_iff {path : String} {visits : List Visit} :
    HoldsVisits t path visits ↔
      ∃ text, t.read path = .ok text ∧ Dump.parse? text = some visits := by
  constructor
  · rintro ⟨hread, hparse⟩
    exact ⟨_, hread, hparse⟩
  · rintro ⟨text, hread, hparse⟩
    exact .file hread hparse

theorem run_loadSource (t : FileTree) (path : Option String) :
    ∃ r, (loadSource files path).run t = (r, t) ∧
      ∀ unit, r = .ok unit ↔ HoldsSource t path unit := by
  cases path with
  | none =>
    refine ⟨.ok none, rfl, fun unit => ⟨fun h => ?_, fun h => ?_⟩⟩
    · cases h
      exact .unnamed
    · cases h
      rfl
  | some path =>
    simp only [holdsSource_some_iff]
    cases hread : t.read path with
    | error e =>
      refine ⟨.error (.unreadable path e), ?_, by simp⟩
      simp only [loadSource, Dump.loadUnit, SourceUnit.load, run_bind, run_read, hread, run_pure]
    | ok text =>
      refine ⟨.ok (some ⟨(t.canonical path).getD path, .ofString text⟩), ?_, by simp [eq_comm]⟩
      simp only [loadSource, Dump.loadUnit, SourceUnit.load, SourceUnit.idOfPath, run_bind,
        run_read, run_canonical, hread, run_pure]

theorem run_loadDump (t : FileTree) (path : String) (unit : Option SourceUnit) :
    ∃ r, (Dump.load files path unit).run t = (r, t) ∧ ∀ visits, r = .ok visits ↔
      ∃ recorded, HoldsVisits t path recorded ∧ visits = recorded.map (·.within unit) := by
  simp only [Dump.load, run_bind, run_read, holdsVisits_iff]
  cases hread : t.read path with
  | error e => exact ⟨.error (.unreadable path e), rfl, by simp⟩
  | ok text =>
    cases hparse : Dump.parse? text with
    | none =>
      refine ⟨.error (.malformed path "not a list of visits"), ?_, by simp [hparse]⟩
      simp only [hparse, run_pure]
    | some recorded =>
      refine ⟨.ok (recorded.map (·.within unit)), ?_, by simp [hparse, eq_comm]⟩
      cases unit with
      | none =>
        have hsame : recorded.map (·.within none) = recorded :=
          Dump.map_withoutUnit (Dump.unit_of_parse? hparse)
        simp only [hparse, hsame, run_pure]
      | some unit =>
        have hsame : recorded.map (·.within (some unit)) = recorded.map (·.withUnit unit) := rfl
        simp only [hparse, hsame, run_pure]

theorem run_loadVisits (t : FileTree) (a : Arguments) :
    ∃ r, (loadVisits files a).run t = (r, t) ∧
      ∀ visits, r = .ok visits ↔ ∃ unit recorded, HoldsSource t a.source unit ∧
        HoldsVisits t a.events recorded ∧ visits = recorded.map (·.within unit) := by
  obtain ⟨r, hr, hsource⟩ := run_loadSource t a.source
  rw [loadVisits, run_bind, hr]
  cases r with
  | error e =>
    refine ⟨.error e, rfl, fun visits => ⟨nofun, fun ⟨unit, _, hunit, _⟩ => ?_⟩⟩
    cases (hsource unit).mpr hunit
  | ok unit =>
    obtain ⟨r, hr, hvisits⟩ := run_loadDump t a.events unit
    refine ⟨r, hr, fun visits => (hvisits visits).trans ⟨fun ⟨recorded, h⟩ => ?_, fun h => ?_⟩⟩
    · exact ⟨unit, recorded, (hsource unit).mp rfl, h⟩
    · obtain ⟨unit', recorded, hunit, h⟩ := h
      cases (hsource unit').mpr hunit
      exact ⟨recorded, h⟩

end Command
end Mentions
