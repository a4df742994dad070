import Mentions.FileTree
import Mentions.Proofs.Path.Parents
import Mentions.Settings.File

/-! # The nearest settings file

The look for a settings file goes from a directory to its parent, so it asks at most as many
directories as the start has components and ends at the root or at the empty path. The file it finds
is the first on this way, and it finds none only where no directory on the way has one.
-/

namespace Mentions

namespace Files

variable {σ α β : Type}

theorem run_pure (a : α) (state : σ) : (pure a : StateM σ α).run state = (a, state) := rfl

theorem run_bind (x : StateM σ α) (f : α → StateM σ β) (state : σ) :
    (x >>= f).run state = (f (x.run state).1).run (x.run state).2 := rfl

/-- In a state the files answer which paths lead to regular files, and stay as they are. -/
def Sees (files : Files (StateM σ)) (state : σ) (isFile : String → Bool) : Prop :=
  ∀ path, (files.isFile path).run state = (isFile path, state)

end Files

namespace FileTree

theorem sees (t : FileTree) : FileTree.files.Sees t t.isFile := fun _ => rfl

/-- Only a regular file counts, so a directory does not, whatever it is called. -/
theorem isFile_iff {t : FileTree} {path : String} :
    t.isFile path = true ↔
      ∃ place content, t.locate path = .ok place ∧ t.entry? place = some (.file content) := by
  rw [isFile]
  cases t.locate path with
  | error e => simp
  | ok place =>
    cases hentry : t.entry? place with
    | none => simp [hentry]
    | some entry => cases entry <;> simp [hentry]

end FileTree

namespace Settings

variable {σ : Type} {files : Files (StateM σ)} {state : σ} {isFile : String → Bool}
  {start path : String} {n : Nat}

/-- The directories on the way up: from the start, or from the parent of a start that is a file. -/
def way (isFile : String → Bool) (start : String) (n : Nat) : Option String :=
  if isFile start then Path.up (n + 1) start else Path.up n start

/-- The path leads to a settings file, and no directory before its own on the way up has one. -/
def IsNearest (isFile : String → Bool) (start path : String) : Prop :=
  ∃ n dir, way isFile start n = some dir ∧ path = Path.join dir settingsFileName ∧
    isFile path = true ∧ ∀ m < n, ∀ nearer, way isFile start m = some nearer →
      isFile (Path.join nearer settingsFileName) = false

/-- The same directories as a list. -/
def directories (isFile : String → Bool) (start : String) : List String :=
  if isFile start then ((Path.parent? start).map Path.ancestors).getD [] else Path.ancestors start

/-- The first settings file in the directories on the way up. -/
def nearest? (isFile : String → Bool) (start : String) : Option String :=
  ((directories isFile start).map (Path.join · settingsFileName)).find? isFile

theorem run_firstFile (h : files.Sees state isFile) (dirs : List String) :
    (firstFile files dirs).run state =
      ((dirs.map (Path.join · settingsFileName)).find? isFile, state) := by
  induction dirs with
  | nil => rfl
  | cons dir rest ih =>
    rw [firstFile, Files.run_bind, h, List.map_cons]
    by_cases hfile : isFile (Path.join dir settingsFileName) = true
    · rw [List.find?_cons_of_pos hfile, if_pos hfile, Files.run_pure]
    · rw [List.find?_cons_of_neg hfile, if_neg hfile, ih]

theorem run_discover (h : files.Sees state isFile) (start : String) :
    (discover files start).run state = (nearest? isFile start, state) := by
  rw [discover, Files.run_bind, searchedDirectories, Files.run_bind, h, nearest?,
    directories]
  by_cases hfile : isFile start = true
  · rw [if_pos hfile, if_pos hfile, Files.run_pure, run_firstFile h]
  · rw [if_neg hfile, if_neg hfile, Files.run_pure, run_firstFile h]

/-! ## The way up -/

theorem getElem?_directories (isFile : String → Bool) (start : String) (n : Nat) :
    (directories isFile start)[n]? = way isFile start n := by
  rw [way, directories]
  split
  · rw [← Path.getElem?_ancestors, Path.ancestors_eq start, List.getElem?_cons_succ]
  · exact Path.getElem?_ancestors start n

/-- The way up has a directory for each component of the start, and one more unless the start is a
file. -/
theorem isSome_way_iff :
    (way isFile start n).isSome ↔ n < Path.depth start + if isFile start then 0 else 1 := by
  rw [way]
  split
  · rw [Path.isSome_up_iff]
    omega
  · rw [Path.isSome_up_iff]
    omega

/-- The way up ends at the empty path or at the root. -/
theorem eq_empty_or_root_of_way {dir : String} (h : way isFile start n = some dir)
    (hlast : way isFile start (n + 1) = none) : dir = "" ∨ Path.same dir "/" = true := by
  have hup : way isFile start (n + 1) = (way isFile start n).bind Path.parent? := by
    rw [way, way]
    split <;> exact Path.up_succ _ _
  rw [hup, h, Option.bind_some] at hlast
  exact Path.eq_empty_or_root_of_depth (Path.parent?_eq_none_iff.mp hlast)

theorem nearest?_eq_some_iff : nearest? isFile start = some path ↔ IsNearest isFile start path := by
  rw [nearest?, List.find?_eq_some_iff_getElem]
  constructor
  · rintro ⟨hfile, n, hn, hpath, hmin⟩
    rw [List.length_map] at hn
    rw [List.getElem_map] at hpath
    refine ⟨n, (directories isFile start)[n], ?_, hpath.symm, hfile, fun m hm nearer hway => ?_⟩
    · rw [← getElem?_directories, List.getElem?_eq_getElem hn]
    · rw [← getElem?_directories, List.getElem?_eq_getElem (Nat.lt_trans hm hn)] at hway
      have hnot := hmin m hm
      rw [List.getElem_map, Option.some.inj hway] at hnot
      simpa using hnot
  · rintro ⟨n, dir, hway, rfl, hfile, hmin⟩
    rw [← getElem?_directories] at hway
    obtain ⟨hn, rfl⟩ := List.getElem?_eq_some_iff.mp hway
    refine ⟨hfile, n, by rwa [List.length_map], List.getElem_map .., fun m hm => ?_⟩
    have hnot := hmin m hm (directories isFile start)[m] (by
      rw [← getElem?_directories, List.getElem?_eq_getElem])
    rw [List.getElem_map, hnot]
    rfl

theorem nearest?_eq_none_iff : nearest? isFile start = none ↔ ∀ n dir,
    way isFile start n = some dir → isFile (Path.join dir settingsFileName) = false := by
  rw [nearest?, List.find?_eq_none, List.forall_mem_map]
  simp only [List.mem_iff_getElem?, getElem?_directories, Bool.not_eq_true]
  exact ⟨fun h n dir hway => h dir ⟨n, hway⟩, fun h dir ⟨n, hway⟩ => h n dir hway⟩

/-- **The nearest settings file is found.** Wherever files can be asked which paths lead to regular
files, the look for a settings file comes to an answer: a path exactly when it is the settings file
of the first directory on the way up that has one, and none exactly when no directory on the way has
one. The way has one directory for each component of the start, and the start itself unless it is a
file; it ends at the root or at the empty path. On a file tree only a regular file counts. -/
theorem nearest_file_discovered :
    (∀ (σ : Type) (files : Files (StateM σ)) (state : σ) (isFile : String → Bool),
      files.Sees state isFile → ∀ start,
        ∃ found, (discover files start).run state = (found, state) ∧
          (∀ path, found = some path ↔ IsNearest isFile start path) ∧
          (found = none ↔ ∀ n dir, way isFile start n = some dir →
            isFile (Path.join dir settingsFileName) = false) ∧
          (∀ n, (way isFile start n).isSome ↔
            n < Path.depth start + if isFile start then 0 else 1) ∧
          ∀ n dir, way isFile start n = some dir → way isFile start (n + 1) = none →
            dir = "" ∨ Path.same dir "/" = true) ∧
    ∀ t : FileTree, FileTree.files.Sees t t.isFile ∧ ∀ path, t.isFile path = true ↔
      ∃ place content, t.locate path = .ok place ∧ t.entry? place = some (.file content) := by
  refine ⟨fun σ files state isFile h start => ⟨nearest? isFile start, run_discover h start,
    fun path => nearest?_eq_some_iff, nearest?_eq_none_iff, fun n => isSome_way_iff,
    fun n dir hway hlast => eq_empty_or_root_of_way hway hlast⟩, fun t => ⟨t.sees, fun path => ?_⟩⟩
  exact FileTree.isFile_iff

namespace Sample

/-- A source beside a directory that is called like a settings file. -/
def tree : FileTree where
  entries := [(["src"], .directory), (["src", "pkg"], .directory),
    (["src", "pkg", "Bar.groovy"], .file .empty),
    (["src", "pkg", "typeref-search.toml"], .directory),
    (["src", "typeref-search.toml"], .file .empty)]
  working := []

end Sample

theorem sample_settings_discovered :
    FileTree.files.Sees Sample.tree Sample.tree.isFile ∧
    (discover FileTree.files "src//pkg/./Bar.groovy").run Sample.tree =
      (some "src/typeref-search.toml", Sample.tree) := by
  obtain ⟨hdiscover, -⟩ := nearest_file_discovered
  obtain ⟨found, hrun, hsome, -⟩ :=
    hdiscover _ FileTree.files Sample.tree _ Sample.tree.sees "src//pkg/./Bar.groovy"
  have hfound : found = some "src/typeref-search.toml" := by
    refine (hsome _).mpr ⟨1, "src", by decide +kernel, by decide +kernel, by decide +kernel, ?_⟩
    intro m hm nearer hway
    obtain rfl : m = 0 := by omega
    have hpkg : way Sample.tree.isFile "src//pkg/./Bar.groovy" 0 = some "src//pkg" := by
      decide +kernel
    obtain rfl := Option.some.inj (hpkg.symm.trans hway)
    decide +kernel
  exact ⟨Sample.tree.sees, hfound ▸ hrun⟩

end Settings
end Mentions
