import Mentions.Proofs.Settings.Nearest

/-! # Which directories configure a file

The look for a settings file drops one name of the start after the other, and each `..` like a name.
So the file that is found lies where the names that are left lead, and the dropped ones lead from
there to the start: while no `..` is among them, down from an enclosing directory.
-/

namespace Mentions

namespace Path

variable {start dir : String} {n : Nat}

/-! ## What is dropped on the way up -/

theorem exists_dropped_of_up (h : up n start = some dir) :
    ∃ dropped, (components start).2 = (components dir).2 ++ dropped ∧
      ((components start).1 = .root ↔ (components dir).1 = .root) := by
  induction n generalizing start with
  | zero =>
    obtain rfl := Option.some.inj h
    exact ⟨[], (List.append_nil _).symm, Iff.rfl⟩
  | succ n ih =>
    rw [up] at h
    have hs := parent?_spec start
    generalize parent? start = up1 at h hs
    cases hs with
    | ended => cases h
    | dropped hhead hbody =>
      obtain ⟨dropped, hdir, hroot⟩ := ih h
      rw [hdir, List.append_assoc] at hbody
      exact ⟨_, hbody, hhead ▸ hroot⟩
    | here hstart =>
      obtain ⟨dropped, hdir, hroot⟩ := ih h
      refine ⟨dropped, ?_, ?_⟩
      · rw [← hdir, hstart]
        rfl
      · rw [← hroot, hstart]
        decide

/-! ## Segments of a joined path -/

theorem segments_append_slash (front back : List Char) :
    segments (front ++ '/' :: back) = segments front ++ segments back := by
  induction front with
  | nil => simp [segments]
  | cons c front ih =>
    by_cases hc : c = '/'
    · rw [List.cons_append, segments, if_pos hc, ih, segments, if_pos hc, List.cons_append]
    · obtain ⟨s, rest, hrest, hcons⟩ := segments_cons_of_ne hc front
      obtain ⟨s', rest', hrest', hcons'⟩ := segments_cons_of_ne hc (front ++ '/' :: back)
      rw [ih, hrest, List.cons_append] at hrest'
      obtain ⟨rfl, rfl⟩ := List.cons.inj hrest'
      rw [List.cons_append, hcons', hcons, List.cons_append]

theorem segments_of_slash_not_mem {cs : List Char} (h : '/' ∉ cs) : segments cs = [cs] := by
  have hs : segments (['/'].intercalate [cs]) = [cs] :=
    segments_intercalate_of_not_mem (by simpa using h) (List.cons_ne_nil _ _)
  simpa using hs

/-- The segments of a text that count are its components. -/
theorem filter_segments (path : String) :
    (segments path.toList).filter counts = (components path).2 := by
  rw [components, parts]
  generalize path.toList = cs
  unfold Parts.ofChars
  split
  · rw [segments, if_pos rfl]
    rfl
  · rfl
  · rfl
  · rfl

theorem head_components_eq_root_iff (path : String) :
    (components path).1 = .root ↔ path.toList.head? = some '/' := by
  rw [components, parts]
  generalize path.toList = cs
  unfold Parts.ofChars
  split
  · simp
  · simp
  · simp
  · rename_i hroot _ _
    rw [List.head?_eq_some_iff]
    refine iff_of_false Head.noConfusion ?_
    rintro ⟨rest, rfl⟩
    exact hroot rest rfl

/-- A file in a directory has the components of the directory and its own name. -/
theorem segments_join (dir : String) {name : String} (hname : '/' ∉ name.toList) :
    ∃ front, segments (join dir name).toList = front ++ [name.toList] ∧
      front.filter counts = (components dir).2 := by
  have hsegments := segments_of_slash_not_mem hname
  rw [join]
  split
  · rename_i hlast
    refine ⟨[], hsegments, ?_⟩
    rw [List.getLast?_eq_none_iff, String.toList_eq_nil_iff] at hlast
    rw [hlast]
    rfl
  · rename_i hlast
    obtain ⟨front, hdir⟩ := List.getLast?_eq_some_iff.mp hlast
    refine ⟨segments front, ?_, ?_⟩
    · rw [String.toList_append, hdir, List.append_assoc, List.singleton_append,
        segments_append_slash, hsegments]
    · rw [← filter_segments, hdir, segments_append_slash, List.filter_append]
      exact (List.append_nil _).symm
  · refine ⟨segments dir.toList, ?_, filter_segments dir⟩
    rw [String.toList_append, String.toList_append, List.append_assoc]
    exact (segments_append_slash _ _).trans (congrArg _ hsegments)

/-- A file in a directory begins at the root exactly if the directory does. -/
theorem head?_join_eq_slash_iff (dir : String) {name : String} (hname : '/' ∉ name.toList) :
    (join dir name).toList.head? = some '/' ↔ dir.toList.head? = some '/' := by
  rw [join]
  split
  · rename_i hlast
    rw [List.getLast?_eq_none_iff.mp hlast]
    exact ⟨fun h => absurd (List.mem_of_head? h) hname, nofun⟩
  · rename_i hlast
    rw [String.toList_append, List.head?_append_of_ne_nil]
    exact List.ne_nil_of_mem (List.mem_of_getLast? hlast)
  · rename_i hlast
    rw [String.toList_append, String.toList_append, List.append_assoc, List.head?_append_of_ne_nil]
    exact List.ne_nil_of_mem (List.mem_of_getLast? hlast)

end Path

namespace FileTree

open Mentions.Path (counts components)

variable {t : FileTree} {path start : String} {place next : Place} {segment : List Char}

/-! ## Where names lead -/

/-- Where a segment leads from a directory: `..` to the enclosing directory, a name to what has it
there, and a segment that does not count nowhere else. -/
def follow (place : Place) (segment : List Char) : Place :=
  if segment = ['.', '.'] then place.dropLast
  else if counts segment then place ++ [String.ofList segment] else place

/-- Where the components of a path lead from the root or from the working directory. -/
def spelledPlace (t : FileTree) (path : String) : Place :=
  (components path).2.foldl follow (if (components path).1 = .root then [] else t.working)

/-- The directory itself, or the one that a file lies in. -/
def ownDirectory (t : FileTree) (place : Place) : Place :=
  match t.entry? place with
  | some (.file _) => place.dropLast
  | _ => place

theorem walkSegment_eq (h : t.walkSegment place (String.ofList segment) = .ok next) :
    t.entry? place = some .directory ∧ next = follow place segment := by
  have hspelled (w : String) : String.ofList segment = w ↔ segment = w.toList := by
    rw [← String.toList_inj, String.toList_ofList]
  rw [walkSegment] at h
  split at h
  · cases h
  · cases h
  · rename_i hentry
    refine ⟨hentry, ?_⟩
    simp only [hspelled, Bool.or_eq_true, decide_eq_true_eq] at h
    rw [follow]
    split at h
    · rename_i hblank
      obtain rfl := Except.ok.inj h
      rcases hblank with rfl | rfl <;> rfl
    · rename_i hblank
      have hcounts : counts segment = true := by
        simpa [counts, not_or] using hblank
      split at h
      · rename_i hup
        rw [if_pos (show segment = ['.', '.'] from hup)]
        exact (Except.ok.inj h).symm
      · rename_i hup
        rw [if_neg (show ¬ segment = ['.', '.'] from hup), if_pos hcounts]
        split at h
        · cases h
        · split at h
          · exact (Except.ok.inj h).symm
          · cases h

theorem foldl_follow_filter (segments : List (List Char)) (place : Place) :
    (segments.filter counts).foldl follow place = segments.foldl follow place := by
  induction segments generalizing place with
  | nil => rfl
  | cons segment rest ih =>
    by_cases hs : counts segment = true
    · rw [List.filter_cons_of_pos hs, List.foldl_cons, List.foldl_cons, ih]
    · have hstay : follow place segment = place := by
        rw [follow, if_neg fun h => hs (by rw [h]; rfl), if_neg hs]
      rw [List.filter_cons_of_neg hs, List.foldl_cons, hstay, ih]

theorem foldlM_walkSegment_eq {segments : List (List Char)}
    (h : segments.foldlM (fun place s => t.walkSegment place (String.ofList s)) place = .ok next) :
    next = segments.foldl follow place := by
  induction segments generalizing place with
  | nil => exact (Except.ok.inj h).symm
  | cons segment rest ih =>
    rw [List.foldlM_cons] at h
    cases hstep : t.walkSegment place (String.ofList segment) with
    | error e => rw [hstep] at h; cases h
    | ok middle =>
      rw [hstep] at h
      rw [List.foldl_cons, ← (walkSegment_eq hstep).2]
      exact ih h

/-- No name leads out of a directory but `..`. -/
theorem prefix_foldl_follow {segments : List (List Char)} (h : ['.', '.'] ∉ segments)
    (place : Place) : place <+: segments.foldl follow place := by
  induction segments generalizing place with
  | nil => exact List.prefix_refl place
  | cons segment rest ih =>
    have hstep : place <+: follow place segment := by
      rw [follow, if_neg (Ne.symm (List.ne_of_not_mem_cons h))]
      split
      · exact List.prefix_append _ _
      · exact List.prefix_refl _
    exact hstep.trans (ih (List.not_mem_of_not_mem_cons h) _)

theorem walk_eq_ok (h : t.walk path = .ok place) :
    (Path.segments path.toList).foldlM (fun place s => t.walkSegment place (String.ofList s))
      (if path.toList.head? = some '/' then [] else t.working) = .ok place := by
  rw [walk] at h
  split at h
  · cases h
  · split at h
    · cases h
    · exact h

theorem eq_spelledPlace_of_walk (h : t.walk path = .ok place) : place = t.spelledPlace path := by
  rw [foldlM_walkSegment_eq (walk_eq_ok h), ← foldl_follow_filter, Path.filter_segments,
    spelledPlace]
  simp only [Path.head_components_eq_root_iff]

theorem spelledPlace_of_up {n : Nat} {dir : String} (h : Path.up n start = some dir) :
    ∃ dropped, (components start).2 = (components dir).2 ++ dropped ∧
      t.spelledPlace start = dropped.foldl follow (t.spelledPlace dir) := by
  obtain ⟨dropped, hstart, hroot⟩ := Path.exists_dropped_of_up h
  refine ⟨dropped, hstart, ?_⟩
  rw [spelledPlace, spelledPlace, hstart, List.foldl_append]
  simp only [hroot]

/-- A path to a file in a directory leads there by way of the directory. -/
theorem walk_join {dir name : String} (hname : '/' ∉ name.toList)
    (h : t.walk (Path.join dir name) = .ok place) :
    t.entry? (t.spelledPlace dir) = some .directory ∧
      place = follow (t.spelledPlace dir) name.toList := by
  obtain ⟨front, hsegments, hfront⟩ := Path.segments_join dir hname
  have hwalk := walk_eq_ok h
  rw [hsegments, List.foldlM_append] at hwalk
  simp only [Path.head?_join_eq_slash_iff dir hname, ← Path.head_components_eq_root_iff] at hwalk
  cases hdir : front.foldlM (fun place s => t.walkSegment place (String.ofList s))
      (if (components dir).1 = .root then [] else t.working) with
  | error e => rw [hdir] at hwalk; cases hwalk
  | ok home =>
    rw [hdir] at hwalk
    have hhome : home = t.spelledPlace dir := by
      rw [foldlM_walkSegment_eq hdir, ← foldl_follow_filter, hfront, spelledPlace]
    have hstep : t.walkSegment home (String.ofList name.toList) = .ok place :=
      (bind_pure _).symm.trans hwalk
    rw [← hhome]
    exact walkSegment_eq hstep

theorem walk_of_locate (h : t.locate path = .ok place) : t.walk path = .ok place := by
  rw [locate] at h
  split at h
  · cases h
  · split at h
    · cases h
    · exact h

/-- A directory that leads down to a place encloses it. -/
theorem prefix_ownDirectory {home : Place} (hhome : t.entry? home = some .directory)
    (h : home <+: place) : home <+: t.ownDirectory place := by
  unfold ownDirectory
  split
  · rename_i content hfile
    obtain ⟨rest, rfl⟩ := h
    have hne : rest ≠ [] := by
      rintro rfl
      rw [List.append_nil, hhome] at hfile
      cases hfile
    rw [List.dropLast_append_of_ne_nil hne]
    exact List.prefix_append _ _
  · exact h

/-! ## The settings file that is found -/

/-- **The settings file that is found encloses the start, unless a `..` was dropped.** For a start
that leads to a place, the file that is found is a regular file in the directory to which the first
components of the start lead, and the rest of them leads from this directory to the start. If no
`..` is among these, as in a start without any, the directory is the start's own or one above
it. -/
theorem settings_file_encloses_start (hstart : t.walk start = .ok place)
    (hfound : (Settings.discover files start).run t = (some path, t)) :
    ∃ dir dropped content, path = Path.join dir settingsFileName ∧
      (components start).2 = (components dir).2 ++ dropped ∧
      t.locate path = .ok (t.spelledPlace dir ++ [settingsFileName]) ∧
      t.entry? (t.spelledPlace dir ++ [settingsFileName]) = some (.file content) ∧
      place = dropped.foldl follow (t.spelledPlace dir) ∧
      (['.', '.'] ∉ dropped → t.spelledPlace dir <+: t.ownDirectory place) := by
  have hnearest : Settings.nearest? t.isFile start = some path :=
    congrArg Prod.fst ((Settings.run_discover t.sees start).symm.trans hfound)
  obtain ⟨n, dir, hway, rfl, hfile, -⟩ := Settings.nearest?_eq_some_iff.mp hnearest
  obtain ⟨m, hup⟩ : ∃ m, Path.up m start = some dir := by
    rw [Settings.way] at hway
    split at hway
    · exact ⟨n + 1, hway⟩
    · exact ⟨n, hway⟩
  obtain ⟨dropped, hcomponents, hspelled⟩ := spelledPlace_of_up (t := t) hup
  obtain ⟨file, content, hlocate, hentry⟩ := isFile_iff.mp hfile
  obtain ⟨hhome, hfileEq⟩ := walk_join (by decide) (walk_of_locate hlocate)
  obtain rfl : file = t.spelledPlace dir ++ [settingsFileName] := hfileEq
  have hplace : place = dropped.foldl follow (t.spelledPlace dir) :=
    (eq_spelledPlace_of_walk hstart).trans hspelled
  refine ⟨dir, dropped, content, rfl, hcomponents, hlocate, hentry, hplace, fun hnone => ?_⟩
  rw [hplace]
  exact prefix_ownDirectory hhome (prefix_foldl_follow hnone _)

theorem sample_settings_enclose_start :
    Settings.Sample.tree.walk "src/../src/pkg/Bar.groovy" = .ok ["src", "pkg", "Bar.groovy"] ∧
    (Settings.discover files "src/../src/pkg/Bar.groovy").run Settings.Sample.tree =
      (some "src/../src/typeref-search.toml", Settings.Sample.tree) ∧
    ∃ dir dropped content, "src/../src/typeref-search.toml" = Path.join dir settingsFileName ∧
      (components "src/../src/pkg/Bar.groovy").2 = (components dir).2 ++ dropped ∧
      Settings.Sample.tree.locate "src/../src/typeref-search.toml" =
        .ok (Settings.Sample.tree.spelledPlace dir ++ [settingsFileName]) ∧
      Settings.Sample.tree.entry? (Settings.Sample.tree.spelledPlace dir ++ [settingsFileName]) =
        some (.file content) ∧
      ["src", "pkg", "Bar.groovy"] = dropped.foldl follow (Settings.Sample.tree.spelledPlace dir) ∧
      (['.', '.'] ∉ dropped → Settings.Sample.tree.spelledPlace dir <+:
        Settings.Sample.tree.ownDirectory ["src", "pkg", "Bar.groovy"]) := by
  have hstart : Settings.Sample.tree.walk "src/../src/pkg/Bar.groovy" =
      .ok ["src", "pkg", "Bar.groovy"] := by rfl
  have hnearest : Settings.nearest? Settings.Sample.tree.isFile "src/../src/pkg/Bar.groovy" =
      some "src/../src/typeref-search.toml" := by decide +kernel
  have hfound := Settings.run_discover Settings.Sample.tree.sees "src/../src/pkg/Bar.groovy"
  rw [hnearest] at hfound
  exact ⟨hstart, hfound, settings_file_encloses_start hstart hfound⟩

namespace Sample

/-- A file beside a directory with settings of its own. -/
def siblings : FileTree where
  entries := [(["lib"], .directory), (["lib", "typeref-search.toml"], .file .empty),
    (["visits.json"], .file .empty)]
  working := []

end Sample

/-- The start is spelled by way of a directory beside it, which then is searched like one above. -/
theorem found_settings_not_always_enclosing :
    ¬ ∀ (t : FileTree) (start path : String) (place : Place), t.walk start = .ok place →
      (Settings.discover files start).run t = (some path, t) →
      ∃ file, t.locate path = .ok file ∧ file.dropLast <+: t.ownDirectory place := by
  intro h
  have hstart : Sample.siblings.walk "lib/../visits.json" = .ok ["visits.json"] := by rfl
  have hnearest : Settings.nearest? Sample.siblings.isFile "lib/../visits.json" =
      some "lib/typeref-search.toml" := by decide +kernel
  have hfound := Settings.run_discover Sample.siblings.sees "lib/../visits.json"
  rw [hnearest] at hfound
  obtain ⟨file, hfile, henclosed⟩ := h _ _ _ _ hstart hfound
  have hlib : Sample.siblings.locate "lib/typeref-search.toml" =
      .ok ["lib", "typeref-search.toml"] := by rfl
  obtain rfl := Except.ok.inj (hlib.symm.trans hfile)
  have howner : Sample.siblings.ownDirectory ["visits.json"] = [] := by rfl
  rw [howner] at henclosed
  exact absurd (List.prefix_nil.mp henclosed) (by decide)

end FileTree
end Mentions
