import Mentions.FileTree

/-! # Trees that differ in one file

Where a path leads does not depend on what the files hold. So trees that are alike but for the
content of one file show a difference only to what reads that file, and they stay alike when
directories and files are made in both.
-/

namespace Mentions.FileTree

variable {t t' : FileTree} {spot : Place} {content content' : ByteArray}

/-- The trees are the same but for the content of the file at a place. -/
structure AlikeBut (spot : Place) (content content' : ByteArray) (t t' : FileTree) : Prop where
  working : t.working = t'.working
  left : t.entry? spot = some (.file content)
  right : t'.entry? spot = some (.file content')
  elsewhere : ∀ place, place ≠ spot → t.entry? place = t'.entry? place

/-! ## Paths -/

theorem read_eq_of_entry_eq {path path' : String} {place : Place}
    (hplace : t.locate path = .ok place) (hplace' : t'.locate path' = .ok place)
    (hentry : t.entry? place = t'.entry? place) : t.read path = t'.read path' := by
  rw [read, read, hplace, hplace']
  simp only [bind, Except.bind, hentry]

namespace AlikeBut

theorem entry_cases (h : AlikeBut spot content content' t t') (place : Place) :
    t.entry? place = t'.entry? place ∨ ∃ content content',
      t.entry? place = some (.file content) ∧ t'.entry? place = some (.file content') := by
  by_cases hplace : place = spot
  · subst hplace
    exact .inr ⟨content, content', h.left, h.right⟩
  · exact .inl (h.elsewhere place hplace)

theorem walkSegment_eq (h : AlikeBut spot content content' t t') :
    t.walkSegment = t'.walkSegment := by
  funext place segment
  rcases h.entry_cases place with hsame | ⟨content, content', hc, hc'⟩
  · rcases h.entry_cases (place ++ [segment]) with hnext | ⟨content, content', hc, hc'⟩
    · simp only [walkSegment, hsame, hnext]
    · simp only [walkSegment, hsame, hc, hc']
  · simp only [walkSegment, hc, hc']

theorem walk_eq (h : AlikeBut spot content content' t t') : t.walk = t'.walk := by
  funext path
  rw [walk, walk, h.walkSegment_eq, h.working]

theorem locate_eq (h : AlikeBut spot content content' t t') : t.locate = t'.locate := by
  funext path
  rw [locate, locate, h.walk_eq]

theorem isFile_eq (h : AlikeBut spot content content' t t') : t.isFile = t'.isFile := by
  funext path
  rw [isFile, isFile, h.locate_eq]
  cases t'.locate path with
  | error e => rfl
  | ok place =>
    rcases h.entry_cases place with hsame | ⟨content, content', hc, hc'⟩
    · simp only [hsame]
    · simp only [hc, hc']

theorem canonical_eq (h : AlikeBut spot content content' t t') : t.canonical = t'.canonical := by
  funext path
  rw [canonical, canonical, h.walk_eq]

theorem read_eq (h : AlikeBut spot content content' t t') {path : String}
    (hne : t.locate path ≠ .ok spot) : t.read path = t'.read path := by
  rw [read, read, ← h.locate_eq]
  cases hplace : t.locate path with
  | error e => rfl
  | ok place =>
    have helse : place ≠ spot := fun hs => hne (by rw [hplace, hs])
    simp only [bind, Except.bind, h.elsewhere place helse]

end AlikeBut

/-! ## Making directories and files -/

theorem working_insertDirectory (t : FileTree) (place : Place) :
    (t.insertDirectory place).working = t.working := by
  rw [insertDirectory]
  cases t.entry? place <;> rfl

/-- A directory that is put into a tree shows at its place only, and only if nothing was there. -/
theorem entry_insertDirectory (t : FileTree) (place other : Place) :
    FileTree.entry? (t.insertDirectory place) other =
      ( t.entry? other).or (if other = place then some .directory else none) := by
  rw [insertDirectory]
  cases hplace : t.entry? place with
  | some e =>
    by_cases hother : other = place
    · simp [hother, hplace]
    · simp [hother]
  | none =>
    cases other with
    | nil => rfl
    | cons name rest =>
      by_cases hother : name :: rest = place
      · simp [List.lookup_append, entry?, hother]
      · simp [List.lookup_append, entry?, hother, List.lookup_cons, beq_eq_false_iff_ne.mpr hother]

theorem lookup_filter_ne {entries : List (Place × FileEntry)} {place other : Place}
    (h : other ≠ place) :
    (entries.filter (·.1 != place)).lookup other = entries.lookup other := by
  induction entries with
  | nil => rfl
  | cons e rest ih =>
    obtain ⟨key, entry⟩ := e
    by_cases hkey : key = place
    · subst hkey
      simpa [List.lookup_cons, beq_eq_false_iff_ne.mpr h] using ih
    · simp [hkey, List.lookup_cons, ih]

theorem lookup_filter_self (entries : List (Place × FileEntry)) (place : Place) :
    (entries.filter (·.1 != place)).lookup place = none := by
  rw [List.lookup_eq_none_iff]
  intro e he
  obtain ⟨-, hne⟩ := List.mem_filter.mp he
  rwa [bne_comm]

/-- A file that is put into a tree is at its place, unless that is the root. -/
theorem entry_insertFile_self (t : FileTree) (place : Place) (content : ByteArray) :
    FileTree.entry? (t.insertFile place content) place =
      if place = [] then some .directory else some (.file content) := by
  cases place with
  | nil => rfl
  | cons name rest => simp [insertFile, entry?, List.lookup_append, lookup_filter_self]

theorem entry_insertFile_of_ne {t : FileTree} {place other : Place} (content : ByteArray)
    (h : other ≠ place) :
    FileTree.entry? (t.insertFile place content) other =
      FileTree.entry? (t.insertDirectories place.dropLast) other := by
  cases other with
  | nil => rfl
  | cons name rest =>
    simp only [insertFile, entry?, List.lookup_append, lookup_filter_ne h]
    simp [List.lookup_cons, beq_eq_false_iff_ne.mpr h]

namespace AlikeBut

theorem insertDirectory (h : AlikeBut spot content content' t t') (place : Place) :
    AlikeBut spot content content' (t.insertDirectory place) (t'.insertDirectory place) where
  working := by rw [working_insertDirectory, working_insertDirectory, h.working]
  left := by rw [entry_insertDirectory, h.left, Option.some_or]
  right := by rw [entry_insertDirectory, h.right, Option.some_or]
  elsewhere other hne := by
    rw [entry_insertDirectory, entry_insertDirectory, h.elsewhere other hne]

theorem insertDirectories (h : AlikeBut spot content content' t t') (place : Place) :
    AlikeBut spot content content' (t.insertDirectories place) (t'.insertDirectories place) := by
  rw [FileTree.insertDirectories, FileTree.insertDirectories]
  generalize List.range (place.length + 1) = lengths
  induction lengths generalizing t t' with
  | nil => exact h
  | cons n rest ih => exact ih (h.insertDirectory (place.take n))

theorem insertFile (h : AlikeBut spot content content' t t') {place : Place} (hne : place ≠ spot)
    (written : ByteArray) :
    AlikeBut spot content content' (t.insertFile place written)
      (t'.insertFile place written) := by
  have hdirs := h.insertDirectories place.dropLast
  refine ⟨hdirs.working, ?_, ?_, fun other hother => ?_⟩
  · rw [entry_insertFile_of_ne _ hne.symm, hdirs.left]
  · rw [entry_insertFile_of_ne _ hne.symm, hdirs.right]
  · by_cases hplace : other = place
    · rw [hplace, entry_insertFile_self, entry_insertFile_self]
    · rw [entry_insertFile_of_ne _ hplace, entry_insertFile_of_ne _ hplace,
        hdirs.elsewhere other hother]

end AlikeBut

/-! ## Making a log file ready -/

/-- The same failure, or two results that are related. -/
inductive SameFailureOr {α : Type} (R : α → α → Prop) :
    Except ReadError α → Except ReadError α → Prop
  | failed (e : ReadError) : SameFailureOr R (.error e) (.error e)
  | done {x y : α} (h : R x y) : SameFailureOr R (.ok x) (.ok y)

namespace SameFailureOr

variable {α β : Type} {R : α → α → Prop} {S : β → β → Prop} {x y : Except ReadError α}
  {f g : α → Except ReadError β}

theorem bind (h : SameFailureOr R x y) (hstep : ∀ a b, R a b → SameFailureOr S (f a) (g b)) :
    SameFailureOr S (x >>= f) (y >>= g) := by
  cases h with
  | failed e => exact .failed e
  | done hab => exact hstep _ _ hab

theorem foldlM {γ : Type} {f g : α → γ → Except ReadError α}
    (hstep : ∀ c a b, R a b → SameFailureOr R (f a c) (g b c)) :
    ∀ (cs : List γ) {a b : α}, R a b → SameFailureOr R (cs.foldlM f a) (cs.foldlM g b)
  | [], _, _, h => .done h
  | c :: cs, _, _, h => by
    rw [List.foldlM_cons, List.foldlM_cons]
    exact (hstep c _ _ h).bind fun a b hab => foldlM hstep cs hab

end SameFailureOr

namespace AlikeBut

/-- The same place in trees that are alike. -/
def Reached (spot : Place) (content content' : ByteArray) (r r' : FileTree × Place) : Prop :=
  AlikeBut spot content content' r.1 r'.1 ∧ r.2 = r'.2

theorem ensureDirectory (h : AlikeBut spot content content' t t') (path : String) :
    SameFailureOr (Reached spot content content') (t.ensureDirectory path)
      (t'.ensureDirectory path) := by
  rw [FileTree.ensureDirectory, FileTree.ensureDirectory, h.working]
  refine SameFailureOr.foldlM ?_ _ ⟨h, rfl⟩
  rintro segment ⟨u, place⟩ ⟨u', _⟩ ⟨hu, rfl⟩
  simp only [hu.walkSegment_eq]
  cases u'.walkSegment place (String.ofList segment) with
  | ok next => exact .done ⟨hu, rfl⟩
  | error e =>
    cases e with
    | notFound => exact .done ⟨hu.insertDirectory _, rfl⟩
    | _ => exact .failed _

theorem ensurePlace (h : AlikeBut spot content content' t t') (dir name : String) :
    SameFailureOr (Reached spot content content') (t.ensurePlace dir name)
      (t'.ensurePlace dir name) := by
  refine (h.ensureDirectory dir).bind ?_
  rintro ⟨u, place⟩ ⟨u', _⟩ ⟨hu, rfl⟩
  simp only [hu.walkSegment_eq]
  cases u'.walkSegment place name with
  | ok there =>
    rcases hu.entry_cases there with hsame | ⟨content, content', hc, hc'⟩
    · simp only [hsame]
      cases u'.entry? there with
      | none => exact .done ⟨hu, rfl⟩
      | some e =>
        cases e with
        | directory => exact .failed _
        | file content => exact .done ⟨hu, rfl⟩
    · simp only [hc, hc']
      exact .done ⟨hu, rfl⟩
  | error e =>
    cases e with
    | notFound => exact .done ⟨hu, rfl⟩
    | _ => exact .failed _

theorem prepare (h : AlikeBut spot content content' t t') (dir name : String) :
    SameFailureOr (AlikeBut spot content content') (t.prepare dir name) (t'.prepare dir name) := by
  refine (h.ensurePlace dir name).bind ?_
  rintro ⟨u, place⟩ ⟨u', _⟩ ⟨hu, rfl⟩
  by_cases hplace : place = spot
  · simp only [hplace, hu.left, hu.right]
    exact .done hu
  · simp only [hu.elsewhere place hplace]
    cases u'.entry? place with
    | some e => exact .done hu
    | none => exact .done (hu.insertFile hplace _)

end AlikeBut
end Mentions.FileTree
