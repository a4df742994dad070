import Mentions.Proofs.Search.Accuracy

/-! # What of its path a sink is judged by

The path of a sink is the path of a type: a module, the type's own name and generic arguments. The
first angle bracket ends what is looked at, and the last double colon before it ends the module, so
paths inside the arguments do not count, however they are nested. Sinks that answer alike and live
in one module are offered the same mentions.
-/

namespace Mentions

/-- A type as it stands at the end of its path: its own name, and generic arguments, which may hold
anything once an angle bracket has opened them. -/
structure TypeName where
  name : String
  args : String
  colon_not_mem : ':' ∉ name.toList
  angle_not_mem : '<' ∉ name.toList
  args_opened : args = "" ∨ args.toList.head? = some '<'

namespace TypeName

/-- The path of a type in a module, or in none. -/
def pathIn (t : TypeName) : Option String → String
  | some module => module ++ "::" ++ t.name ++ t.args
  | none => t.name ++ t.args

theorem takeWhile_args (t : TypeName) : t.args.toList.takeWhile (· != '<') = [] := by
  rcases t.args_opened with h | h
  · rw [h]
    rfl
  · obtain ⟨rest, hargs⟩ := List.head?_eq_some_iff.mp h
    rw [hargs]
    rfl

/-- What is looked at of a path ends where the generic arguments begin. -/
theorem takeWhile_append_args (t : TypeName) {front : List Char} (h : '<' ∉ front) :
    (front ++ t.args.toList).takeWhile (· != '<') = front := by
  have hfront : ∀ c ∈ front, (c != '<') = true := by
    intro c hc
    exact bne_iff_ne.mpr fun he => h (he ▸ hc)
  rw [List.takeWhile_append_of_pos hfront, takeWhile_args, List.append_nil]

end TypeName

theorem not_infix_of_colon_not_mem {last : List Char} (h : ':' ∉ last) :
    ¬ [':', ':'] <:+: ':' :: last := by
  rw [List.infix_cons_iff, List.cons_prefix_cons]
  rintro (⟨-, hfirst⟩ | hlast)
  · exact h (hfirst.subset List.mem_cons_self)
  · exact h (hlast.subset List.mem_cons_self)

/-- The last double colon of a path stands before its last segment. -/
theorem beforeLastSeparator_append {last : List Char} (h : ':' ∉ last) (front : List Char) :
    beforeLastSeparator (front ++ ':' :: ':' :: last) = some front := by
  induction front with
  | nil =>
    have hnone := beforeLastSeparator_of_not_infix (not_infix_of_colon_not_mem h)
    rw [List.nil_append, beforeLastSeparator, hnone]
    rfl
  | cons c front ih => simp [beforeLastSeparator, ih]

theorem owningModule_pathIn_some (t : TypeName) {module : String} (h : '<' ∉ module.toList) :
    owningModule (t.pathIn (some module)) = module := by
  have hfront : '<' ∉ module.toList ++ ':' :: ':' :: t.name.toList := by
    simp [h, t.angle_not_mem]
  have htext : (t.pathIn (some module)).toList =
      (module.toList ++ ':' :: ':' :: t.name.toList) ++ t.args.toList := by
    simp [TypeName.pathIn]
  rw [owningModule, htext, t.takeWhile_append_args hfront,
    beforeLastSeparator_append t.colon_not_mem, Option.getD_some, String.ofList_toList]

theorem owningModule_pathIn_none (t : TypeName) : owningModule (t.pathIn none) = "" := by
  apply owningModule_of_not_infix
  rw [TypeName.pathIn, String.toList_append, t.takeWhile_append_args t.angle_not_mem]
  exact fun h => t.colon_not_mem (h.subset List.mem_cons_self)

/-! ## Sinks that answer alike -/

/-- Two sinks, in states that correspond, give the same answer to every mention and come to states
that correspond. -/
structure Sink.AnswersAlike {σ σ' : Type} (R : σ → σ' → Prop) (sink : Sink σ) (sink' : Sink σ') :
    Prop where
  answer : ∀ a b m, R a b → (sink.offer a m).1 = (sink'.offer b m).1
  next : ∀ a b m, R a b → R (sink.offer a m).2 (sink'.offer b m).2

namespace Search

variable {σ σ' : Type} {R : σ → σ' → Prop} {sink : Sink σ} {sink' : Sink σ'}
  {state : SearchState σ} {state' : SearchState σ'}

/-- Searches at the same point: the same spots are taken and the sinks correspond. -/
structure SamePoint (R : σ → σ' → Prop) (state : SearchState σ) (state' : SearchState σ') :
    Prop where
  taken : state.taken = state'.taken
  sink : R state.sink state'.sink

theorem offer?_eq_of_answersAlike (hs : Sink.AnswersAlike R sink sink') (s : Search)
    (h : SamePoint R state state') (v : Visit) :
    s.offer? sink state v = s.offer? sink' state' v := by
  ext o
  rw [offer?_eq_some_iff, offer?_eq_some_iff, h.taken, hs.answer _ _ o.mention h.sink]

theorem SamePoint.step (hs : Sink.AnswersAlike R sink sink') (s : Search)
    (h : SamePoint R state state') (v : Visit) :
    SamePoint R (s.step sink state v).next (s.step sink' state' v).next where
  taken := by
    have hoffer := offer?_eq_of_answersAlike hs s h v
    simp only [taken_step, accepted, offers, List.append_nil, hoffer, h.taken]
  sink := by
    have hoffered : (s.step sink state v).offered = (s.step sink' state' v).offered := by
      ext m
      rw [offered_eq_some_iff, offered_eq_some_iff, h.taken]
    rw [next_sink, next_sink, hoffered]
    cases (s.step sink' state' v).offered with
    | none => exact h.sink
    | some m => exact hs.next _ _ m h.sink

theorem offers_eq_of_answersAlike (hs : Sink.AnswersAlike R sink sink') (s : Search)
    (h : SamePoint R state state') (visits : List Visit) :
    s.offers sink state visits = s.offers sink' state' visits := by
  induction visits generalizing state state' with
  | nil => rfl
  | cons v rest ih =>
    rw [offers, offers, offer?_eq_of_answersAlike hs s h v, ih (h.step hs s v)]

/-- **Of the path of a sink only the module counts.** The module of a path is what stands before the
type's own name, whatever the generic arguments hold; a type in no module has the empty one. So with
any query and settings, during any visits, two sinks that answer alike get the same offers if their
paths differ only in the type's own name and in generic arguments. -/
theorem offers_depend_on_module_of_origin :
    (∀ t : TypeName, owningModule (t.pathIn none) = "" ∧ ∀ module : String, '<' ∉ module.toList →
      owningModule (t.pathIn (some module)) = module) ∧
    ∀ (σ σ' : Type) (R : σ → σ' → Prop) (sink : Sink σ) (sink' : Sink σ') (start : σ) (start' : σ')
      (home : Option String) (t t' : TypeName), (∀ module ∈ home, '<' ∉ module.toList) →
      sink.origin = t.pathIn home → sink'.origin = t'.pathIn home →
      Sink.AnswersAlike R sink sink' → R start start' →
      ∀ (q : Query) (participant : String) (settings : Settings) (visits : List Visit),
        (ofQuery q sink.origin participant settings).offers sink (begin start).state visits =
          (ofQuery q sink'.origin participant settings).offers sink' (begin start').state
            visits := by
  refine ⟨fun t => ⟨owningModule_pathIn_none t, fun module => owningModule_pathIn_some t⟩, ?_⟩
  intro σ σ' R sink sink' start start' home t t' hhome ho ho' hs hstart q participant settings
    visits
  have howner : owningModule sink.origin = owningModule sink'.origin := by
    rw [ho, ho']
    cases home with
    | none => rw [owningModule_pathIn_none, owningModule_pathIn_none]
    | some module =>
      have hmodule := hhome module rfl
      rw [owningModule_pathIn_some t hmodule, owningModule_pathIn_some t' hmodule]
  have hsearch : ofQuery q sink.origin participant settings =
      ofQuery q sink'.origin participant settings := by
    rw [ofQuery, ofQuery, howner]
  rw [hsearch]
  exact offers_eq_of_answersAlike hs _ ⟨rfl, hstart⟩ visits

namespace Sample

/-- A type whose arguments hold a path with the marker, and arguments of their own. -/
def nestedName : TypeName :=
  ⟨"Keep", "<a::refactoring::All<b::refactoring::One>>", by decide, by decide, by decide⟩

def plainName : TypeName := ⟨"Count", "", by decide, by decide, .inl rfl⟩

def keeping : Sink (Array Mention) :=
  collectorAt "tools::search::Keep<a::refactoring::All<b::refactoring::One>>"

/-- A sink that takes every mention and only counts them. -/
def counting : Sink Nat := ⟨"tools::search::Count", fun n _ => (none, n + 1)⟩

end Sample

theorem sample_sinks_of_one_module_offered_alike :
    '<' ∉ "tools::search".toList ∧
    Sample.keeping.origin = Sample.nestedName.pathIn (some "tools::search") ∧
    Sample.counting.origin = Sample.plainName.pathIn (some "tools::search") ∧
    owningModule Sample.keeping.origin = "tools::search" ∧
    Sink.AnswersAlike (fun kept n => kept.size = n) Sample.keeping Sample.counting ∧
    (Sample.searchFor Sample.keeping).offers Sample.keeping (begin #[]).state
        [Sample.importVisit, Sample.guessVisit] =
      (ofQuery ((Query.ofName "Foo😀").qualified "pkg") Sample.counting.origin defaultParticipant
        (.ofPayloads Sample.blankPayloads)).offers Sample.counting (begin 0).state
        [Sample.importVisit, Sample.guessVisit] ∧
    ((Sample.searchFor Sample.keeping).offers Sample.keeping (begin #[]).state
      [Sample.importVisit, Sample.guessVisit]).map (·.mention.accuracy) =
        [.accurate, .inaccurate] := by
  obtain ⟨howner, hoffers⟩ := offers_depend_on_module_of_origin
  have hmodule : '<' ∉ "tools::search".toList := by decide
  have ho : Sample.keeping.origin = Sample.nestedName.pathIn (some "tools::search") := by
    decide +kernel
  have ho' : Sample.counting.origin = Sample.plainName.pathIn (some "tools::search") := by
    decide +kernel
  have hs : Sink.AnswersAlike (fun kept n => kept.size = n) Sample.keeping Sample.counting :=
    ⟨fun _ _ _ _ => rfl, fun _ _ m h => (Array.size_push m).trans (congrArg (· + 1) h)⟩
  have hoffers := hoffers _ _ _ Sample.keeping Sample.counting #[] 0 (some "tools::search")
    Sample.nestedName Sample.plainName (fun module hm => Option.mem_some.mp hm ▸ hmodule) ho ho' hs
    rfl
  refine ⟨hmodule, ho, ho', ?_, hs, hoffers _ _ _ _, rfl⟩
  rw [ho]
  exact (howner Sample.nestedName).2 _ hmodule

end Search
end Mentions
