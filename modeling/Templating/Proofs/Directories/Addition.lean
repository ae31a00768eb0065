import Templating.Proofs.Directories.History
import Templating.Proofs.StableSort

/-!
# One directory more

A new directory goes somewhere between those that are registered already and does not move them, so
a search that it is added to goes the same way as before, but for what the new directory serves.

* `serve_eq_some`, `serve_eq_none`: what a directory serves, and whether it does.
* `exists_inSearchOrder_tryAdd`: where a new directory is searched.
* `search_inserted`: what it changes of one search.
* `adding_changes_served_names` puts them together for every registry that takes the directory.
-/

namespace Templating.Directories

/-! ## What a directory serves -/

/-- The directory at `path` serves a name: the normal form of the name is under the directory and
the directory is there, or the two joined are. -/
def Serves (present : String → Bool) (path name : String) : Prop :=
  (Path.isUnder (Path.normalize name) path = true ∧ present path = true) ∨
    present (Path.join path (Path.normalize name)) = true

/-- What the directory at `path` serves a name with. -/
def served (present : String → Bool) (path name : String) : String :=
  if Path.isUnder (Path.normalize name) path && present path then Path.normalize name
  else Path.join path (Path.normalize name)

section

variable {present : String → Bool} {directory : Directory} {name found : String}

theorem serve_eq (present : String → Bool) (template : String) (directory : Directory) :
    serve present template directory =
      if Path.isUnder template directory.path && present directory.path then some template
      else if present (Path.join directory.path template) then
        some (Path.join directory.path template)
      else none := rfl

theorem serve_eq_some : serve present (Path.normalize name) directory = some found ↔
    Serves present directory.path name ∧ found = served present directory.path name := by
  rw [serve_eq, served]
  cases inside : Path.isUnder (Path.normalize name) directory.path && present directory.path with
  | true =>
    have serves : Serves present directory.path name := .inl (Bool.and_eq_true_iff.mp inside)
    rw [if_pos rfl, if_pos rfl, Option.some_inj, and_iff_right serves, eq_comm]
  | false =>
    have outside := mt Bool.and_eq_true_iff.mpr (Bool.eq_false_iff.mp inside)
    rw [if_neg Bool.false_ne_true, if_neg Bool.false_ne_true, Serves, or_iff_right outside]
    cases present (Path.join directory.path (Path.normalize name)) with
    | true => rw [if_pos rfl, Option.some_inj, and_iff_right rfl, eq_comm]
    | false => simp only [Bool.false_eq_true, if_false, reduceCtorEq, false_and]

theorem serve_eq_none : serve present (Path.normalize name) directory = none ↔
    ¬ Serves present directory.path name := by
  rw [Option.eq_none_iff_forall_ne_some]
  constructor
  · exact fun none serves => none _ (serve_eq_some.mpr ⟨serves, rfl⟩)
  · exact fun not found isFound => not (serve_eq_some.mp isFound).1

end

/-! ## Where a new directory goes -/

theorem inSearchOrder_of_unlocked {directories : Directories}
    (unlocked : directories.locked = false) :
    directories.inSearchOrder = directories.entries.mergeSort Directory.before :=
  if_neg (Bool.eq_false_iff.mp unlocked)

/-- A new directory goes between the others, which stay in their order. -/
theorem exists_inSearchOrder_tryAdd {directories : Directories}
    (unlocked : directories.locked = false) {path : String} (priority : Priority)
    (fresh : ∀ directory ∈ directories.entries, directory.path ≠ Path.normalize path) :
    ∃ grown front added back, directories.tryAdd path priority = .ok grown ∧
      grown.projectRoot = directories.projectRoot ∧ grown.extension = directories.extension ∧
      added.path = Path.normalize path ∧ grown.inSearchOrder = front ++ added :: back ∧
      directories.inSearchOrder = front ++ back := by
  have others : directories.entries.filter (·.path ≠ Path.normalize path) = directories.entries :=
    List.filter_eq_self.mpr fun directory member => decide_eq_true (fresh directory member)
  let added : Directory :=
    ⟨Path.normalize path, priority.value directories.entries.length, directories.nextSequence⟩
  obtain ⟨front, back, after, before⟩ :=
    exists_mergeSort_concat before_trans before_total directories.entries added
  refine ⟨{ directories with
    entries := directories.entries ++ [added]
    nextSequence := directories.nextSequence + 1 }, front, added, back, ?_, rfl, rfl, rfl, ?_, ?_⟩
  · rw [tryAdd, if_neg (Bool.eq_false_iff.mp unlocked), others]
  · exact Eq.trans (inSearchOrder_of_unlocked (by exact unlocked)) after
  · exact (inSearchOrder_of_unlocked unlocked).trans before

/-! ## What a new directory changes -/

/-- The name is found under the project root. -/
def FoundInProject (directories : Directories) (present : String → Bool) (name : String) : Prop :=
  Path.isUnder (Path.normalize name) directories.projectRoot = true ∧
    present (Path.normalize name) = true

theorem search_eq (directories : Directories) (present : String → Bool) (name : String) :
    directories.search present name =
      if Path.hasExtension directories.extension name then
        if Path.isUnder (Path.normalize name) directories.projectRoot &&
          present (Path.normalize name) then Path.normalize name
        else (directories.inSearchOrder.findSome? (serve present (Path.normalize name))).getD name
      else name := rfl

/-- A search behind the first directories is a search of the others when none of them serves. -/
theorem findSome?_append_of_none {front back : List Directory} {present : String → Bool}
    {name : String} (none : ∀ directory ∈ front, ¬ Serves present directory.path name) :
    (front ++ back).findSome? (serve present (Path.normalize name)) =
      back.findSome? (serve present (Path.normalize name)) := by
  have nothing : front.findSome? (serve present (Path.normalize name)) = .none :=
    List.findSome?_eq_none_iff.mpr fun directory member => serve_eq_none.mpr (none directory member)
  rw [List.findSome?_append, nothing, Option.none_or]

section

variable {directories grown : Directories} {front back : List Directory} {added : Directory}
  (root : grown.projectRoot = directories.projectRoot)
  (extension : grown.extension = directories.extension)
  (after : grown.inSearchOrder = front ++ added :: back)
  (before : directories.inSearchOrder = front ++ back)

include root extension after before

/-- A search comes to the same unless the new directory serves the name and none
ahead of it does. -/
theorem search_inserted (present : String → Bool) (name : String) :
    grown.search present name = directories.search present name ∨
      (Serves present added.path name ∧
        grown.search present name = served present added.path name ∧
        ∀ directory ∈ front, ¬ Serves present directory.path name) := by
  rw [search_eq, search_eq, root, extension, after, before]
  split
  · split
    · exact .inl rfl
    · by_cases ahead : ∃ directory ∈ front, Serves present directory.path name
      · -- The search ends before it comes to the new directory.
        obtain ⟨directory, member, serves⟩ := ahead
        obtain ⟨found, isFound⟩ : ∃ found,
            front.findSome? (serve present (Path.normalize name)) = some found := by
          refine Option.isSome_iff_exists.mp (List.findSome?_isSome_iff.mpr ⟨directory, member, ?_⟩)
          rw [serve_eq_some.mpr ⟨serves, rfl⟩]
          rfl
        rw [List.findSome?_append, List.findSome?_append, isFound]
        exact .inl rfl
      · have none : ∀ directory ∈ front, ¬ Serves present directory.path name :=
          fun directory member serves => ahead ⟨directory, member, serves⟩
        rw [findSome?_append_of_none none, findSome?_append_of_none none, List.findSome?_cons]
        by_cases serves : Serves present added.path name
        · rw [serve_eq_some.mpr ⟨serves, rfl⟩]
          exact .inr ⟨serves, rfl, none⟩
        · rw [serve_eq_none.mpr serves]
          exact .inl rfl
  · exact .inl rfl

/-- Nothing changes for a name that is found in the project or served by a directory ahead. -/
theorem search_inserted_of_found {present : String → Bool} {name : String}
    (found : directories.FoundInProject present name ∨
      ∃ directory ∈ front, Serves present directory.path name) :
    grown.search present name = directories.search present name := by
  rcases found with ⟨under, there⟩ | ⟨directory, member, serves⟩
  · rw [search_eq, search_eq, root, extension, under, there]
    rfl
  · rcases search_inserted root extension after before present name with same | ⟨-, -, none⟩
    · exact same
    · exact absurd serves (none directory member)

end

/-- **A new directory only changes names that it serves.** Added to a search path that is not
locked, under a path that is not registered yet and with any priority, it goes between the
directories ahead of it and those behind it. From then on a name comes to the same as without it,
or to what the new directory serves it with, and then no directory ahead serves the name. In
particular nothing changes for a name that is found in the project or served by another directory
when the new one comes last. -/
theorem adding_changes_served_names {directories : Directories}
    (unlocked : directories.locked = false) (path : String) (priority : Priority)
    (fresh : ∀ directory ∈ directories.entries, directory.path ≠ Path.normalize path) :
    ∃ grown ahead added behind, directories.tryAdd path priority = .ok grown ∧
      directories.add path priority = grown ∧ added.path = Path.normalize path ∧
      grown.inSearchOrder = ahead ++ added :: behind ∧
      directories.inSearchOrder = ahead ++ behind ∧
      (∀ present name,
        (grown.resolve present name).1 = (directories.resolve present name).1 ∨
          (Serves present added.path name ∧
            (grown.resolve present name).1 = served present added.path name ∧
            ∀ directory ∈ ahead, ¬ Serves present directory.path name)) ∧
      (behind = [] → ∀ present name, directories.FoundInProject present name ∨
          (∃ directory ∈ directories.entries, Serves present directory.path name) →
        (grown.resolve present name).1 = (directories.resolve present name).1) := by
  obtain ⟨grown, ahead, added, behind, outcome, root, extension, isPath, after, before⟩ :=
    exists_inSearchOrder_tryAdd unlocked priority fresh
  refine ⟨grown, ahead, added, behind, outcome, ?_, isPath, after, before,
    search_inserted root extension after before, fun last present name found => ?_⟩
  · rw [add, outcome]
  · refine search_inserted_of_found root extension after before (found.imp_right ?_)
    rintro ⟨directory, member, serves⟩
    refine ⟨directory, ?_, serves⟩
    have all : directories.inSearchOrder = ahead := by
      rw [before, last, List.append_nil]
    rw [← all, inSearchOrder_of_unlocked unlocked]
    exact List.mem_mergeSort.mpr member

/-- A directory in no particular priority behind one of a high priority. -/
theorem adding_changes_served_names_fallback :
    let directories := (new "/project").add "/views" (.explicit 5)
    directories.locked = false ∧
    (∀ directory ∈ directories.entries, directory.path ≠ Path.normalize "/x/../shared") ∧
    ∃ grown, directories.tryAdd "/x/../shared" .byCount = .ok grown ∧
      ∀ present name,
        ((grown.resolve present name).1 = (directories.resolve present name).1 ∨
          (Serves present "/shared" name ∧
            (grown.resolve present name).1 = served present "/shared" name ∧
            ¬ Serves present "/views" name)) ∧
        (Serves present "/views" name →
          (grown.resolve present name).1 = (directories.resolve present name).1) := by
  intro directories
  have entries : directories.entries = [⟨"/views", 5, 0⟩] := by decide
  have fresh : ∀ directory ∈ directories.entries,
      directory.path ≠ Path.normalize "/x/../shared" := by decide
  obtain ⟨grown, ahead, added, behind, outcome, -, isPath, after, before, changed, kept⟩ :=
    adding_changes_served_names rfl "/x/../shared" .byCount fresh
  have shared : Path.normalize "/x/../shared" = "/shared" := by decide
  have one : directories.inSearchOrder = [⟨"/views", 5, 0⟩] := by
    rw [inSearchOrder_of_unlocked rfl, entries, List.mergeSort_singleton]
  have two : grown.inSearchOrder = [⟨"/views", 5, 0⟩, ⟨"/shared", 1, 1⟩] := by
    obtain rfl := Except.ok.inj outcome
    rw [inSearchOrder_of_unlocked rfl, mergeSort_eq_foldr before_trans before_total]
    decide
  obtain ⟨rfl, rfl⟩ : ahead = [⟨"/views", 5, 0⟩] ∧ behind = [] := by
    rw [one] at before
    rw [two] at after
    cases ahead with
    | nil =>
      rw [List.nil_append] at before after
      rw [← before] at after
      exact absurd (List.cons.inj after).2 (by decide)
    | cons first rest =>
      obtain ⟨rfl, rest⟩ := List.cons.inj before
      obtain ⟨rfl, rfl⟩ := List.append_eq_nil_iff.mp rest.symm
      exact ⟨rfl, rfl⟩
  rw [isPath, shared] at changed
  rw [entries] at kept
  refine ⟨rfl, fresh, grown, outcome, fun present name => ⟨?_, fun serves => ?_⟩⟩
  · refine (changed present name).imp_right fun ⟨serves, found, unserved⟩ => ⟨serves, found, ?_⟩
    exact unserved ⟨"/views", 5, 0⟩ List.mem_cons_self
  · exact kept rfl present name (.inr ⟨⟨"/views", 5, 0⟩, List.mem_cons_self, serves⟩)

end Templating.Directories
