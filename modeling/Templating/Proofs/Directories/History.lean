import Mathlib.Data.List.Basic
import Mathlib.Data.List.Nodup
import Mathlib.Data.List.TakeWhile
import Templating.Directories
import Templating.Proofs.Text.Words

/-!
# The search path and the history of its registrations

A caller registers directories, resolves names and lists the search path in any order. What the
search path holds is read off the history of the registrations alone: `Lists` says which directories
a history lists, with which priorities and in which order.

* `Tracks.tryAdd`: each registration keeps the entries in step with the history.
* `Tracks.lists`: sorting such entries lists the history.
* `call_of_locked`: no call changes a locked search path.
* `search_path_follows_history` puts them together for every sequence of calls.
-/

namespace Templating.Directories

open Templating.Text

/-! ## Calls -/

/-- What can be asked of the directories of a project. A name is resolved with the paths that are
present at that moment. -/
inductive Call where
  | add (path : String) (priority : Priority)
  | tryAdd (path : String) (priority : Priority)
  | resolve (present : String → Bool) (name : String)
  | list

inductive Answer where
  | done
  | tried (outcome : Except LateDirectory Unit)
  | resolved (path : String)
  | listed (directories : List Directory)

/-- Answers a call, with the directories behind it. -/
def call (directories : Directories) : Call → Answer × Directories
  | .add path priority => (.done, directories.add path priority)
  | .tryAdd path priority =>
    match directories.tryAdd path priority with
    | .ok grown => (.tried (.ok ()), grown)
    | .error late => (.tried (.error late), directories)
  | .resolve present name =>
    let (path, locked) := directories.resolve present name
    (.resolved path, locked)
  | .list => (.listed directories.inSearchOrder, directories)

/-- The directories behind a sequence of calls. -/
def after (directories : Directories) (calls : List Call) : Directories :=
  calls.foldl (fun current next => (current.call next).2) directories

theorem after_cons (directories : Directories) (next : Call) (calls : List Call) :
    directories.after (next :: calls) = (directories.call next).2.after calls := rfl

theorem after_append (directories : Directories) (first second : List Call) :
    directories.after (first ++ second) = (directories.after first).after second :=
  List.foldl_append

/-! ## Histories -/

/-- A registration of a directory, under the normal form of its path. -/
structure Registration where
  path : String
  priority : Priority

/-- The registration that a call asks for. -/
def Call.registration? : Call → Option Registration
  | .add path priority => some ⟨Path.normalize path, priority⟩
  | .tryAdd path priority => some ⟨Path.normalize path, priority⟩
  | .resolve .. => none
  | .list => none

def Call.isResolve : Call → Bool
  | .resolve .. => true
  | _ => false

/-- The calls made before the first name was resolved. -/
def beforeResolve (calls : List Call) : List Call :=
  calls.takeWhile fun next => !next.isResolve

/-- The registrations made before the first name was resolved. -/
def registrations (calls : List Call) : List Registration :=
  (beforeResolve calls).filterMap Call.registration?

/-- The paths of a history, one for each registration. -/
def registeredPaths (history : List Registration) : List String :=
  history.map Registration.path

/-- How many distinct paths other than `path` a history registers. -/
def otherPaths (history : List Registration) (path : String) : Nat :=
  ((registeredPaths history).eraseDups.filter (· ≠ path)).length

/-- `registration` is the last one of its path, and was made behind `before`. -/
def RegisteredLast (history before : List Registration) (registration : Registration) : Prop :=
  ∃ later, history = before ++ registration :: later ∧
    registration.path ∉ registeredPaths later

/-- The number that a priority asks for when `others` other paths are registered: as many as they
are, the greatest number there is, or the one that is given. -/
inductive EffectivePriority (others : Nat) : Priority → Int64 → Prop where
  | byCount : EffectivePriority others .byCount (Int64.ofNat others)
  | maximum : EffectivePriority others .maximum Int64.maxValue
  | explicit (value : Int64) : EffectivePriority others (.explicit value) value

theorem effectivePriority_iff {others : Nat} {priority : Priority} {number : Int64} :
    EffectivePriority others priority number ↔ number = priority.value others := by
  constructor
  · rintro (_ | _ | _) <;> rfl
  · rintro rfl
    cases priority with
    | byCount => exact .byCount
    | maximum => exact .maximum
    | explicit value => exact .explicit value

/-- The first path was registered since the second was registered last. -/
def MoreRecent (history : List Registration) (first second : String) : Prop :=
  ∃ recent, recent <:+ history ∧ first ∈ registeredPaths recent ∧ second ∉ registeredPaths recent

/-- A list of directories is the search path for a history: it has each registered path once, with
the number that the last registration of the path asked for when it was made, from the highest
priority to the lowest and the most recent path first among equals. -/
structure Lists (history : List Registration) (listed : List Directory) : Prop where
  nodup : (listed.map Directory.path).Nodup
  registered : ∀ path, path ∈ listed.map Directory.path ↔ path ∈ registeredPaths history
  priority : ∀ directory ∈ listed, ∃ before priority,
    RegisteredLast history before ⟨directory.path, priority⟩ ∧
      EffectivePriority (otherPaths before directory.path) priority directory.priority
  ordered : listed.Pairwise fun first second => second.priority < first.priority ∨
    (first.priority = second.priority ∧ MoreRecent history first.path second.path)

/-! ## The order of the search -/

theorem before_trans (first second third : Directory) (left : first.before second = true)
    (right : second.before third = true) : first.before third = true := by
  simp only [Directory.before, Bool.or_eq_true, Bool.and_eq_true, decide_eq_true_eq] at *
  rcases left with left | ⟨left, order⟩ <;> rcases right with right | ⟨right, order'⟩
  · exact .inl (Int64.lt_trans right left)
  · exact .inl (right ▸ left)
  · exact .inl (left ▸ right)
  · exact .inr ⟨left.trans right, Nat.le_trans order' order⟩

theorem before_total (first second : Directory) :
    (first.before second || second.before first) = true := by
  simp only [Directory.before, Bool.or_eq_true, Bool.and_eq_true, decide_eq_true_eq]
  rcases Int.lt_trichotomy first.priority.toInt second.priority.toInt with less | same | less
  · exact .inr (.inl (Int64.lt_iff_toInt_lt.mpr less))
  · have same : first.priority = second.priority := Int64.toInt_inj.mp same
    rcases Nat.le_total first.sequence second.sequence with order | order
    · exact .inr (.inr ⟨same.symm, order⟩)
    · exact .inl (.inr ⟨same, order⟩)
  · exact .inl (.inl (Int64.lt_iff_toInt_lt.mpr less))

/-! ## Registering -/

theorem RegisteredLast.snoc {history before : List Registration} {registration added : Registration}
    (last : RegisteredLast history before registration) (other : added.path ≠ registration.path) :
    RegisteredLast (history ++ [added]) before registration := by
  obtain ⟨later, rfl, absent⟩ := last
  refine ⟨later ++ [added], by simp, ?_⟩
  simp only [registeredPaths, List.map_append, List.mem_append, List.map_cons, List.map_nil,
    List.mem_singleton, not_or]
  exact ⟨absent, fun same => other same.symm⟩

theorem registeredLast_snoc_self (history : List Registration) (added : Registration) :
    RegisteredLast (history ++ [added]) history added :=
  ⟨[], rfl, List.not_mem_nil⟩

/-- Of two registrations that are the last of different paths the one that was made later is more
recent. -/
theorem RegisteredLast.moreRecent {history before before' : List Registration}
    {registration registration' : Registration} (last : RegisteredLast history before registration)
    (last' : RegisteredLast history before' registration')
    (differs : registration.path ≠ registration'.path) (later : before'.length ≤ before.length) :
    MoreRecent history registration.path registration'.path := by
  obtain ⟨rest, rfl, -⟩ := last
  obtain ⟨rest', same, absent'⟩ := last'
  have split : ∃ gap, before = before' ++ gap ∧
      gap ++ registration :: rest = registration' :: rest' := by
    rcases List.append_eq_append_iff.mp same with ⟨gap, rfl, tail⟩ | ⟨gap, rfl, tail⟩
    · have empty : gap = [] := by
        apply List.eq_nil_of_length_eq_zero
        simp only [List.length_append] at later
        omega
      subst empty
      exact ⟨[], by simp, tail⟩
    · exact ⟨gap, rfl, tail.symm⟩
  obtain ⟨gap, rfl, tail⟩ := split
  refine ⟨registration :: rest, List.suffix_append _ _, by simp [registeredPaths], ?_⟩
  cases gap with
  | nil =>
    -- Both registrations are the same one.
    obtain ⟨rfl, -⟩ := List.cons.inj tail
    exact absurd rfl differs
  | cons _ gap =>
    obtain ⟨-, rfl⟩ := List.cons.inj tail
    have part : registration :: rest <:+ gap ++ registration :: rest := List.suffix_append _ _
    exact fun member => absent' ((part.map Registration.path).subset member)

/-- Putting a directory in place of the one with its path keeps the paths distinct. -/
theorem nodup_paths_put {entries : List Directory} (nodup : (entries.map Directory.path).Nodup)
    (added : Directory) :
    ((entries.filter (·.path ≠ added.path) ++ [added]).map Directory.path).Nodup := by
  simp only [List.map_append, List.map_cons, List.map_nil, List.nodup_append]
  refine ⟨nodup.sublist (List.filter_sublist.map _), List.nodup_singleton _, ?_⟩
  rintro _ member _ same rfl
  obtain ⟨directory, kept, rfl⟩ := List.mem_map.mp member
  have differs : directory.path ≠ added.path := by simpa using (List.mem_filter.mp kept).2
  exact differs (List.mem_singleton.mp same)

/-- Putting a directory in place of the one with its path adds its path only. -/
theorem mem_paths_put {entries : List Directory} (added : Directory) {path : String} :
    path ∈ (entries.filter (·.path ≠ added.path) ++ [added]).map Directory.path ↔
      path ∈ entries.map Directory.path ∨ path = added.path := by
  by_cases same : path = added.path
  · simp [same]
  · simp only [List.map_append, List.mem_append, List.mem_map, List.mem_filter, List.map_cons,
      List.map_nil, List.mem_singleton, same, or_false]
    constructor
    · rintro ⟨directory, ⟨member, -⟩, rfl⟩
      exact ⟨directory, member, rfl⟩
    · rintro ⟨directory, member, rfl⟩
      exact ⟨directory, ⟨member, decide_eq_true same⟩, rfl⟩

/-- The entries of directories that are not locked are in step with a history. -/
structure Tracks (history : List Registration) (directories : Directories) : Prop where
  unlocked : directories.locked = false
  next : directories.nextSequence = history.length
  nodup : (directories.entries.map Directory.path).Nodup
  registered : ∀ path,
    path ∈ directories.entries.map Directory.path ↔ path ∈ registeredPaths history
  last : ∀ directory ∈ directories.entries, ∃ before priority,
    RegisteredLast history before ⟨directory.path, priority⟩ ∧
      EffectivePriority (otherPaths before directory.path) priority directory.priority ∧
      directory.sequence = before.length

namespace Tracks

variable {history : List Registration} {directories : Directories}

/-- There are as many other entries as other paths. -/
theorem length_others (tracks : Tracks history directories) (path : String) :
    (directories.entries.filter (·.path ≠ path)).length = otherPaths history path := by
  have same : (directories.entries.map Directory.path).Perm (registeredPaths history).eraseDups :=
    (List.perm_ext_iff_of_nodup tracks.nodup (nodup_eraseDups _)).mpr fun path => by
      rw [tracks.registered, List.mem_eraseDups]
  rw [otherPaths, ← (same.filter _).length_eq, List.filter_map, List.length_map]
  rfl

/-- A registration keeps the entries in step. -/
theorem tryAdd (tracks : Tracks history directories) (path : String) (priority : Priority) :
    ∃ grown, directories.tryAdd path priority = .ok grown ∧
      Tracks (history ++ [⟨Path.normalize path, priority⟩]) grown := by
  refine ⟨_, if_neg (Bool.eq_false_iff.mp tracks.unlocked), ?_⟩
  generalize Path.normalize path = path
  refine ⟨tracks.unlocked, by simp [tracks.next], nodup_paths_put tracks.nodup ⟨path, _, _⟩, ?_, ?_⟩
  · intro other
    refine (mem_paths_put ⟨path, _, _⟩).trans ?_
    rw [tracks.registered]
    simp [registeredPaths]
  · intro directory member
    rcases List.mem_append.mp member with kept | added
    · obtain ⟨member, differs⟩ := List.mem_filter.mp kept
      have differs : directory.path ≠ path := of_decide_eq_true differs
      obtain ⟨before, priority', last, rest⟩ := tracks.last directory member
      exact ⟨before, priority', last.snoc fun same => differs same.symm, rest⟩
    · obtain rfl := List.mem_singleton.mp added
      refine ⟨history, priority, registeredLast_snoc_self _ _, ?_, tracks.next⟩
      exact effectivePriority_iff.mpr (congrArg (priority.value ·) (tracks.length_others path))

/-- Entries in step with a history list it once they are sorted. -/
theorem lists (tracks : Tracks history directories) : Lists history directories.inSearchOrder := by
  have order : directories.inSearchOrder = directories.entries.mergeSort Directory.before := by
    simp [inSearchOrder, tracks.unlocked, sort]
  have same : directories.inSearchOrder.Perm directories.entries :=
    order ▸ List.mergeSort_perm _ _
  have sorted : directories.inSearchOrder.Pairwise fun first second =>
      first.before second = true := order ▸ List.pairwise_mergeSort before_trans before_total _
  have nodup := (same.map Directory.path).nodup_iff.mpr tracks.nodup
  refine ⟨nodup, fun path => ?_, fun directory member => ?_, ?_⟩
  · rw [(same.map Directory.path).mem_iff, tracks.registered]
  · obtain ⟨before, priority, last, number, -⟩ := tracks.last directory (same.subset member)
    exact ⟨before, priority, last, number⟩
  · refine (List.Pairwise.and_mem.mp sorted).and (List.pairwise_map.mp nodup) |>.imp ?_
    rintro first second ⟨⟨member, member', earlier⟩, differs⟩
    simp only [Directory.before, Bool.or_eq_true, Bool.and_eq_true, decide_eq_true_eq] at earlier
    refine earlier.imp id fun ⟨equal, later⟩ => ⟨equal, ?_⟩
    obtain ⟨before, _, last, -, place⟩ := tracks.last first (same.subset member)
    obtain ⟨before', _, last', -, place'⟩ := tracks.last second (same.subset member')
    exact last.moreRecent last' differs (place ▸ place' ▸ later)

/-- A call that resolves nothing keeps the entries in step with what it registers. -/
theorem call (tracks : Tracks history directories) {next : Call}
    (unresolved : next.isResolve = false) :
    Tracks (history ++ next.registration?.toList) (directories.call next).2 := by
  cases next with
  | add path priority =>
    obtain ⟨grown, outcome, tracks⟩ := tracks.tryAdd path priority
    rw [Directories.call, add, outcome]
    exact tracks
  | tryAdd path priority =>
    obtain ⟨grown, outcome, tracks⟩ := tracks.tryAdd path priority
    rw [Directories.call, outcome]
    exact tracks
  | resolve => cases unresolved
  | list => exact (List.append_nil history).symm ▸ tracks

/-- Calls that resolve nothing keep the entries in step with all that they register. -/
theorem after (tracks : Tracks history directories) {calls : List Call}
    (unresolved : ∀ next ∈ calls, next.isResolve = false) :
    Tracks (history ++ calls.filterMap Call.registration?) (directories.after calls) := by
  induction calls generalizing history directories with
  | nil => exact (List.append_nil history).symm ▸ tracks
  | cons next calls ih =>
    have step := ih (tracks.call (unresolved next List.mem_cons_self)) fun later member =>
      unresolved later (List.mem_cons_of_mem next member)
    have registered : (next :: calls).filterMap Call.registration? =
        next.registration?.toList ++ calls.filterMap Call.registration? := by
      cases registered : next.registration? <;> simp [registered]
    rw [after_cons, registered, ← List.append_assoc]
    exact step

end Tracks

/-! ## Locked directories -/

theorem add_of_locked {directories : Directories} (locked : directories.locked = true)
    (path : String) (priority : Priority) : directories.add path priority = directories := by
  rw [add, tryAdd_of_locked locked]

theorem lock_of_locked {directories : Directories} (locked : directories.locked = true) :
    directories.lock = directories := by
  cases directories
  cases locked
  rfl

/-- No call changes directories that are locked. -/
theorem call_of_locked {directories : Directories} (locked : directories.locked = true)
    (next : Call) : (directories.call next).2 = directories := by
  cases next with
  | add path priority => exact add_of_locked locked path priority
  | tryAdd path priority => rw [call, tryAdd_of_locked locked]
  | resolve present name => exact lock_of_locked locked
  | list => rfl

theorem after_of_locked {directories : Directories} (locked : directories.locked = true)
    (calls : List Call) : directories.after calls = directories := by
  induction calls with
  | nil => rfl
  | cons next calls ih => rw [after_cons, call_of_locked locked, ih]

/-- Behind a name that was resolved the directories are those that it locked. -/
theorem after_resolve (directories : Directories) (present : String → Bool) (name : String)
    (later : List Call) :
    directories.after (.resolve present name :: later) = directories.lock :=
  after_of_locked rfl later

/-! ## Whole histories -/

theorem tracks_new (root extension : String) :
    Tracks [] ((new root).withExtension extension) :=
  ⟨rfl, rfl, List.nodup_nil, fun _ => Iff.rfl, fun _ member => nomatch member⟩

/-- Only calls made before the first name was resolved count for the search path. -/
theorem inSearchOrder_after (directories : Directories) (calls : List Call) :
    (directories.after calls).inSearchOrder =
      (directories.after (beforeResolve calls)).inSearchOrder := by
  induction calls generalizing directories with
  | nil => rfl
  | cons next calls ih =>
    cases next with
    | resolve present name => rw [after_resolve, inSearchOrder_lock]; rfl
    | add path priority => exact ih (directories.add path priority)
    | tryAdd path priority => exact ih (directories.call (.tryAdd path priority)).2
    | list => exact ih directories

/-- The search path lists the registrations that were made before it was locked. -/
theorem lists_after {directories : Directories} (tracks : Tracks [] directories)
    (calls : List Call) :
    Lists (registrations calls) (directories.after calls).inSearchOrder := by
  have unresolved : ∀ next ∈ beforeResolve calls, next.isResolve = false := fun next member => by
    simpa using List.mem_takeWhile_imp member
  rw [inSearchOrder_after]
  exact (tracks.after unresolved).lists

/-- **The search path follows the registrations.** Whatever is asked of the directories of a
project, a list of them is the search path for the registrations that were made before the first
name was resolved. From then on the list stays as it was, `add` does nothing, and `tryAdd` fails
with the normal form of its path. -/
theorem search_path_follows_history (root extension : String) :
    let start := (new root).withExtension extension
    (∀ calls, ∃ listed, (start.after calls).call .list = (.listed listed, start.after calls) ∧
      Lists (registrations calls) listed) ∧
    ∀ before present name later,
      let locked := start.after (before ++ .resolve present name :: later)
      (locked.call .list).1 = ((start.after before).call .list).1 ∧
      ∀ path priority,
        locked.call (.add path priority) = (.done, locked) ∧
        locked.call (.tryAdd path priority) =
          (.tried (.error ⟨Path.normalize path⟩), locked) := by
  intro start
  refine ⟨fun calls => ⟨_, rfl, lists_after (tracks_new root extension) calls⟩, ?_⟩
  intro before present name later
  rw [after_append, after_resolve]
  refine ⟨rfl, fun path priority => ⟨?_, ?_⟩⟩
  · rw [call, add_of_locked rfl]
  · rw [call, tryAdd_of_locked rfl]

end Templating.Directories
