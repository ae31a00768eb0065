import Templating.Proofs.Directories.Addition
import Templating.Proofs.Directories.Defaults

/-!
# Directories of the highest priority

The highest priority is a number like those that are given explicitly, the greatest that there is.
So a directory that asks for it is searched before every directory of a lower number, but of two
that have this number the one that was registered last comes first, whether or not it asked for the
highest priority by name.

* `Lists.listedBefore_iff`: which of two directories is listed first.
* `RegisteredLast.unique`: a path has one last registration.
* `maximum_first` compares directories of the highest priority with explicit ones.
-/

namespace Templating.Directories

/-! ## Which of two directories comes first -/

/-- The first path is listed ahead of the second. -/
def ListedBefore (listed : List Directory) (first second : String) : Prop :=
  [first, second].Sublist (listed.map Directory.path)

/-- Two different members of a list stand in it one way or the other. -/
theorem sublist_pair_or {α : Type} {items : List α} {first second : α} (member : first ∈ items)
    (member' : second ∈ items) (differs : first ≠ second) :
    [first, second].Sublist items ∨ [second, first].Sublist items := by
  let Either (left right : α) := [left, right].Sublist items ∨ [right, left].Sublist items
  have pairs : items.Pairwise Either := List.pairwise_iff_forall_sublist.mpr .inl
  have : Std.Symm Either := ⟨fun _ _ => Or.symm⟩
  exact pairs.forall member member' differs

namespace Lists

variable {history : List Registration} {listed : List Directory} {first second : Directory}

theorem eq_of_path (lists : Lists history listed) (member : first ∈ listed)
    (member' : second ∈ listed) (same : first.path = second.path) : first = second :=
  List.inj_on_of_nodup_map lists.nodup member member' same

/-- What comes first has the higher number, or the same one and the more recent registration. -/
theorem of_listedBefore (lists : Lists history listed) (member : first ∈ listed)
    (member' : second ∈ listed) (ahead : ListedBefore listed first.path second.path) :
    second.priority < first.priority ∨
      (first.priority = second.priority ∧ MoreRecent history first.path second.path) := by
  obtain ⟨pair, part, paths⟩ := List.sublist_map_iff.mp ahead
  obtain ⟨left, rest, rfl, isLeft, others⟩ := List.map_eq_cons_iff.mp paths.symm
  obtain ⟨right, rest, rfl, isRight, empty⟩ := List.map_eq_cons_iff.mp others
  obtain rfl := List.map_eq_nil_iff.mp empty
  obtain rfl : left = first :=
    lists.eq_of_path (part.subset List.mem_cons_self) member isLeft
  obtain rfl : right = second :=
    lists.eq_of_path (part.subset (List.mem_cons_of_mem _ List.mem_cons_self)) member' isRight
  exact List.pairwise_iff_forall_sublist.mp lists.ordered part

/-- **Of two directories** the one with the higher number is listed first, and of equal ones the one
that was registered since the other was. -/
theorem listedBefore_iff (lists : Lists history listed) (member : first ∈ listed)
    (member' : second ∈ listed) (differs : first.path ≠ second.path) :
    ListedBefore listed first.path second.path ↔ second.priority < first.priority ∨
      (first.priority = second.priority ∧ MoreRecent history first.path second.path) := by
  refine ⟨lists.of_listedBefore member member', fun order => ?_⟩
  have inside := List.mem_map_of_mem (f := Directory.path) member
  have inside' := List.mem_map_of_mem (f := Directory.path) member'
  refine (sublist_pair_or inside inside' differs).resolve_right fun behind => ?_
  -- Listed the other way round, the second would have to be the higher or more recent one.
  rcases lists.of_listedBefore member' member behind with lower | ⟨same, recent⟩
  · rcases order with higher | ⟨same, -⟩
    · exact Int64.lt_asymm lower higher
    · exact Int64.lt_irrefl (same ▸ lower)
  · rcases order with higher | ⟨-, recent'⟩
    · exact Int64.lt_irrefl (same ▸ higher)
    · exact recent.asymm recent'

end Lists

/-! ## Last registrations -/

section

variable {history before before' : List Registration} {registration registration' : Registration}

theorem RegisteredLast.length_le (last : RegisteredLast history before registration)
    (last' : RegisteredLast history before' registration')
    (same : registration.path = registration'.path) : before.length ≤ before'.length := by
  obtain ⟨rest, rfl, -⟩ := last
  obtain ⟨rest', whole, absent⟩ := last'
  refine Nat.le_of_not_lt fun earlier => absent ?_
  have later : registration ∈ (before' ++ registration' :: rest').drop (before'.length + 1) := by
    rw [← whole, List.drop_append_of_le_length earlier]
    exact List.mem_append_right _ List.mem_cons_self
  rw [← List.singleton_append, ← List.append_assoc,
    List.drop_left' (by rw [List.length_append, List.length_singleton])] at later
  exact same ▸ List.mem_map_of_mem later

/-- **A path has one last registration.** -/
theorem RegisteredLast.unique (last : RegisteredLast history before registration)
    (last' : RegisteredLast history before' registration')
    (same : registration.path = registration'.path) : registration = registration' := by
  have length := Nat.le_antisymm (last.length_le last' same) (last'.length_le last same.symm)
  obtain ⟨rest, rfl, -⟩ := last
  obtain ⟨rest', whole, -⟩ := last'
  exact (List.cons.inj (List.append_inj_right whole length)).1

end

/-- The last registration of the path asked for this priority. -/
def AskedLast (history : List Registration) (path : String) (priority : Priority) : Prop :=
  ∃ before, RegisteredLast history before ⟨path, priority⟩

/-- A path that is registered is listed with the number of the priority that it asked for last. -/
theorem Lists.exists_asked {history : List Registration} {listed : List Directory} {path : String}
    {priority : Priority} (lists : Lists history listed) (asked : AskedLast history path priority) :
    ∃ directory ∈ listed, directory.path = path ∧
      ∃ count, directory.priority = priority.value count := by
  obtain ⟨before, last⟩ := asked
  have registered : path ∈ registeredPaths history := by
    obtain ⟨rest, rfl, -⟩ := last
    exact List.mem_map_of_mem (List.mem_append_right _ List.mem_cons_self)
  obtain ⟨directory, member, rfl⟩ := List.mem_map.mp ((lists.registered path).mpr registered)
  obtain ⟨before', priority', last', number⟩ := lists.priority directory member
  obtain rfl : priority = priority' := congrArg Registration.priority (last.unique last' rfl)
  exact ⟨directory, member, rfl, _, effectivePriority_iff.mp number⟩

/-! ## The highest priority -/

/-- **The highest priority comes first**, except behind its own number. Whatever is asked of
the directories of a project, take one whose last registration asked for the highest priority
and one whose last registration gave a number. The first of them is listed ahead of the
second just when this number is lower than the greatest one, or when it was itself registered
since the second was. -/
theorem maximum_first (root extension : String) (calls : List Call) :
    let registered := ((new root).withExtension extension).after calls
    ∃ listed, registered.call .list = (.listed listed, registered) ∧
      ∀ highest other value, AskedLast (registrations calls) highest .maximum →
        AskedLast (registrations calls) other (.explicit value) →
        (ListedBefore listed highest other ↔
          value < Int64.maxValue ∨ MoreRecent (registrations calls) highest other) := by
  intro registered
  have lists := lists_after (tracks_new root extension) calls
  refine ⟨_, rfl, fun highest other value asked asked' => ?_⟩
  have differs : highest ≠ other := by
    rintro rfl
    obtain ⟨before, last⟩ := asked
    obtain ⟨before', last'⟩ := asked'
    cases last.unique last' rfl
  obtain ⟨first, member, rfl, _, number⟩ := lists.exists_asked asked
  obtain ⟨second, member', rfl, _, number'⟩ := lists.exists_asked asked'
  rw [lists.listedBefore_iff member member' differs, number, number', Priority.value,
    Priority.value]
  constructor
  · exact Or.imp_right And.right
  · rintro (lower | recent)
    · exact .inl lower
    · by_cases same : Int64.maxValue = value
      · exact .inr ⟨same, recent⟩
      · exact .inl (Int64.lt_of_le_of_ne (Int64.le_maxValue value) (Ne.symm same))

/-- The highest priority is kept through a registration of another path, and taken from one
that gives it up. -/
theorem maximum_first_regained :
    let calls := [Call.add "/top" .maximum, .add "/app" .maximum, .list,
      .tryAdd "/x/../app/" (.explicit 9)]
    let registered := ((new "/project").withExtension "tmpl").after calls
    AskedLast (registrations calls) "/top" .maximum ∧
      AskedLast (registrations calls) "/app" (.explicit 9) ∧
      ∃ listed, registered.call .list = (.listed listed, registered) ∧
        ListedBefore listed "/top" "/app" := by
  intro calls registered
  have history : registrations calls =
      [⟨"/top", .maximum⟩, ⟨"/app", .maximum⟩, ⟨"/app", .explicit 9⟩] := rfl
  have top : AskedLast (registrations calls) "/top" .maximum :=
    ⟨[], [⟨"/app", .maximum⟩, ⟨"/app", .explicit 9⟩], history, by decide⟩
  have app : AskedLast (registrations calls) "/app" (.explicit 9) :=
    ⟨[⟨"/top", .maximum⟩, ⟨"/app", .maximum⟩], [], history, by decide⟩
  obtain ⟨listed, answer, order⟩ := maximum_first "/project" "tmpl" calls
  have lower : (9 : Int64) < Int64.maxValue := by decide
  exact ⟨top, app, listed, answer, (order _ _ 9 top app).mpr (.inl lower)⟩

/-- The greatest number that is given explicitly overtakes an earlier request for the highest
priority. -/
theorem maximum_overtaken :
    let calls := [Call.add "/a" .maximum, .add "/b" (.explicit Int64.maxValue)]
    let registered := ((new "/project").withExtension "tmpl").after calls
    AskedLast (registrations calls) "/a" .maximum ∧
      AskedLast (registrations calls) "/b" (.explicit Int64.maxValue) ∧
      ∃ listed, registered.call .list = (.listed listed, registered) ∧
        listed.map Directory.path = ["/b", "/a"] ∧ ¬ ListedBefore listed "/a" "/b" := by
  intro calls registered
  have history : registrations calls = [⟨"/a", .maximum⟩, ⟨"/b", .explicit Int64.maxValue⟩] := rfl
  have paths : registered.inSearchOrder.map Directory.path = ["/b", "/a"] := by
    rw [inSearchOrder_of_unlocked rfl, mergeSort_eq_foldr before_trans before_total]
    decide
  refine ⟨⟨[], [_], history, by decide⟩, ⟨[_], [], history, by decide⟩, _, rfl, paths, ?_⟩
  rw [ListedBefore, paths]
  decide

end Templating.Directories
