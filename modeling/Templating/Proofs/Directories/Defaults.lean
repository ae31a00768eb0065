import Mathlib.Data.Finset.Card
import Templating.Proofs.Directories.History
import Templating.Proofs.Text.Words

/-!
# Directories in no particular priority

A directory that is registered in no particular priority gets the number of the other directories.
Numbers that were given before can be as high, and re-registering leaves gaps, but none is higher:
the paths registered until now are more than those registered until then.

* `MoreRecent.asymm`, `pairwise_moreRecent`: being more recent orders the paths, and the first
  appearances in the reversed history are in that order.
* `otherPaths_mono`: the numbers grow with the history.
* `Lists.moreRecent`: so the list is in the order of the last registrations.
* `later_defaults_first` says so for every sequence of registrations.
-/

namespace Templating.Directories

open Templating.Text

/-! ## The order of the last registrations -/

section

variable {history : List Registration} {first second : String}

theorem MoreRecent.asymm (left : MoreRecent history first second) :
    ¬ MoreRecent history second first := by
  rintro ⟨recent', suffix', inside', outside'⟩
  obtain ⟨recent, suffix, inside, outside⟩ := left
  rcases List.suffix_or_suffix_of_suffix suffix suffix' with part | part
  · exact outside' ((part.map Registration.path).subset inside)
  · exact outside ((part.map Registration.path).subset inside')

/-- What appears first from the end was registered since the other was. -/
theorem moreRecent_of_idxOf_lt
    (less : (registeredPaths history).reverse.idxOf first <
      (registeredPaths history).reverse.idxOf second)
    (known : first ∈ registeredPaths history) : MoreRecent history first second := by
  let count := (registeredPaths history).reverse.idxOf second
  have paths : registeredPaths (history.drop (history.length - count)) =
      ((registeredPaths history).reverse.take count).reverse := by
    rw [List.take_reverse, List.reverse_reverse, registeredPaths, registeredPaths, List.map_drop,
      List.length_map]
  refine ⟨history.drop (history.length - count), List.drop_suffix _ _, ?_, ?_⟩
  · rw [paths, List.mem_reverse, List.mem_take_iff_idxOf_lt (List.mem_reverse.mpr known)]
    exact less
  · rw [paths, List.mem_reverse]
    intro taken
    have inside := List.mem_of_mem_take taken
    exact Nat.lt_irrefl _ ((List.mem_take_iff_idxOf_lt inside).mp taken)

end

/-- The paths of a history, the one that was registered last in front. -/
theorem pairwise_moreRecent (history : List Registration) :
    (registeredPaths history).reverse.eraseDups.Pairwise (MoreRecent history) := by
  have ordered := (firstAppearances_eraseDups (registeredPaths history).reverse).ordered
  refine ordered.imp_of_mem fun {first second} member _ less => moreRecent_of_idxOf_lt less ?_
  exact List.mem_reverse.mp (List.mem_eraseDups.mp member)

/-! ## Counting the other directories -/

theorem otherPaths_eq (history : List Registration) (path : String) :
    otherPaths history path = ((registeredPaths history).toFinset.erase path).card := by
  have same : ((registeredPaths history).eraseDups.filter (· ≠ path)).toFinset =
      (registeredPaths history).toFinset.erase path := by
    ext other
    simp [List.mem_eraseDups, and_comm]
  rw [otherPaths, ← same, List.toFinset_card_of_nodup ((nodup_eraseDups _).filter _)]

theorem length_eraseDups_eq (history : List Registration) :
    (registeredPaths history).eraseDups.length = (registeredPaths history).toFinset.card := by
  rw [← List.toFinset_card_of_nodup (nodup_eraseDups _)]
  congr 1
  ext path
  rw [List.mem_toFinset, List.mem_toFinset, List.mem_eraseDups]

/-- At a later registration there are at least as many other paths. -/
theorem otherPaths_mono {history before before' : List Registration}
    {registration registration' : Registration} (last : RegisteredLast history before registration)
    (last' : RegisteredLast history before' registration')
    (earlier : before.length < before'.length) :
    otherPaths before registration.path ≤ otherPaths before' registration'.path := by
  obtain ⟨rest, rfl, -⟩ := last
  obtain ⟨rest', same, -⟩ := last'
  -- The earlier registration is among those made before the later one.
  have within : before ++ [registration] <+: before' := by
    have front : before ++ [registration] <+: before ++ registration :: rest :=
      ⟨rest, by rw [List.append_assoc, List.singleton_append]⟩
    refine List.prefix_of_prefix_length_le front ⟨_, same.symm⟩ ?_
    rw [List.length_append, List.length_singleton]
    exact earlier
  have subset :
      insert registration.path ((registeredPaths before).toFinset.erase registration.path) ⊆
        (registeredPaths before').toFinset := by
    intro path member
    refine List.mem_toFinset.mpr ((within.map Registration.path).subset ?_)
    rw [List.map_append, List.mem_append]
    rcases Finset.mem_insert.mp member with rfl | old
    · exact .inr List.mem_cons_self
    · exact .inl (List.mem_toFinset.mp (Finset.mem_of_mem_erase old))
  have size := Finset.card_le_card subset
  rw [Finset.card_insert_of_notMem (Finset.notMem_erase _ _), ← otherPaths_eq] at size
  have erased := Finset.pred_card_le_card_erase
    (s := (registeredPaths before').toFinset) (a := registration'.path)
  rw [otherPaths_eq before']
  omega

theorem otherPaths_lt {history before : List Registration} {registration : Registration}
    (last : RegisteredLast history before registration) :
    otherPaths before registration.path < (registeredPaths history).eraseDups.length := by
  obtain ⟨rest, rfl, -⟩ := last
  have here : registration.path ∈ (registeredPaths (before ++ registration :: rest)).toFinset := by
    rw [List.mem_toFinset, registeredPaths, List.map_append]
    exact List.mem_append_right _ List.mem_cons_self
  have subset : (registeredPaths before).toFinset ⊆
      (registeredPaths (before ++ registration :: rest)).toFinset := by
    intro path member
    rw [List.mem_toFinset, registeredPaths, List.map_append]
    exact List.mem_append_left _ (List.mem_toFinset.mp member)
  rw [otherPaths_eq, length_eraseDups_eq]
  exact Nat.lt_of_le_of_lt (Finset.card_le_card (Finset.erase_subset_erase _ subset))
    (Finset.card_erase_lt_of_mem here)

/-! ## Whole histories -/

namespace Lists

variable {history : List Registration} {listed : List Directory} (lists : Lists history listed)
  (inNone : ∀ registration ∈ history, registration.priority = .byCount)
  (fits : (registeredPaths history).eraseDups.length ≤ Nat.pow 2 63)

include lists inNone fits

/-- Without priorities each directory is more recent than those that are listed behind it. -/
theorem moreRecent :
    listed.Pairwise fun first second => MoreRecent history first.path second.path := by
  have pairs := (List.pairwise_map.mp lists.nodup).and lists.ordered
  refine (List.Pairwise.and_mem.mp pairs).imp ?_
  rintro first second ⟨member, member', differs, higher | ⟨-, recent⟩⟩
  · obtain ⟨before, priority, last, number⟩ := lists.priority first member
    obtain ⟨before', priority', last', number'⟩ := lists.priority second member'
    rcases Nat.lt_or_ge before.length before'.length with earlier | later
    · -- The second path would be the later one, so its number is not below the first one's.
      have counts := otherPaths_mono last last' earlier
      have isNone {before : List Registration} {registration : Registration}
          (last : RegisteredLast history before registration) :
          registration.priority = .byCount := by
        obtain ⟨rest, rfl, -⟩ := last
        exact inNone registration (List.mem_append_right _ List.mem_cons_self)
      have bound := Nat.lt_of_lt_of_le (otherPaths_lt last) fits
      have bound' := Nat.lt_of_lt_of_le (otherPaths_lt last') fits
      obtain rfl : priority = .byCount := isNone last
      obtain rfl : priority' = .byCount := isNone last'
      rw [effectivePriority_iff.mp number, effectivePriority_iff.mp number'] at higher
      have notHigher := (Int64.ofNat_le_iff_le bound bound').mpr counts
      exact absurd higher (Int64.not_lt.mpr notHigher)
    · exact last.moreRecent last' differs later
  · exact recent

theorem paths_eq : listed.map Directory.path = (registeredPaths history).reverse.eraseDups := by
  have same : (listed.map Directory.path).Perm (registeredPaths history).reverse.eraseDups := by
    refine (List.perm_ext_iff_of_nodup lists.nodup (nodup_eraseDups _)).mpr fun path => ?_
    rw [lists.registered, List.mem_eraseDups, List.mem_reverse]
  refine same.eq_of_pairwise (fun first second _ _ left right => absurd right left.asymm)
    (List.pairwise_map.mpr (lists.moreRecent inNone fits)) (pairwise_moreRecent history)

end Lists

/-- **Later registrations are searched first** when no priority is given: whatever paths are
registered, some of them any number of times, they are listed from the one that was registered last
to the one whose last registration is the oldest. The bound is how many directories a number can
count, and no memory holds as many. -/
theorem later_defaults_first (root extension : String) (paths : List String)
    (fits : (paths.map Path.normalize).eraseDups.length ≤ Nat.pow 2 63) :
    let start := (new root).withExtension extension
    let registered := start.after (paths.map fun path => .add path .byCount)
    ∃ listed, registered.call .list = (.listed listed, registered) ∧
      listed.map Directory.path = (paths.map Path.normalize).reverse.eraseDups := by
  intro start registered
  have history : registrations (paths.map fun path => .add path .byCount) =
      paths.map fun path => ⟨Path.normalize path, .byCount⟩ := by
    rw [registrations, beforeResolve, List.takeWhile_eq_self_iff.mpr, List.filterMap_map]
    · exact congrFun (List.filterMap_eq_map ..) paths
    · intro next member
      obtain ⟨path, -, rfl⟩ := List.mem_map.mp member
      rfl
  have lists := lists_after (tracks_new root extension) (paths.map fun path => .add path .byCount)
  rw [history] at lists
  have known : registeredPaths (paths.map fun path => ⟨Path.normalize path, .byCount⟩) =
      paths.map Path.normalize := List.map_map
  refine ⟨_, rfl, known ▸ lists.paths_eq (fun registration member => ?_) (known ▸ fits)⟩
  obtain ⟨path, -, rfl⟩ := List.mem_map.mp member
  rfl

/-- The first path is registered again in another spelling, and the second one behind it. -/
theorem later_defaults_first_again :
    let paths := ["a", "b", "c", "x/../a/", "b"]
    let registered :=
      ((new ".").withExtension "tmpl").after (paths.map fun path => .add path .byCount)
    (paths.map Path.normalize).eraseDups.length ≤ Nat.pow 2 63 ∧
      ∃ listed, registered.call .list = (.listed listed, registered) ∧
        listed.map Directory.path = ["b", "a", "c"] := by
  intro paths registered
  have fits : (paths.map Path.normalize).eraseDups.length ≤ Nat.pow 2 63 := by decide
  obtain ⟨listed, answer, order⟩ := later_defaults_first "." "tmpl" paths fits
  have reversed : (paths.map Path.normalize).reverse.eraseDups = ["b", "a", "c"] := by decide
  exact ⟨fits, listed, answer, order.trans reversed⟩

end Templating.Directories
