import Templating.Proofs.Markup.Pass.Amending

/-!
# Ordered runs without their slots

Ordering attributes makes of a run with an attribute what `arranged` makes of its kinds. The sort
is stable, so it sees of a run only the order of the attributes of each name: akin runs are
arranged in the same way.

* `eq_of_filters`: sorted lists are the same when they agree on each of some tests that tell
  apart what is not tied.
* `arranged_of_akin`: akin runs become the same.
* `attributeSort_reruns`: the pass arranges each run that it visits.
-/

namespace Templating.Markup

open Templating.Text

/-! ## Sorted lists -/

section

variable {α ι : Type} {le : α → α → Bool} {tests : ι → α → Bool}

/-- A list that agrees with another one on each of some tests has only items of that one, if each of
its own passes a test. -/
theorem subset_of_filters {left right : List α} (covered : ∀ a ∈ left, ∃ i, tests i a = true)
    (same : ∀ i, left.filter (tests i) = right.filter (tests i)) : left ⊆ right := by
  intro a member
  obtain ⟨i, passes⟩ := covered a member
  have picked : a ∈ left.filter (tests i) := List.mem_filter.mpr ⟨member, passes⟩
  rw [same] at picked
  exact (List.mem_filter.mp picked).1

/-- **Sorted lists** are the same when each test picks the same of them, items that are tied pass
the same tests and each item passes one. -/
theorem eq_of_filters {left right : List α} (sorted : left.Pairwise fun a b => le a b = true)
    (sorted' : right.Pairwise fun a b => le a b = true)
    (tied : ∀ a ∈ left, ∀ b ∈ left, le a b = true → le b a = true → ∀ i, tests i a = tests i b)
    (covered : ∀ a ∈ left, ∃ i, tests i a = true) (covered' : ∀ a ∈ right, ∃ i, tests i a = true)
    (same : ∀ i, left.filter (tests i) = right.filter (tests i)) : left = right := by
  induction left generalizing right with
  | nil =>
    exact (List.subset_nil.mp (subset_of_filters covered' fun i => (same i).symm)).symm
  | cons first rest ih =>
    have inRight := subset_of_filters covered same
    have inLeft := subset_of_filters covered' fun i => (same i).symm
    cases right with
    | nil => exact absurd (inRight List.mem_cons_self) List.not_mem_nil
    | cons first' rest' =>
      obtain ⟨ahead, ordered⟩ := List.pairwise_cons.mp sorted
      obtain ⟨ahead', ordered'⟩ := List.pairwise_cons.mp sorted'
      -- Each of the two stands in front of the other, so they are tied.
      have agree : ∀ i, tests i first = tests i first' := by
        rcases List.mem_cons.mp (inRight List.mem_cons_self) with rfl | later
        · exact fun _ => rfl
        · rcases List.mem_cons.mp (inLeft List.mem_cons_self) with rfl | later'
          · exact fun _ => rfl
          · exact tied first List.mem_cons_self first' (inLeft List.mem_cons_self)
              (ahead first' later') (ahead' first later)
      obtain ⟨i, passes⟩ := covered first List.mem_cons_self
      have heads := same i
      rw [List.filter_cons_of_pos passes, List.filter_cons_of_pos (agree i ▸ passes)] at heads
      obtain rfl := (List.cons.inj heads).1
      have tails : ∀ j, rest.filter (tests j) = rest'.filter (tests j) := by
        intro j
        have lists := same j
        rw [List.filter_cons, List.filter_cons] at lists
        split at lists
        · exact (List.cons.inj lists).2
        · exact lists
      have covers : ∀ a ∈ rest, ∃ i, tests i a = true :=
        fun a member => covered a (List.mem_cons_of_mem _ member)
      have covers' : ∀ a ∈ rest', ∃ i, tests i a = true :=
        fun a member => covered' a (List.mem_cons_of_mem _ member)
      have ties : ∀ a ∈ rest, ∀ b ∈ rest, le a b = true → le b a = true →
          ∀ i, tests i a = tests i b := fun a member b member' =>
        tied a (List.mem_cons_of_mem _ member) b (List.mem_cons_of_mem _ member')
      rw [ih ordered ordered' ties covers covers' tails]

end

/-! ## Arranged runs -/

namespace NodeKind

/-- The place of an attribute in the order. -/
def place (rank : Rank) : NodeKind → RankedAttribute
  | .attr name _ _ => ⟨rank name.source, name.source, 0⟩
  | _ => ⟨0, "", 0⟩

/-- Whether the first attribute may stand before the second. -/
def before (rank : Rank) (first second : NodeKind) : Bool :=
  (first.place rank).before (second.place rank)

variable (rank : Rank)

theorem before_trans (first second third : NodeKind) (left : first.before rank second = true)
    (right : second.before rank third = true) : first.before rank third = true :=
  RankedAttribute.before_trans _ _ _ left right

theorem before_total (first second : NodeKind) :
    (first.before rank second || second.before rank first) = true :=
  RankedAttribute.before_total _ _

/-- Attributes that may stand either way are spelled alike. -/
theorem isSpelled_of_tied {first second : NodeKind} (isAttr : first.isAttr = true)
    (isAttr' : second.isAttr = true) (left : first.before rank second = true)
    (right : second.before rank first = true) (name : String) :
    first.isSpelled name = second.isSpelled name := by
  obtain ⟨part, value, quote, rfl⟩ := isAttr_iff.mp isAttr
  obtain ⟨part', value', quote', rfl⟩ := isAttr_iff.mp isAttr'
  have source : part.source = part'.source := by
    rcases RankedAttribute.before_iff.mp left with less | ⟨same, order⟩
    · rcases RankedAttribute.before_iff.mp right with less' | ⟨same', -⟩
      · exact absurd less' (Nat.lt_asymm less)
      · exact absurd less (Nat.not_lt_of_le (Nat.le_of_eq same'))
    · rcases RankedAttribute.before_iff.mp right with less' | ⟨-, order'⟩
      · exact absurd less' (Nat.not_lt_of_le (Nat.le_of_eq same))
      · exact String.le_antisymm (String.not_lt.mp order) (String.not_lt.mp order')
  rw [isSpelled, isSpelled, source]

end NodeKind

/-- The attributes of a run in their order. -/
def sortedKinds (rank : Rank) (kinds : List NodeKind) : List NodeKind :=
  (kinds.filter NodeKind.isAttr).mergeSort (NodeKind.before rank)

/-- Each attribute behind a separator. -/
def spread (kinds : List NodeKind) : List NodeKind :=
  kinds.flatMap fun kind => [.text separator, kind]

/-- A run with an attribute in canonical order. -/
def arranged (rank : Rank) (kinds : List NodeKind) : List NodeKind :=
  if kinds.any NodeKind.isAttr then
    spread (sortedKinds rank kinds) ++ kinds.filter NodeKind.isOther
  else
    kinds

/-- Sorting sees of the attributes only the order of those of each name. -/
theorem sortedKinds_congr {left right : List NodeKind} (rank : Rank)
    (same : ∀ name,
      left.filter (NodeKind.isSpelled name) = right.filter (NodeKind.isSpelled name)) :
    sortedKinds rank left = sortedKinds rank right := by
  have isAttr {kinds : List NodeKind} {kind : NodeKind} (member : kind ∈ sortedKinds rank kinds) :
      kind.isAttr = true := (List.mem_filter.mp (List.mem_mergeSort.mp member)).2
  have covered {kinds : List NodeKind} {kind : NodeKind} (member : kind ∈ sortedKinds rank kinds) :
      ∃ name, kind.isSpelled name = true := by
    obtain ⟨part, value, quote, rfl⟩ := NodeKind.isAttr_iff.mp (isAttr member)
    exact ⟨part.source, sameName_refl part.source⟩
  have picked (kinds : List NodeKind) (name : String) :
      (kinds.filter NodeKind.isAttr).filter (NodeKind.isSpelled name) =
        kinds.filter (NodeKind.isSpelled name) := by
    rw [List.filter_filter]
    refine List.filter_congr fun kind _ => ?_
    cases spelled : kind.isSpelled name with
    | false => rfl
    | true => rw [NodeKind.isAttr_of_isSpelled spelled]; rfl
  have trans := NodeKind.before_trans rank
  have total := NodeKind.before_total rank
  refine eq_of_filters (List.pairwise_mergeSort trans total _)
    (List.pairwise_mergeSort trans total _)
    (fun first member second member' => NodeKind.isSpelled_of_tied rank (isAttr member)
      (isAttr member')) (fun _ => covered) (fun _ => covered) fun name => ?_
  rw [sortedKinds, sortedKinds, filter_mergeSort trans total, filter_mergeSort trans total, picked,
    picked, same]

/-- **Akin runs** are arranged in the same way. -/
theorem arranged_of_akin {left right : List NodeKind} (rank : Rank) (akin : Akin left right) :
    arranged rank left = arranged rank right := by
  cases some : left.any NodeKind.isAttr with
  | false => rw [akin.bare some]
  | true =>
    have some' : right.any NodeKind.isAttr = true := by
      obtain ⟨kind, member, isAttr⟩ := List.any_eq_true.mp some
      obtain ⟨part, value, quote, rfl⟩ := NodeKind.isAttr_iff.mp isAttr
      have inLeft : NodeKind.attr part value quote ∈
          left.filter (NodeKind.isSpelled part.source) :=
        List.mem_filter.mpr ⟨member, sameName_refl part.source⟩
      rw [akin.spelled] at inLeft
      exact List.any_eq_true.mpr ⟨_, (List.mem_filter.mp inLeft).1, rfl⟩
    rw [arranged, arranged, if_pos some, if_pos some', sortedKinds_congr rank akin.spelled,
      akin.others]

/-! ## The pass -/

namespace Tree

variable {tree : Tree} {rank : Rank} {id : NodeId}

/-- The kinds of the attributes in their order. -/
theorem filterMap_kind?_sortedAttributes (tree : Tree) (rank : Rank) (id : NodeId) :
    (tree.sortedAttributes rank id).filterMap tree.kind? =
      sortedKinds rank (tree.runKinds id) := by
  have ranked (item : NodeId) : (tree.rankedAttribute? rank item).map
      (fun ranked => (tree.kind? ranked.id).getD default) =
        (tree.kind? item).filter NodeKind.isAttr := by
    cases known : tree.kind? item with
    | none => simp [rankedAttribute?, known]
    | some kind =>
      cases kind with
      | attr =>
        simp only [rankedAttribute?, known, Option.map_some, Option.getD_some]
        rfl
      | _ =>
        simp only [rankedAttribute?, known]
        rfl
  have places : ∀ ranked ∈ tree.rankedRun rank id,
      tree.kind? ranked.id = some ((tree.kind? ranked.id).getD default) ∧
        ((tree.kind? ranked.id).getD default).place rank = { ranked with id := 0 } := by
    intro ranked member
    obtain ⟨item, -, isRanked⟩ := List.mem_filterMap.mp member
    obtain rfl := rankedAttribute?_id isRanked
    unfold rankedAttribute? at isRanked
    split at isRanked
    · rename_i known
      rw [known, ← Option.some.inj isRanked]
      exact ⟨rfl, rfl⟩
    · cases isRanked
  have kinds : (tree.rankedRun rank id).map (fun ranked => (tree.kind? ranked.id).getD default) =
      (tree.runKinds id).filter NodeKind.isAttr := by
    rw [rankedRun, List.map_filterMap, runKinds, List.filter_filterMap]
    exact List.filterMap_congr fun item _ => ranked item
  rw [sortedAttributes_eq, List.filterMap_map, sortedKinds, ← kinds, ← List.map_mergeSort,
    ← List.filterMap_eq_map]
  · refine List.filterMap_congr fun ranked member => ?_
    exact (places ranked (List.mem_mergeSort.mp member)).1
  · intro first member second member'
    rw [NodeKind.before, (places first member).2, (places second member').2]
    rfl

/-- The kinds of what is neither an attribute nor blank. -/
theorem filterMap_kind?_otherRunChildren (tree : Tree) (id : NodeId) :
    (tree.otherRunChildren id).filterMap tree.kind? =
      (tree.runKinds id).filter NodeKind.isOther := by
  rw [otherRunChildren, List.filterMap_filter, runKinds, List.filter_filterMap]
  refine List.filterMap_congr fun item _ => ?_
  rw [isOtherRunChild, isBlankText_eq_any]
  cases tree.kind? item with
  | none => split <;> rfl
  | some kind => rfl

/-- The kinds of a laid out run. -/
theorem filterMap_kind?_of_isLaidOut {sorted others run : List NodeId}
    (known : ∀ item ∈ sorted, ∃ kind, tree.kind? item = some kind)
    (laid : tree.isLaidOut sorted others run = true) :
    run.filterMap tree.kind? =
      spread (sorted.filterMap tree.kind?) ++ others.filterMap tree.kind? := by
  induction sorted generalizing run with
  | nil => rw [eq_of_beq laid]; rfl
  | cons first sorted ih =>
    obtain ⟨gap, rest, rfl, isGap, laid⟩ := exists_of_isLaidOut laid
    obtain ⟨kind, isKind⟩ := known first List.mem_cons_self
    rw [List.filterMap_cons_some isGap, List.filterMap_cons_some isKind,
      List.filterMap_cons_some isKind, ih (fun item member => known item
        (List.mem_cons_of_mem _ member)) laid]
    rfl

theorem LaidOut.runKinds_eq (laid : tree.LaidOut rank id) : tree.runKinds id =
    spread ((tree.sortedAttributes rank id).filterMap tree.kind?) ++
      (tree.otherRunChildren id).filterMap tree.kind? := by
  refine filterMap_kind?_of_isLaidOut (fun item member => ?_) laid
  obtain ⟨kind, known, -⟩ := (Option.any_eq_true ..).mp (isAttribute_of_mem_sortedAttributes member)
  exact ⟨kind, known⟩

/-- A run has no attribute when there is none to be ordered. -/
theorem any_isAttr_eq_false_iff (wf : tree.WellFormed) (reach : tree.Reachable id) (rank : Rank) :
    (tree.runKinds id).any NodeKind.isAttr = false ↔ tree.sortedAttributes rank id = [] := by
  have listed : (tree.runKinds id).any NodeKind.isAttr = false ↔ tree.runAttributes id = [] := by
    rw [← any_attributeChildren wf reach, List.any_eq_false, runAttributes, List.filter_eq_nil_iff]
    rfl
  exact listed.trans sortedAttributes_eq_nil_iff.symm

/-- What a laid out run with an attribute has for its kinds. -/
theorem LaidOut.runKinds_eq_arranged (laid : tree.LaidOut rank id) (wf : tree.WellFormed)
    (reach : tree.Reachable id) (some : tree.sortedAttributes rank id ≠ []) :
    tree.runKinds id = arranged rank (tree.runKinds id) := by
  have isAttr : (tree.runKinds id).any NodeKind.isAttr = true := by
    rw [← Bool.not_eq_false, any_isAttr_eq_false_iff wf reach rank]
    exact some
  rw [arranged, if_pos isAttr, ← filterMap_kind?_sortedAttributes,
    ← filterMap_kind?_otherRunChildren]
  exact laid.runKinds_eq

/-- Putting a run in order keeps the kinds of its old items. -/
theorem kind?_ordered_of_mem {run item : NodeId} (wf : tree.WellFormed) (reach : tree.Reachable id)
    (element : tree.attributeRun? id = some run) (member : item ∈ tree.attributeChildren id) :
    (tree.ordered rank id run).kind? item = tree.kind? item := by
  have inside := wf.lt_size_of_mem_attributeChildren reach member
  have notRun := ne_of_mem_attributeChildren wf reach element member
  rw [ordered, kind?, kind?, get?_rerun_of_lt _ _ inside notRun]

end Tree

/-- **Ordering the attributes of an element** arranges the kinds of its run. -/
theorem runKinds_sortRun {tree after : Tree} {rank : Rank} {id : NodeId} (wf : tree.WellFormed)
    (reach : tree.Reachable id) (outcome : sortRun rank id tree = .ok () after) :
    after.runKinds id = arranged rank (tree.runKinds id) := by
  by_cases none : tree.sortedAttributes rank id = []
  · rw [sortRun_eq_self (.inl none)] at outcome
    cases outcome
    have noAttr := (Tree.any_isAttr_eq_false_iff wf reach rank).mpr none
    rw [arranged, if_neg (Bool.eq_false_iff.mp noAttr)]
  · rcases sortRun_cases wf reach outcome with ⟨rfl, none' | laid⟩ | ⟨run, element, rfl⟩
    · exact absurd none' none
    · exact laid.runKinds_eq_arranged wf reach none
    · obtain ⟨laid, sorted⟩ := Tree.laidOut_ordered wf reach element rank
      have others := (Tree.runKept_ordered wf reach element rank).others
      have isAttr : (tree.runKinds id).any NodeKind.isAttr = true := by
        rw [← Bool.not_eq_false, Tree.any_isAttr_eq_false_iff wf reach rank]
        exact none
      have sortedKinds_eq : (tree.sortedAttributes rank id).filterMap
          (tree.ordered rank id run).kind? = sortedKinds rank (tree.runKinds id) := by
        rw [← Tree.filterMap_kind?_sortedAttributes]
        refine List.filterMap_congr fun item member => Tree.kind?_ordered_of_mem wf reach element ?_
        have listed := (tree.sortedAttributes_perm rank id).subset member
        exact (List.mem_filter.mp listed).1
      have otherKinds_eq : (tree.otherRunChildren id).filterMap
          (tree.ordered rank id run).kind? = (tree.runKinds id).filter NodeKind.isOther := by
        rw [← Tree.filterMap_kind?_otherRunChildren]
        exact List.filterMap_congr fun item member =>
          Tree.kind?_ordered_of_mem wf reach element (List.mem_filter.mp member).1
      rw [laid.runKinds_eq, sorted, others, sortedKinds_eq, otherKinds_eq, arranged, if_pos isAttr]

/-- **Ordering attributes** arranges each visited run. -/
theorem attributeSort_reruns (rank : Rank) (start : Tree) :
    (attributeSort rank).Reruns start fun _ => arranged rank where
  idle := by
    intro before after id descent noElement outcome
    have edited := (Pass.visit_ofEdit.mp outcome).2
    rw [sortRun_eq_self (.inl (Tree.sortedAttributes_eq_nil noElement rank))] at edited
    cases edited
    rfl
  run := fun _ wf visible _ _ outcome =>
    runKinds_sortRun wf visible.reachable (Pass.visit_ofEdit.mp outcome).2

end Templating.Markup
