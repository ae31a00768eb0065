import Templating.Markup.Pass.AttributeOrder
import Templating.Proofs.Markup.RunEdit
import Templating.Proofs.Markup.Visits

/-!
# The pass that orders attributes

A run is put together anew from its attributes in their order, each behind a new separator, and from
what is neither an attribute nor blank text.

* `Tree.sortedAttributes_perm`: ordering loses and invents no attribute.
* `Tree.effect_ordered`: putting the run together in order is within what a visit may do.
* `Tree.replaceAttributeChildren_ordered`: the ordered run as a tree.
* `attributeSort_local`.
-/

namespace Templating.Markup

/-! ## The items of an ordered run -/

/-- Each item behind a gap; the gaps are the slots from `next` on. -/
def gapped (next : NodeId) : List NodeId → List NodeId
  | [] => []
  | item :: rest => next :: item :: gapped (next + 1) rest

theorem mem_gapped {next id : Nat} {items : List Nat} :
    id ∈ gapped next items ↔ id ∈ items ∨ (next ≤ id ∧ id < next + items.length) := by
  induction items generalizing next with
  | nil =>
    simp only [gapped, List.length_nil, List.not_mem_nil, false_or, false_iff]
    omega
  | cons item rest ih =>
    rw [gapped, List.mem_cons, List.mem_cons, ih, List.mem_cons, List.length_cons]
    constructor
    · rintro (rfl | rfl | member | bounds)
      · exact .inr (by omega)
      · exact .inl (.inl rfl)
      · exact .inl (.inr member)
      · exact .inr (by omega)
    · rintro ((rfl | member) | bounds)
      · exact .inr (.inl rfl)
      · exact .inr (.inr (.inl member))
      · by_cases first : id = next
        · exact .inl first
        · exact .inr (.inr (.inr (by omega)))

theorem nodup_gapped {next : Nat} {items : List Nat} (distinct : items.Nodup)
    (old : ∀ item ∈ items, item < next) : (gapped next items).Nodup := by
  induction items generalizing next with
  | nil => exact List.nodup_nil
  | cons item rest ih =>
    have before := old item List.mem_cons_self
    have older : ∀ other ∈ rest, other < next := fun other member =>
      old other (List.mem_cons_of_mem _ member)
    have rest' : (gapped (next + 1) rest).Nodup :=
      ih (List.nodup_cons.mp distinct).2 fun other member => Nat.lt_succ_of_lt (older other member)
    refine List.nodup_cons.mpr ⟨?_, List.nodup_cons.mpr ⟨?_, rest'⟩⟩
    · rw [List.mem_cons, mem_gapped]
      rintro (rfl | member | ⟨beyond, -⟩)
      · exact absurd before (Nat.lt_irrefl _)
      · exact absurd (older _ member) (Nat.lt_irrefl _)
      · exact absurd beyond (Nat.not_succ_le_self _)
    · rw [mem_gapped]
      rintro (member | ⟨beyond, -⟩)
      · exact (List.nodup_cons.mp distinct).1 member
      · exact absurd (Nat.lt_of_lt_of_le before (Nat.le_of_succ_le beyond)) (Nat.lt_irrefl _)

/-- A test that no gap passes picks from the items alone. -/
theorem filter_gapped {test : Nat → Bool} {next : Nat} {items : List Nat}
    (gaps : ∀ gap, next ≤ gap → gap < next + items.length → test gap = false) :
    (gapped next items).filter test = items.filter test := by
  induction items generalizing next with
  | nil => rfl
  | cons item rest ih =>
    rw [List.length_cons] at gaps
    have first := gaps next (Nat.le_refl _) (by omega)
    have others : (gapped (next + 1) rest).filter test = rest.filter test :=
      ih fun gap beyond bounded => gaps gap (Nat.le_of_succ_le beyond) (by omega)
    rw [gapped, List.filter_cons_of_neg (Bool.eq_false_iff.mp first), List.filter_cons,
      List.filter_cons, others]

namespace Tree

variable {tree : Tree}

/-- The ranked nodes of a list are its attributes. -/
theorem map_id_filterMap_rankedAttribute? (rank : Rank) (items : List NodeId) :
    (items.filterMap (tree.rankedAttribute? rank)).map RankedAttribute.id =
      items.filter tree.isAttribute := by
  rw [List.map_filterMap, ← List.filterMap_eq_filter]
  refine List.filterMap_congr fun item _ => ?_
  cases known : tree.kind? item with
  | none => simp [rankedAttribute?, isAttribute, known, Option.guard]
  | some kind =>
    cases kind <;> simp [rankedAttribute?, isAttribute, known, NodeKind.shape, Option.guard]

/-- **Ordering** loses and invents no attribute. -/
theorem sortedAttributes_perm (tree : Tree) (rank : Rank) (element : NodeId) :
    (tree.sortedAttributes rank element).Perm (tree.runAttributes element) := by
  rw [runAttributes, ← map_id_filterMap_rankedAttribute? rank]
  exact (List.mergeSort_perm _ _).map _

end Tree

/-! ## The edit -/

/-- The separators take the next slots, in front of what they separate. -/
theorem separated_eq (sorted : List NodeId) (tree : Tree) :
    separated sorted tree = .ok (gapped tree.size sorted)
      (tree.grow (List.replicate sorted.length (.text separator))) := by
  induction sorted generalizing tree with
  | nil => simp [separated, gapped, Tree.grow, pure, EStateM.pure]
  | cons item rest ih =>
    have made : (Edit.newText separator : Edit NodeId) tree =
      .ok tree.size (tree.push (.text separator)) := rfl
    rw [separated, Edit.bind_of_ok made, Edit.bind_of_ok (ih _), Tree.grow_push, Tree.size_push]
    rfl

namespace Tree

variable {tree : Tree} {id run : NodeId} {rank : Rank}

/-- The items of the run in canonical order. -/
def orderedItems (tree : Tree) (rank : Rank) (id : NodeId) : List NodeId :=
  gapped tree.size (tree.sortedAttributes rank id) ++ tree.otherRunChildren id

/-- The tree with the run of an element in canonical order. -/
def ordered (tree : Tree) (rank : Rank) (id run : NodeId) : Tree :=
  tree.rerun run (List.replicate (tree.sortedAttributes rank id).length (.text separator))
    (tree.orderedItems rank id)

/-- An item of the ordered run is an old one or a new separator. -/
theorem mem_of_mem_orderedItems {item : NodeId}
    (member : item ∈ tree.orderedItems rank id) : item ∈ tree.attributeChildren id ∨
      (tree.size ≤ item ∧ item < tree.size + (tree.sortedAttributes rank id).length) := by
  rcases List.mem_append.mp member with inFront | other
  · refine (mem_gapped.mp inFront).imp_left fun sorted => ?_
    exact (List.mem_filter.mp ((tree.sortedAttributes_perm rank id).subset sorted)).1
  · exact .inl (List.mem_filter.mp other).1

section

variable (wf : tree.WellFormed) (reach : tree.Reachable id)
  (element : tree.attributeRun? id = some run) (rank : Rank)

include wf reach

theorem lt_size_of_mem_sortedAttributes {item : NodeId}
    (member : item ∈ tree.sortedAttributes rank id) : item < tree.size := by
  have inRun := (tree.sortedAttributes_perm rank id).subset member
  exact wf.lt_size_of_mem_attributeChildren reach (List.mem_filter.mp inRun).1

include element

theorem touched_ordered : tree.Touched id (tree.ordered rank id run) := by
  have children : tree.attributeChildren id = tree.content run :=
    (wf.attributeChildren_eq reach element).trans (wf.walkChildren_attributeRun reach element)
  have distinct : (tree.attributeChildren id).Nodup := by
    rw [wf.attributeChildren_eq reach element]
    exact wf.nodup_walkChildren (reach.child (holds_attributeRun? element).2)
  refine touched_rerun wf reach element ?_ ?_ ?_ ?_
  · intro kind member
    exact .inl ((List.eq_of_mem_replicate member) ▸ rfl)
  · have sorted : (tree.sortedAttributes rank id).Nodup :=
      (tree.sortedAttributes_perm rank id).nodup_iff.mpr (distinct.filter _)
    have front := nodup_gapped sorted fun item member =>
      lt_size_of_mem_sortedAttributes wf reach rank member
    refine List.nodup_append.mpr ⟨front, distinct.filter _, ?_⟩
    rintro item inFront other isOther rfl
    obtain ⟨child, noAttr⟩ := List.mem_filter.mp isOther
    rcases mem_gapped.mp inFront with sorted | ⟨beyond, -⟩
    · have isAttr := (List.mem_filter.mp ((tree.sortedAttributes_perm rank id).subset sorted)).2
      rw [isOtherRunChild_of_isAttribute isAttr] at noAttr
      cases noAttr
    · exact absurd (wf.lt_size_of_mem_attributeChildren reach child) (Nat.not_lt_of_le beyond)
  · intro item member
    rw [List.length_replicate, ← children]
    exact mem_of_mem_orderedItems member
  · intro item member dense
    rw [← children] at member
    cases isAttr : tree.isAttribute item with
    | true =>
      have listed : item ∈ tree.runAttributes id := List.mem_filter.mpr ⟨member, isAttr⟩
      refine List.mem_append_left _ (mem_gapped.mpr (.inl ?_))
      exact (tree.sortedAttributes_perm rank id).symm.subset listed
    | false =>
      have other := isOtherRunChild_eq_true isAttr dense
      exact List.mem_append_right _ (List.mem_filter.mpr ⟨member, other⟩)

/-- What stands in front of an attribute of the ordered run. -/
theorem kind?_ordered_gap (gap : Nat) (beyond : tree.size ≤ gap)
    (bounded : gap < tree.size + (tree.sortedAttributes rank id).length) :
    (tree.ordered rank id run).kind? gap = some (.text separator) := by
  obtain ⟨node, slot, -⟩ := exists_of_kind? (wf.kind?_attributeRun reach element)
  have index : gap - tree.size < (tree.sortedAttributes rank id).length :=
    Nat.sub_lt_left_of_lt_add beyond bounded
  have known := kind?_rerun_add
    (List.replicate (tree.sortedAttributes rank id).length (.text separator))
    (tree.orderedItems rank id) (lt_size slot) (gap - tree.size)
  rwa [Nat.add_sub_cancel' beyond, List.getElem?_replicate_of_lt index] at known

theorem runKept_ordered : tree.RunKept (tree.ordered rank id run) id [] none := by
  have touched := touched_ordered wf reach element rank
  have perm := tree.sortedAttributes_perm rank id
  have gaps := kind?_ordered_gap wf reach element rank
  have isAttr : ∀ item ∈ tree.sortedAttributes rank id,
      (tree.ordered rank id run).isAttribute item = true := by
    intro item member
    rw [touched.isAttribute_eq (lt_size_of_mem_sortedAttributes wf reach rank member)]
    exact (List.mem_filter.mp (perm.subset member)).2
  have isOther : ∀ item ∈ tree.otherRunChildren id,
      (tree.ordered rank id run).isOtherRunChild item = true := by
    intro item member
    obtain ⟨child, other⟩ := List.mem_filter.mp member
    rw [touched.isOtherRunChild_eq (wf.lt_size_of_mem_attributeChildren reach child)]
    exact other
  refine runKept_of_rerun [] wf reach element rfl ?_ (fun _ member => nomatch member)
    .slnil ?_
  · rw [orderedItems, List.filter_append, filter_gapped fun gap beyond bounded =>
      isAttribute_of_text (gaps gap beyond bounded), List.filter_eq_self.mpr isAttr]
    refine (List.Perm.of_eq ?_).trans (perm.append_right [])
    refine congrArg (_ ++ ·) (List.filter_eq_nil_iff.mpr fun item member isAttr => ?_)
    have other := isOther item member
    rw [isOtherRunChild_of_isAttribute isAttr] at other
    cases other
  · rw [orderedItems, List.filter_append, filter_gapped fun gap beyond bounded =>
      isOtherRunChild_of_separator (gaps gap beyond bounded), List.filter_eq_self.mpr isOther]
    refine congrArg (· ++ _) (List.filter_eq_nil_iff.mpr fun item member other => ?_)
    rw [isOtherRunChild_of_isAttribute (isAttr item member)] at other
    cases other

/-- **Ordering a run** keeps its attributes and the rest of what stands in it. -/
theorem effect_ordered : tree.Effect id [] none (tree.ordered rank id run) where
  toTouched := touched_ordered wf reach element rank
  growth := by
    have count := (tree.sortedAttributes_perm rank id).length_eq
    have fewer : (tree.runAttributes id).length ≤ (tree.attributeChildren id).length :=
      List.length_filter_le ..
    rw [wf.attributeChildren_eq reach element] at fewer
    rw [ordered, size_rerun, List.length_replicate, runSlots_of_attributeRun? element,
      List.length_cons]
    omega
  runKept := by
    intro run' element'
    obtain rfl : run = run' := Option.some.inj (element.symm.trans element')
    exact runKept_ordered wf reach element rank

/-- Replacing the run by its ordered items. -/
theorem replaceAttributeChildren_ordered :
    Edit.replaceAttributeChildren id (tree.orderedItems rank id)
      (tree.grow (List.replicate (tree.sortedAttributes rank id).length (.text separator))) =
        .ok () (tree.ordered rank id run) := by
  have runReach := reach.child (holds_attributeRun? element).2
  obtain ⟨node, slot, -⟩ := exists_of_kind? (wf.kind?_attributeRun reach element)
  have children := wf.attributeChildren_eq reach element
  refine Edit.replaceAttributeChildren_grow element (wf.kind?_attributeRun reach element) ?_ ?_ ?_
  · intro item member
    rw [List.length_replicate]
    refine (mem_of_mem_orderedItems member).imp_left fun old => ?_
    rw [children] at old
    exact wf.parent?_of_holds runReach old
  · intro item beyond bounded
    rw [List.length_replicate] at bounded
    exact List.mem_append_left _ (mem_gapped.mpr (.inr ⟨beyond, bounded⟩))
  · intro member
    rcases mem_of_mem_orderedItems member with old | ⟨beyond, -⟩
    · rw [children] at old
      exact wf.not_holds_run reach element reach element old
    · exact absurd (lt_size slot) (Nat.not_lt_of_le beyond)

end

end Tree

theorem attributeSort_local (rank : Rank) : (attributeSort rank).Local .none := by
  refine .of_edit fun tree id wf visible => ?_
  have reach := visible.reachable
  cases isElement : tree.elementName? id with
  | none =>
    refine ⟨tree, ?_, .unchanged wf reach _ _⟩
    rw [sortRun, Edit.get_bind, isElement]
    rfl
  | some name =>
    obtain ⟨run, element⟩ := Tree.exists_attributeRun? isElement
    cases done : (tree.sortedAttributes rank id).isEmpty || tree.isLaidOut
        (tree.sortedAttributes rank id) (tree.otherRunChildren id) (tree.attributeChildren id) with
    | true =>
      refine ⟨tree, ?_, .unchanged wf reach _ _⟩
      rw [sortRun, Edit.get_bind, isElement]
      simp only [done]
      rfl
    | false =>
      refine ⟨_, ?_, Tree.effect_ordered wf reach element rank⟩
      rw [sortRun, Edit.get_bind, isElement]
      simp only [done]
      exact (Edit.bind_of_ok (separated_eq _ _)).trans
        (Tree.replaceAttributeChildren_ordered wf reach element rank)

end Templating.Markup
