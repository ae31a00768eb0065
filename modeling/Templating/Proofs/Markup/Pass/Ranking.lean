import Templating.Proofs.Markup.Pass.Ordering
import Templating.Proofs.StableSort

/-!
# The order of attributes

Attributes are sorted by their ranks and then by their names. The sort is stable, so what a test
picks is sorted by itself, and the attribute that comes first among those of one name
(`Tree.front?`) does not depend on the others.

* `Tree.sortedAttributes_eq_foldr`: a form of the order that can be evaluated.
* `Tree.sortedAttributes_of_sorted`: attributes that stand in order are in order.
* `Tree.front?_congr`, `Tree.Retouched.front?_eq`: when the attribute in front stays.
-/

namespace Templating.Markup

open Templating.Text

/-! ## Order -/

namespace RankedAttribute

theorem before_iff {first second : RankedAttribute} : first.before second = true ↔
    first.rank < second.rank ∨ (first.rank = second.rank ∧ ¬ second.name < first.name) := by
  simp [before]

theorem before_trans (first second third : RankedAttribute) (left : first.before second = true)
    (right : second.before third = true) : first.before third = true := by
  rw [before_iff] at left right ⊢
  rcases left with less | ⟨same, order⟩
  · rcases right with less' | ⟨same', -⟩
    · exact .inl (Nat.lt_trans less less')
    · exact .inl (same' ▸ less)
  · rcases right with less' | ⟨same', order'⟩
    · exact .inl (same ▸ less')
    · rw [String.not_lt] at order order'
      exact .inr ⟨same.trans same', String.not_lt.mpr (String.le_trans order order')⟩

theorem before_total (first second : RankedAttribute) :
    (first.before second || second.before first) = true := by
  rw [Bool.or_eq_true, before_iff, before_iff]
  rcases Nat.lt_trichotomy first.rank second.rank with less | same | more
  · exact .inl (.inl less)
  · rcases String.le_total first.name second.name with order | order
    · exact .inl (.inr ⟨same, String.not_lt.mpr order⟩)
    · exact .inr (.inr ⟨same.symm, String.not_lt.mpr order⟩)
  · exact .inr (.inl more)

end RankedAttribute

namespace Tree

variable {tree : Tree} {rank : Rank} {id : NodeId}

/-- The attributes of an element with their ranks, as they are written. -/
def rankedRun (tree : Tree) (rank : Rank) (id : NodeId) : List RankedAttribute :=
  (tree.attributeChildren id).filterMap (tree.rankedAttribute? rank)

theorem sortedAttributes_eq (tree : Tree) (rank : Rank) (id : NodeId) :
    tree.sortedAttributes rank id =
      ((tree.rankedRun rank id).mergeSort RankedAttribute.before).map RankedAttribute.id := rfl

/-- A form of the order that can be evaluated. -/
theorem sortedAttributes_eq_foldr : sortedAttributes = fun tree rank id =>
    ((tree.rankedRun rank id).foldr (fun first sorted =>
      sorted.filter (!first.before ·) ++ first :: sorted.filter (first.before ·)) []).map
        RankedAttribute.id := by
  funext tree rank id
  rw [sortedAttributes_eq,
    mergeSort_eq_foldr RankedAttribute.before_trans RankedAttribute.before_total]

/-- What is no element has no attributes. -/
theorem sortedAttributes_eq_nil (noElement : tree.attributeRun? id = none) (rank : Rank) :
    tree.sortedAttributes rank id = [] := by
  rw [sortedAttributes_eq, rankedRun, attributeChildren, noElement]
  simp

theorem rankedAttribute?_id {item : NodeId} {ranked : RankedAttribute}
    (known : tree.rankedAttribute? rank item = some ranked) : ranked.id = item := by
  unfold rankedAttribute? at known
  split at known
  · cases known
    rfl
  · cases known

/-- Ranking the sorted attributes once more gives them with their ranks. -/
theorem filterMap_sortedAttributes (tree : Tree) (rank : Rank) (id : NodeId) :
    (tree.sortedAttributes rank id).filterMap (tree.rankedAttribute? rank) =
      (tree.rankedRun rank id).mergeSort RankedAttribute.before := by
  have own : ∀ ranked ∈ (tree.rankedRun rank id).mergeSort RankedAttribute.before,
      tree.rankedAttribute? rank ranked.id = some ranked := by
    intro ranked member
    obtain ⟨item, -, known⟩ := List.mem_filterMap.mp (List.mem_mergeSort.mp member)
    rwa [rankedAttribute?_id known]
  rw [sortedAttributes_eq, List.filterMap_map]
  exact (List.filterMap_congr own).trans List.filterMap_some

/-- **Ordering once more** changes nothing: attributes that stand in order are in order. -/
theorem sortedAttributes_of_sorted {after : Tree}
    (run : after.rankedRun rank id =
      (tree.sortedAttributes rank id).filterMap (tree.rankedAttribute? rank)) :
    after.sortedAttributes rank id = tree.sortedAttributes rank id := by
  have sorted := List.pairwise_mergeSort RankedAttribute.before_trans
    RankedAttribute.before_total (tree.rankedRun rank id)
  rw [sortedAttributes_eq, run, filterMap_sortedAttributes, List.mergeSort_of_pairwise sorted]
  rfl

/-- The attribute of a name that comes first in the order. -/
def front? (tree : Tree) (rank : Rank) (id : NodeId) (name : String) : Option NodeId :=
  (tree.sortedAttributes rank id).find? (tree.hasLiteralName name)

/-- Attributes of other names do not matter to the one in front. -/
theorem front?_eq (tree : Tree) (rank : Rank) (id : NodeId) (name : String) :
    tree.front? rank id name =
      (((((tree.attributeChildren id).filter (tree.hasLiteralName name)).filterMap
        (tree.rankedAttribute? rank)).mergeSort RankedAttribute.before).head?).map
          RankedAttribute.id := by
  have named : (tree.rankedRun rank id).filter (tree.hasLiteralName name ∘ RankedAttribute.id) =
      ((tree.attributeChildren id).filter (tree.hasLiteralName name)).filterMap
        (tree.rankedAttribute? rank) := by
    rw [rankedRun, List.filter_filterMap, List.filterMap_filter]
    refine List.filterMap_congr fun item _ => ?_
    cases known : tree.rankedAttribute? rank item with
    | none => split <;> rfl
    | some ranked =>
      rw [Option.filter_some, Function.comp_apply, rankedAttribute?_id known]
  rw [front?, sortedAttributes_eq, List.find?_map, ← List.head?_filter,
    filter_mergeSort RankedAttribute.before_trans RankedAttribute.before_total, named]

/-- The attribute in front is the same as long as those of its name are. -/
theorem front?_congr {after : Tree} {name : String}
    (named : (after.attributeChildren id).filter (after.hasLiteralName name) =
      (tree.attributeChildren id).filter (tree.hasLiteralName name))
    (ranks : ∀ item ∈ tree.attributeChildren id, tree.hasLiteralName name item = true →
      after.rankedAttribute? rank item = tree.rankedAttribute? rank item) :
    after.front? rank id name = tree.front? rank id name := by
  rw [front?_eq, front?_eq, named]
  refine congrArg (fun ranked : List RankedAttribute =>
    (ranked.mergeSort RankedAttribute.before).head?.map RankedAttribute.id) ?_
  refine List.filterMap_congr fun item member => ?_
  obtain ⟨child, isNamed⟩ := List.mem_filter.mp member
  exact ranks item child isNamed

theorem mem_of_front? {name : String} {front : NodeId}
    (isFront : tree.front? rank id name = some front) :
    front ∈ tree.runAttributes id ∧ tree.hasLiteralName name front = true :=
  ⟨(tree.sortedAttributes_perm rank id).subset (List.mem_of_find?_eq_some isFront),
    List.find?_some isFront⟩

/-- There is an attribute in front when there is one at all. -/
theorem isSome_front? (tree : Tree) (rank : Rank) (id : NodeId) (name : String) :
    (tree.front? rank id name).isSome = (tree.findAttribute id name).isSome := by
  rw [Bool.eq_iff_iff, front?, findAttribute, List.find?_isSome, List.find?_isSome]
  constructor
  · rintro ⟨item, member, named⟩
    have listed := (tree.sortedAttributes_perm rank id).subset member
    exact ⟨item, (List.mem_filter.mp listed).1, named⟩
  · rintro ⟨item, member, named⟩
    refine ⟨item, (tree.sortedAttributes_perm rank id).symm.subset ?_, named⟩
    exact List.mem_filter.mpr ⟨member, isAttribute_of_hasLiteralName named⟩

theorem isAttribute_of_mem_sortedAttributes {item : NodeId}
    (member : item ∈ tree.sortedAttributes rank id) : tree.isAttribute item = true :=
  (List.mem_filter.mp ((tree.sortedAttributes_perm rank id).subset member)).2

theorem rankedAttribute?_eq_none {item : NodeId} (noAttr : tree.isAttribute item = false) :
    tree.rankedAttribute? rank item = none := by
  unfold rankedAttribute?
  split
  · rename_i known
    rw [isAttribute, known] at noAttr
    cases noAttr
  · rfl

theorem sortedAttributes_eq_nil_iff :
    tree.sortedAttributes rank id = [] ↔ tree.runAttributes id = [] := by
  have perm := tree.sortedAttributes_perm rank id
  constructor
  · intro none
    rw [none] at perm
    exact perm.symm.eq_nil
  · intro none
    rw [none] at perm
    exact perm.eq_nil

/-- A run without attributes holds nothing that is found by its name. -/
theorem findAttribute_of_sortedAttributes_eq_nil (none : tree.sortedAttributes rank id = [])
    (name : String) : tree.findAttribute id name = tree.front? rank id name := by
  have noFront : tree.front? rank id name = .none := by rw [front?, none, List.find?_nil]
  rw [noFront, ← Option.not_isSome_iff_eq_none, ← isSome_front? tree rank, noFront]
  exact Bool.false_ne_true

namespace Retouched

variable {before after : Tree} {id : NodeId} {rank : Rank} (retouched : before.Retouched after)

include retouched

/-- Names keep their ranks. -/
theorem rankedAttribute?_eq (inside : id < before.size) :
    after.rankedAttribute? rank id = before.rankedAttribute? rank id := by
  obtain ⟨node, known⟩ := exists_get? inside
  obtain ⟨kind, changed, retouch⟩ := retouched.slot id node known
  rw [rankedAttribute?, rankedAttribute?, kind?_of_get? known, kind?_of_get? changed]
  generalize node.kind = old at retouch
  cases retouch <;> rfl

variable (wf : before.WellFormed) (reach : before.Reachable id)

include wf reach

/-- The attributes of a run with the same items are in the same order. -/
theorem sortedAttributes_eq (items : after.attributeChildren id = before.attributeChildren id) :
    after.sortedAttributes rank id = before.sortedAttributes rank id := by
  have ranked : after.rankedRun rank id = before.rankedRun rank id := by
    rw [rankedRun, rankedRun, items]
    exact List.filterMap_congr fun item member =>
      retouched.rankedAttribute?_eq (wf.lt_size_of_mem_attributeChildren reach member)
  rw [Tree.sortedAttributes_eq, Tree.sortedAttributes_eq, ranked]

/-- The same attribute is in front when the attributes are in the same order. -/
theorem front?_eq (order : after.sortedAttributes rank id = before.sortedAttributes rank id)
    (name : String) : after.front? rank id name = before.front? rank id name := by
  rw [front?, front?, order]
  refine List.find?_congr fun item member => ?_
  have listed := (before.sortedAttributes_perm rank id).subset member
  exact retouched.hasLiteralName_eq
    (wf.lt_size_of_mem_attributeChildren reach (List.mem_filter.mp listed).1) name

end Retouched

end Tree

end Templating.Markup
