import Templating.Proofs.Markup.Pass.LaidOut

/-!
# What ordering attributes leaves

The pass that orders attributes is held against an order that is stated by itself: the attributes of
an element are sorted by the ranks of their names and then by the names, and those of one name stay
as they are written.

* `Tree.stablySorted_sortedAttributes`: the order of the attributes is this one.
* `Visits.orderKept`: along a walk the attributes of an element in view keep their order, and no
  slot but those of attribute runs is changed.
* `attributeSort_arranges`: what the walk makes of a tree, and that another walk changes nothing.
-/

namespace Templating.Markup

open Templating.Text

namespace Tree

/-! ## The order -/

/-- By what an attribute is ordered: the rank of its name, and the name. -/
def orderKey? (tree : Tree) (rank : Rank) (id : NodeId) : Option (Nat × String) :=
  match tree.kind? id with
  | some (.attr name _ _) => some (rank name.source, name.source)
  | _ => none

/-- The nodes of `written` by rank and then by name, those of one name as they are written. -/
structure StablySorted (tree : Tree) (rank : Rank) (written sorted : List NodeId) : Prop where
  perm : sorted.Perm written
  ordered : sorted.Pairwise fun left right =>
    ∀ first ∈ tree.orderKey? rank left, ∀ second ∈ tree.orderKey? rank right,
      first.1 < second.1 ∨ (first.1 = second.1 ∧ first.2 ≤ second.2)
  stable : ∀ key, (sorted.filter fun id => tree.orderKey? rank id == some key) =
    written.filter fun id => tree.orderKey? rank id == some key

/-- Each node of a list behind a text that is a single space, and then `others`. -/
inductive SpacedOut (tree : Tree) (others : List NodeId) : List NodeId → List NodeId → Prop
  | rest : SpacedOut tree others [] others
  | next {gap first : NodeId} {more run : List NodeId} :
    tree.kind? gap = some (.text " ") → SpacedOut tree others more run →
      SpacedOut tree others (first :: more) (gap :: first :: run)

variable {tree : Tree} {rank : Rank} {id : NodeId}

theorem orderKey?_eq (tree : Tree) (rank : Rank) (id : NodeId) : tree.orderKey? rank id =
    (tree.rankedAttribute? rank id).map fun ranked => (ranked.rank, ranked.name) := by
  rw [orderKey?, rankedAttribute?]
  cases tree.kind? id with
  | none => rfl
  | some kind => cases kind <;> rfl

theorem orderKey?_of_mem_rankedRun {ranked : RankedAttribute}
    (member : ranked ∈ tree.rankedRun rank id) :
    tree.orderKey? rank ranked.id = some (ranked.rank, ranked.name) := by
  obtain ⟨item, -, known⟩ := List.mem_filterMap.mp member
  rw [rankedAttribute?_id known, orderKey?_eq, known]
  rfl

/-- Attributes with the same key may stand either way. -/
theorem before_of_orderKey?_eq {first second : RankedAttribute} {key : Nat × String}
    (isFirst : first ∈ tree.rankedRun rank id) (isSecond : second ∈ tree.rankedRun rank id)
    (firstKey : tree.orderKey? rank first.id = some key)
    (secondKey : tree.orderKey? rank second.id = some key) : first.before second = true := by
  rw [orderKey?_of_mem_rankedRun isFirst] at firstKey
  rw [orderKey?_of_mem_rankedRun isSecond, ← firstKey] at secondKey
  obtain ⟨ranks, names⟩ := Prod.mk.inj (Option.some.inj secondKey)
  rw [RankedAttribute.before_iff]
  exact .inr ⟨ranks.symm, names ▸ String.lt_irrefl _⟩

/-- **The order of the attributes** is by rank and then by name, and stable. -/
theorem stablySorted_sortedAttributes (tree : Tree) (rank : Rank) (id : NodeId) :
    tree.StablySorted rank (tree.runAttributes id) (tree.sortedAttributes rank id) where
  perm := tree.sortedAttributes_perm rank id
  ordered := by
    rw [sortedAttributes_eq, List.pairwise_map]
    refine (List.pairwise_mergeSort RankedAttribute.before_trans RankedAttribute.before_total
      (tree.rankedRun rank id)).imp_of_mem fun {left right} isLeft isRight order => ?_
    intro first isFirst second isSecond
    rw [orderKey?_of_mem_rankedRun (List.mem_mergeSort.mp isLeft), Option.mem_some_iff] at isFirst
    rw [orderKey?_of_mem_rankedRun (List.mem_mergeSort.mp isRight), Option.mem_some_iff] at isSecond
    subst isFirst isSecond
    exact (RankedAttribute.before_iff.mp order).imp_right fun ⟨same, names⟩ =>
      ⟨same, String.not_lt.mp names⟩
  stable := by
    intro key
    have hasKey {ranked : RankedAttribute}
        (picked : ranked ∈ (tree.rankedRun rank id).filter
          ((fun id => tree.orderKey? rank id == some key) ∘ RankedAttribute.id)) :
        ranked ∈ tree.rankedRun rank id ∧ tree.orderKey? rank ranked.id = some key := by
      obtain ⟨member, same⟩ := List.mem_filter.mp picked
      exact ⟨member, eq_of_beq same⟩
    -- What the test picks is tied, and sorting keeps it as it is written.
    have tied : ((tree.rankedRun rank id).filter
        ((fun id => tree.orderKey? rank id == some key) ∘ RankedAttribute.id)).Pairwise
          fun first second => first.before second = true :=
      List.pairwise_of_forall_mem_list fun first isFirst second isSecond =>
        before_of_orderKey?_eq (hasKey isFirst).1 (hasKey isSecond).1 (hasKey isFirst).2
          (hasKey isSecond).2
    rw [sortedAttributes_eq, List.filter_map, filter_mergeSort RankedAttribute.before_trans
      RankedAttribute.before_total, List.mergeSort_of_pairwise tied, ← List.filter_map, rankedRun,
      map_id_filterMap_rankedAttribute?]
    rfl

theorem spacedOut_of_isLaidOut {sorted others run : List NodeId}
    (laid : tree.isLaidOut sorted others run = true) : tree.SpacedOut others sorted run := by
  induction sorted generalizing run with
  | nil =>
    obtain rfl := eq_of_beq laid
    exact .rest
  | cons first sorted ih =>
    obtain ⟨gap, rest, rfl, isGap, laid⟩ := exists_of_isLaidOut laid
    exact .next isGap (ih laid)

/-! ## Along a walk -/

/-- What ordering attributes keeps of a tree: the order of the attributes of each element in view,
and all slots but the runs with attributes in view. -/
structure OrderKept (rank : Rank) (before after : Tree) : Prop extends Preserved before after where
  order : ∀ id run, before.Visible id → before.attributeRun? id = some run →
    after.sortedAttributes rank id = before.sortedAttributes rank id
  slots : ∀ slot, slot < before.size → (∀ id, before.Visible id →
      before.attributeRun? id = some slot → before.sortedAttributes rank id = []) →
    after.get? slot = before.get? slot

namespace OrderKept

variable {before middle after : Tree}

theorem refl (tree : Tree) : tree.OrderKept rank tree :=
  ⟨.refl tree, fun _ _ _ _ => rfl, fun _ _ _ => rfl⟩

theorem trans (first : before.OrderKept rank middle) (second : middle.OrderKept rank after) :
    before.OrderKept rank after where
  toPreserved := first.toPreserved.trans second.toPreserved
  order := by
    intro id run visible element
    obtain ⟨visible', element'⟩ := first.element_after visible element
    rw [second.order id run visible' element', first.order id run visible element]
  slots := by
    intro slot inside bare
    have bare' : ∀ id, middle.Visible id → middle.attributeRun? id = some slot →
        middle.sortedAttributes rank id = [] := by
      intro id visible' element'
      obtain ⟨visible, element⟩ := first.element visible' element'
      rw [first.order id slot visible element, bare id visible element]
    rw [second.slots slot (Nat.lt_of_lt_of_le inside first.size_le) bare',
      first.slots slot inside bare]

/-- The slots of a run without attributes, and of what stands in it, are unchanged. -/
theorem slots_of_bare (kept : before.OrderKept rank after) (wf : before.WellFormed) {run : NodeId}
    (visible : before.Visible id) (element : before.attributeRun? id = some run)
    (bare : before.sortedAttributes rank id = []) :
    ∀ slot ∈ run :: before.attributeChildren id, after.get? slot = before.get? slot := by
  have reach := visible.reachable
  have holds := (holds_attributeRun? element).2
  intro slot member
  rcases List.mem_cons.mp member with rfl | item
  · refine kept.slots slot (wf.lt_size_of_holds reach holds) fun other visible' element' => ?_
    obtain rfl := wf.holder_unique reach holds visible'.reachable (holds_attributeRun? element').2
    exact bare
  · refine kept.slots slot (wf.lt_size_of_mem_attributeChildren reach item) ?_
    intro other visible' element'
    rw [wf.attributeChildren_eq reach element] at item
    exact absurd item (wf.not_holds_run visible'.reachable element' reach element)

end OrderKept

/-- Ordering the attributes of one element keeps the order of all. -/
theorem orderKept_of_sortRun {before after : Tree} (wf : before.WellFormed)
    (visible : before.Visible id) (touched : before.Touched id after)
    (outcome : sortRun rank id before = .ok () after) : before.OrderKept rank after := by
  have reach := visible.reachable
  rcases sortRun_cases wf reach outcome with ⟨rfl, -⟩ | ⟨run, element, rfl⟩
  · exact .refl _
  · by_cases bare : before.sortedAttributes rank id = []
    · rw [sortRun_eq_self (.inl bare)] at outcome
      rw [← (EStateM.Result.ok.inj outcome).2]
      exact .refl before
    · refine ⟨touched.preserved wf visible, fun other run' visible' element' => ?_,
        fun slot inside bares => ?_⟩
      · by_cases same : other = id
        · obtain rfl := same
          exact (laidOut_ordered wf reach element rank).2
        · have notRun : before.attributeRun? id ≠ some run' := fun isRun =>
            same (wf.holder_unique visible'.reachable (holds_attributeRun? element').2 reach
              (holds_attributeRun? isRun).2)
          exact touched.sortedAttributes_eq wf visible'.reachable
            (touched.attributeChildren_eq wf visible'.reachable element'
              (touched.walkChildren_eq run' notRun))
      · have notRun : slot ≠ run := by
          rintro rfl
          exact bare (bares id visible element)
        exact get?_rerun_of_lt _ _ inside notRun

end Tree

/-- A walk keeps the order of the attributes. -/
theorem Visits.orderKept {rank : Rank} {start final : Tree} {log : Log}
    (visits : Visits (attributeSort rank) .none start log final) : start.OrderKept rank final :=
  visits.rel_of_visit (Tree.OrderKept rank) .refl .trans fun wf visible outcome touched =>
    Tree.orderKept_of_sortRun wf visible touched (Pass.visit_ofEdit.mp outcome).2

/-! ## The whole tree -/

/-- What ordering attributes makes of a tree. The same elements are in view. The attributes of each
are sorted, each behind a single space, and followed by what is neither an attribute nor blank text
as it is written. A run without attributes is unchanged, with all that stands in it, and so is every
slot but those of the other runs. -/
structure Tree.Arranged (start : Tree) (rank : Rank) (final : Tree) : Prop where
  attributeRun?_eq : ∀ id, final.attributeRun? id = start.attributeRun? id
  visible_iff : ∀ id run, start.attributeRun? id = some run →
    (final.Visible id ↔ start.Visible id)
  filled : ∀ id run, start.Visible id → start.attributeRun? id = some run →
    start.runAttributes id ≠ [] →
      ∃ sorted, start.StablySorted rank (start.runAttributes id) sorted ∧
        final.SpacedOut (start.runOthers id) sorted (final.attributeChildren id)
  bare : ∀ id run, start.Visible id → start.attributeRun? id = some run →
    start.runAttributes id = [] →
      final.attributeChildren id = start.attributeChildren id ∧
        ∀ slot ∈ run :: start.attributeChildren id, final.get? slot = start.get? slot
  slots : ∀ slot, slot < start.size → (∀ id, start.Visible id →
      start.attributeRun? id = some slot → start.runAttributes id = []) →
    final.get? slot = start.get? slot

/-- **Ordering attributes** arranges every run in view, whatever the ranks, and ordering them once
more leaves the tree as it is, slot by slot. -/
theorem attributeSort_arranges (rank : Rank) {start : Tree} (wf : start.WellFormed) :
    ∃ final, (attributeSort rank).walk start = .ok () final ∧ start.Arranged rank final ∧
      (attributeSort rank).walk final = .ok () final := by
  obtain ⟨final, walked, wf', preserved, sorted⟩ := exists_attributeSort rank wf
  obtain ⟨log, final', walked', visits, -⟩ := (attributeSort_local rank).exists_walk wf
  obtain rfl : final = final' := by
    rw [walked] at walked'
    exact (EStateM.Result.ok.inj walked').2
  have kept := visits.orderKept
  refine ⟨final, walked, ⟨kept.attributeRun?_eq, ?_, ?_, ?_, ?_⟩, ?_⟩
  · intro id run element
    refine ⟨fun seen => ?_, fun visible => (kept.element_after visible element).1⟩
    exact kept.visible_of_lt id seen (Tree.lt_size_of_attributeRun? element)
  · intro id run visible element some
    have order := kept.order id run visible element
    refine ⟨start.sortedAttributes rank id, start.stablySorted_sortedAttributes rank id, ?_⟩
    rcases (sorted id run (kept.element_after visible element).1 element).run with ⟨none, -⟩ | laid
    · rw [order] at none
      exact absurd (Tree.sortedAttributes_eq_nil_iff.mp none) some
    · rw [Tree.LaidOut, order, (visits.runKept wf visible element).1.others,
        Tree.otherRunChildren_eq_runOthers] at laid
      exact Tree.spacedOut_of_isLaidOut laid
  · intro id run visible element none
    have slots := kept.slots_of_bare wf visible element (Tree.sortedAttributes_eq_nil_iff.mpr none)
    refine ⟨?_, slots⟩
    rw [Tree.attributeChildren, Tree.attributeChildren, kept.attributeRun?_eq, element,
      Option.map_some, Option.map_some, Tree.content, Tree.content, Tree.kind?, Tree.kind?,
      slots run List.mem_cons_self]
  · exact fun slot inside none =>
      kept.slots slot inside fun id visible element =>
        Tree.sortedAttributes_eq_nil_iff.mpr (none id visible element)
  · refine attributeSort_eq_self wf' fun id run visible element => ?_
    rw [kept.attributeRun?_eq] at element
    exact (sorted id run visible element).run.imp_left And.left

/-- `<a href{$e}id<i b a></i> href="2">`, with the separator of a line feed in front of the last
attribute and no other one. -/
def entangledTree : Tree :=
  ⟨#[⟨.fragment [2], none⟩, ⟨.fragment [3, 4, 5, 7, 10, 11], some 2⟩, ⟨.element "a" 1 [], some 0⟩,
    ⟨.attr (.text "href") none none, some 1⟩, ⟨.expression "$e" [], some 1⟩,
    ⟨.attr (.text "id") none none, some 1⟩, ⟨.fragment [8, 9], some 7⟩,
    ⟨.element "i" 6 [], some 1⟩, ⟨.attr (.text "b") none none, some 6⟩,
    ⟨.attr (.text "a") none none, some 6⟩, ⟨.text "\n", some 1⟩,
    ⟨.attr (.text "href") (some (.text "2")) (some '"'), some 1⟩]⟩

theorem entangledTree_wellFormed : entangledTree.WellFormed :=
  .of_closed [0, 1, 2, 3, 4, 5, 6, 7, 8, 9, 10, 11] (by decide) (by decide) (by decide) (by decide)

theorem attributeSort_arranges_entangled : entangledTree.WellFormed ∧
    ∃ final, (attributeSort lengthRank).walk entangledTree = .ok () final ∧
      entangledTree.Arranged lengthRank final ∧
        (attributeSort lengthRank).walk final = .ok () final :=
  ⟨entangledTree_wellFormed, attributeSort_arranges lengthRank entangledTree_wellFormed⟩

end Templating.Markup
