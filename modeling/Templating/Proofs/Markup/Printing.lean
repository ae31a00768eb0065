import Templating.Markup.Printer
import Templating.Proofs.Markup.Visits

/-!
# Printing a well-formed tree

The printer goes down at most as many levels as the tree has slots. On a well-formed tree that is
deep enough: no node is among its own holders, so a chain of holders has no more nodes than slots.

- `Tree.Ancestry.nodup`, `Tree.Ancestry.length_le`: chains of holders.
- `Tree.renderNode_stable`: a node prints the same with any depth that reaches to its end.
- `Tree.WellFormed.markupOf_eq`: the printed form of a node from those of its children.
-/

namespace Templating.Markup

/-- The markup of a node from that of the nodes which it holds. -/
def NodeKind.render (markupOf : NodeId → String) : NodeKind → String
  | .text content => content
  | .attr name value quote => renderAttribute name value quote
  | .fragment children => String.join (children.map markupOf)
  | .expression source children =>
    "\x7b" ++ source ++ "\x7d" ++ String.join (children.map markupOf)
  | .element name attributes children =>
    let opening := "<" ++ name ++ markupOf attributes ++ ">"
    if isVoid name && children.isEmpty then
      opening
    else
      opening ++ String.join (children.map markupOf) ++ "</" ++ name ++ ">"

theorem NodeKind.render_congr {markupOf markupOf' : NodeId → String} {kind : NodeKind}
    (same : ∀ child ∈ kind.walkChildren, markupOf child = markupOf' child) :
    kind.render markupOf = kind.render markupOf' := by
  have content (children : List NodeId) (inside : ∀ child ∈ children, child ∈ kind.walkChildren) :
      children.map markupOf = children.map markupOf' :=
    List.map_congr_left fun child member => same child (inside child member)
  cases kind with
  | text => rfl
  | attr => rfl
  | fragment children => rw [render, render, content children fun _ member => member]
  | expression source children => rw [render, render, content children fun _ member => member]
  | element name run children =>
    rw [render, render, content children fun _ member => List.mem_cons_of_mem run member,
      same run List.mem_cons_self]

namespace Tree

variable {tree : Tree} {id holder : NodeId} {holders : List NodeId}

/-- One more level of printing. -/
theorem renderNode_succ (tree : Tree) (depth : Nat) (id : NodeId) :
    tree.renderNode (depth + 1) id =
      ((tree.kind? id).map (NodeKind.render (tree.renderNode depth))).getD "" := by
  rw [renderNode]
  cases tree.kind? id with
  | none => rfl
  | some kind => cases kind <;> rfl

theorem renderNode_of_none (unknown : tree.kind? id = none) (depth : Nat) :
    tree.renderNode depth id = "" := by
  cases depth with
  | zero => rfl
  | succ depth => rw [renderNode_succ, unknown]; rfl

/-! ## Chains of holders -/

/-- A node, the one that holds it, and so on up to the root. -/
inductive Ancestry (tree : Tree) : List NodeId → Prop
  | root : Ancestry tree [Tree.root]
  | child {id holder : NodeId} {holders : List NodeId} (above : Ancestry tree (holder :: holders))
      (holds : tree.Holds holder id) : Ancestry tree (id :: holder :: holders)

theorem Reachable.exists_ancestry (reach : tree.Reachable id) :
    ∃ holders, tree.Ancestry (id :: holders) := by
  induction reach with
  | refl => exact ⟨[], .root⟩
  | tail _ holds ih =>
    obtain ⟨holders, above⟩ := ih
    exact ⟨_, above.child holds⟩

namespace Ancestry

variable {chain : List NodeId}

theorem reachable (ancestry : tree.Ancestry chain) : ∀ id ∈ chain, tree.Reachable id := by
  induction ancestry with
  | root =>
    intro id member
    rw [List.mem_singleton.mp member]
    exact Reachable.root
  | child above holds ih =>
    intro id member
    rcases List.mem_cons.mp member with rfl | member
    · exact (ih _ List.mem_cons_self).child holds
    · exact ih id member

/-- What holds a node of the chain stands behind it. -/
theorem holder_mem_tail (ancestry : tree.Ancestry chain) (wf : tree.WellFormed)
    (reach : tree.Reachable holder) (holds : tree.Holds holder id) (member : id ∈ chain) :
    holder ∈ chain.tail := by
  induction ancestry with
  | root =>
    rw [List.mem_singleton.mp member] at holds
    exact absurd holds (wf.root_free holder reach)
  | child above holds' ih =>
    rcases List.mem_cons.mp member with rfl | member
    · rw [wf.holder_unique reach holds (above.reachable _ List.mem_cons_self) holds']
      exact List.mem_cons_self
    · exact List.mem_cons_of_mem _ (ih member)

/-- No node is among its own holders. -/
theorem nodup (ancestry : tree.Ancestry chain) (wf : tree.WellFormed) : chain.Nodup := by
  induction ancestry with
  | root => exact List.nodup_singleton _
  | child above holds ih =>
    refine List.nodup_cons.mpr ⟨fun member => ?_, ih⟩
    have again := above.holder_mem_tail wf (above.reachable _ List.mem_cons_self) holds member
    exact (List.nodup_cons.mp ih).1 again

/-- A chain of holders is no longer than the tree has slots. -/
theorem length_le (ancestry : tree.Ancestry (id :: holders)) (wf : tree.WellFormed)
    (known : id < tree.size) : holders.length < tree.size := by
  refine length_le_of_nodup tree.size (ancestry.nodup wf) fun node member => ?_
  by_cases isRoot : node = Tree.root
  · rw [isRoot]
    exact Nat.zero_lt_of_lt known
  · exact wf.lt_size_of_reachable (ancestry.reachable node member) isRoot

end Ancestry

/-! ## Printing with enough depth -/

/-- Every depth that goes beyond the longest chain of holders gives the same markup. The induction
is on the depth; a node without a slot has none left. -/
theorem renderNode_stable (wf : tree.WellFormed) {depth depth' : Nat}
    (ancestry : tree.Ancestry (id :: holders)) (enough : tree.size ≤ holders.length + depth)
    (enough' : tree.size ≤ holders.length + depth') :
    tree.renderNode depth id = tree.renderNode depth' id := by
  induction depth generalizing id holders depth' with
  | zero =>
    have unknown : tree.kind? id = none := by
      cases known : tree.kind? id with
      | none => rfl
      | some kind =>
        obtain ⟨node, slot, -⟩ := exists_of_kind? known
        exact absurd (ancestry.length_le wf (lt_size slot)) (Nat.not_lt_of_le enough)
    rw [renderNode_of_none unknown, renderNode_of_none unknown]
  | succ depth ih =>
    cases known : tree.kind? id with
    | none => rw [renderNode_of_none known, renderNode_of_none known]
    | some kind =>
      obtain ⟨node, slot, -⟩ := exists_of_kind? known
      have inside := ancestry.length_le wf (lt_size slot)
      obtain ⟨deeper, rfl⟩ : ∃ deeper, depth' = deeper + 1 :=
        Nat.exists_eq_succ_of_ne_zero <| by
          rintro rfl
          exact absurd inside (Nat.not_lt_of_le enough')
      rw [renderNode_succ, renderNode_succ, known, Option.map_some, Option.map_some]
      refine congrArg (Option.getD · "") (congrArg some ?_)
      refine NodeKind.render_congr fun child member => ?_
      have holds : tree.Holds id child := by
        rw [Holds, walkChildren_of_kind? known]
        exact member
      refine ih (ancestry.child holds) ?_ ?_
      · rw [List.length_cons]
        omega
      · rw [List.length_cons]
        omega

/-- **Printing goes down a well-formed tree to its end**: a node prints as its own kind says, around
the printed forms of all that it holds. -/
theorem WellFormed.markupOf_eq {kind : NodeKind} (wf : tree.WellFormed) (reach : tree.Reachable id)
    (known : tree.kind? id = some kind) : tree.markupOf id = kind.render tree.markupOf := by
  obtain ⟨holders, ancestry⟩ := reach.exists_ancestry
  obtain ⟨node, slot, -⟩ := exists_of_kind? known
  obtain ⟨depth, full⟩ : ∃ depth, tree.size = depth + 1 :=
    Nat.exists_eq_succ_of_ne_zero (Nat.ne_zero_of_lt (lt_size slot))
  rw [markupOf, full, renderNode_succ, known, Option.map_some, Option.getD_some]
  refine NodeKind.render_congr fun child member => ?_
  have holds : tree.Holds id child := by
    rw [Holds, walkChildren_of_kind? known]
    exact member
  refine renderNode_stable wf (ancestry.child holds) ?_ (Nat.le_add_left _ _)
  rw [List.length_cons]
  omega

end Tree

end Templating.Markup
