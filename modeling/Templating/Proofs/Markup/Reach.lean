import Mathlib.Data.List.Nodup
import Mathlib.Logic.Relation
import Mathlib.Tactic.ByContra
import Templating.Markup.Tree

/-!
# Reachable nodes and well-formed trees

A node is reachable when a chain of holders leads to it from the root, and visible when no holder
of such a chain is an expression: the visible nodes are those that a walk can meet. A tree is
well-formed when its reachable nodes form one: each but the root is held once, by the node that
its own slot names.

* `WellFormed.parent?_of_holds` and `WellFormed.nodup_walkChildren` are the two facts about holding
  that proofs use; `WellFormed.of_links` gives well-formedness back from them.
* `Tree.ext_get?`: a tree is its slots.
-/

namespace Templating.Markup

namespace Tree

/-! ## Slots -/

/-- Trees with the same slots are the same. -/
theorem ext_get? {left right : Tree} (slots : ∀ id, left.get? id = right.get? id) :
    left = right := by
  cases left
  cases right
  exact congrArg Tree.mk (Array.ext_getElem? slots)

theorem get?_eq_none {tree : Tree} {id : NodeId} (beyond : tree.size ≤ id) : tree.get? id = none :=
  Array.getElem?_eq_none beyond

theorem lt_size {tree : Tree} {id : NodeId} {node : Node} (slot : tree.get? id = some node) :
    id < tree.size := by
  by_contra beyond
  rw [get?_eq_none (Nat.le_of_not_lt beyond)] at slot
  cases slot

theorem exists_get? {tree : Tree} {id : NodeId} (inside : id < tree.size) :
    ∃ node, tree.get? id = some node :=
  ⟨_, Array.getElem?_eq_getElem inside⟩

theorem kind?_of_get? {tree : Tree} {id : NodeId} {node : Node} (slot : tree.get? id = some node) :
    tree.kind? id = some node.kind := by
  rw [kind?, slot, Option.map_some]

theorem exists_of_kind? {tree : Tree} {id : NodeId} {kind : NodeKind}
    (known : tree.kind? id = some kind) : ∃ node, tree.get? id = some node ∧ node.kind = kind :=
  Option.map_eq_some_iff.mp known

theorem size_le_of_kind?_eq_none {tree : Tree} {id : NodeId} (unknown : tree.kind? id = none) :
    tree.size ≤ id := by
  by_contra inside
  obtain ⟨node, slot⟩ := exists_get? (Nat.lt_of_not_le inside)
  rw [kind?_of_get? slot] at unknown
  cases unknown

theorem parent?_of_get? {tree : Tree} {id : NodeId} {node : Node}
    (slot : tree.get? id = some node) : tree.parent? id = node.parent := by
  rw [parent?, slot, Option.bind_some]

theorem exists_of_parent? {tree : Tree} {id holder : NodeId}
    (known : tree.parent? id = some holder) :
    ∃ node, tree.get? id = some node ∧ node.parent = some holder :=
  Option.bind_eq_some_iff.mp known

theorem walkChildren_of_kind? {tree : Tree} {id : NodeId} {kind : NodeKind}
    (known : tree.kind? id = some kind) : tree.walkChildren id = kind.walkChildren := by
  rw [walkChildren, known, Option.map_some, Option.getD_some]

theorem walkChildren_of_get? {tree : Tree} {id : NodeId} {node : Node}
    (slot : tree.get? id = some node) : tree.walkChildren id = node.kind.walkChildren :=
  walkChildren_of_kind? (kind?_of_get? slot)

/-- Only a slot of the arena has children. -/
theorem lt_size_of_mem_walkChildren {tree : Tree} {id child : NodeId}
    (member : child ∈ tree.walkChildren id) : id < tree.size := by
  by_contra beyond
  rw [walkChildren, kind?, get?_eq_none (Nat.le_of_not_lt beyond)] at member
  cases member

theorem kind?_of_attributeRun? {tree : Tree} {id run : NodeId}
    (element : tree.attributeRun? id = some run) :
    ∃ name children, tree.kind? id = some (.element name run children) := by
  unfold attributeRun? at element
  split at element
  · cases element
    exact ⟨_, _, ‹_›⟩
  · cases element

theorem kind?_of_elementName? {tree : Tree} {id : NodeId} {name : String}
    (element : tree.elementName? id = some name) :
    ∃ run children, tree.kind? id = some (.element name run children) := by
  unfold elementName? at element
  split at element
  · cases element
    exact ⟨_, _, ‹_›⟩
  · cases element

theorem attributeRun?_of_kind? {tree : Tree} {id run : NodeId} {name : String}
    {children : List NodeId} (known : tree.kind? id = some (.element name run children)) :
    tree.attributeRun? id = some run := by
  rw [attributeRun?, known]

theorem exists_attributeRun? {tree : Tree} {id : NodeId} {name : String}
    (element : tree.elementName? id = some name) : ∃ run, tree.attributeRun? id = some run := by
  obtain ⟨run, children, known⟩ := kind?_of_elementName? element
  exact ⟨run, attributeRun?_of_kind? known⟩

theorem lt_size_of_attributeRun? {tree : Tree} {id run : NodeId}
    (element : tree.attributeRun? id = some run) : id < tree.size := by
  obtain ⟨name, children, known⟩ := kind?_of_attributeRun? element
  obtain ⟨node, slot, -⟩ := exists_of_kind? known
  exact lt_size slot

theorem content_of_kind? {tree : Tree} {id : NodeId} {kind : NodeKind}
    (known : tree.kind? id = some kind) : tree.content id = kind.content?.getD [] := by
  rw [content, known, Option.bind_some]

/-- A node that holds another is no text. -/
theorem isBlankText_eq_false {tree : Tree} {id child : NodeId}
    (member : child ∈ tree.walkChildren id) : tree.isBlankText id = false := by
  cases known : tree.kind? id with
  | none => simp [isBlankText, textContent?, known]
  | some kind =>
    rw [walkChildren_of_kind? known] at member
    cases kind with
    | text => cases member
    | _ => simp [isBlankText, textContent?, known]

/-! ## Chains of holders -/

/-- `holder` has `child` in its content or as its attribute run. -/
def Holds (tree : Tree) (holder child : NodeId) : Prop :=
  child ∈ tree.walkChildren holder

instance (tree : Tree) (holder child : NodeId) : Decidable (tree.Holds holder child) :=
  inferInstanceAs (Decidable (child ∈ tree.walkChildren holder))

/-- A chain of holders leads from the root to the node. -/
def Reachable (tree : Tree) : NodeId → Prop :=
  Relation.ReflTransGen tree.Holds root

/-- `holder` has `child` and is no expression. -/
def Shows (tree : Tree) (holder child : NodeId) : Prop :=
  tree.isExpression holder = false ∧ tree.Holds holder child

instance (tree : Tree) (holder child : NodeId) : Decidable (tree.Shows holder child) :=
  inferInstanceAs (Decidable (tree.isExpression holder = false ∧ tree.Holds holder child))

/-- A chain of holders without an expression leads from the root to the node. -/
def Visible (tree : Tree) : NodeId → Prop :=
  Relation.ReflTransGen tree.Shows root

variable {tree : Tree} {id holder held : NodeId}

theorem Reachable.root : tree.Reachable root := .refl

theorem Reachable.child (reach : tree.Reachable holder) (holds : tree.Holds holder held) :
    tree.Reachable held :=
  reach.tail holds

theorem Visible.root : tree.Visible root := .refl

theorem Visible.child (visible : tree.Visible holder) (shows : tree.Shows holder held) :
    tree.Visible held :=
  visible.tail shows

theorem Visible.reachable (visible : tree.Visible id) : tree.Reachable id := by
  induction visible with
  | refl => exact Reachable.root
  | tail _ shows ih => exact ih.child shows.2

/-- A reachable node other than the root has a holder. -/
theorem Reachable.exists_holder (reach : tree.Reachable id) (notRoot : id ≠ Tree.root) :
    ∃ holder, tree.Reachable holder ∧ tree.Holds holder id := by
  rcases Relation.ReflTransGen.cases_tail reach with rfl | ⟨holder, reach, holds⟩
  · exact absurd rfl notRoot
  · exact ⟨holder, reach, holds⟩

/-- A list that holds the root and is closed under holding has all reachable nodes. -/
theorem Reachable.mem_of_closed (reach : tree.Reachable id) (nodes : List NodeId)
    (start : Tree.root ∈ nodes)
    (closed : ∀ holder ∈ nodes, ∀ held ∈ tree.walkChildren holder, held ∈ nodes) : id ∈ nodes := by
  induction reach with
  | refl => exact start
  | tail _ holds ih => exact closed _ ih _ holds

/-- A visible node other than the root has a visible holder that is no expression. -/
theorem Visible.exists_shows (visible : tree.Visible id) (notRoot : id ≠ Tree.root) :
    ∃ holder, tree.Visible holder ∧ tree.Shows holder id := by
  rcases Relation.ReflTransGen.cases_tail visible with rfl | ⟨holder, visible, shows⟩
  · exact absurd rfl notRoot
  · exact ⟨holder, visible, shows⟩

/-- An element holds its attribute run. -/
theorem holds_attributeRun? {run : NodeId} (element : tree.attributeRun? id = some run) :
    tree.Shows id run := by
  obtain ⟨name, children, known⟩ := kind?_of_attributeRun? element
  refine ⟨by simp [isExpression, known, NodeKind.shape], ?_⟩
  rw [Holds, walkChildren_of_kind? known]
  exact List.mem_cons_self

/-! ## Well-formed trees -/

/-- The reachable nodes form a tree: every attribute run is a fragment, nothing holds the root, and
every other node is held exactly once, by one node, which its slot names as its parent. -/
structure WellFormed (tree : Tree) : Prop where
  run_fragment : ∀ id name run children, tree.Reachable id →
    tree.kind? id = some (.element name run children) →
    ∃ items, tree.kind? run = some (.fragment items)
  root_free : ∀ holder, tree.Reachable holder → ¬ tree.Holds holder root
  held_once : ∀ id, tree.Reachable id → id ≠ root →
    ∃ holder, tree.Reachable holder ∧ (tree.walkChildren holder).count id = 1 ∧
      (∀ other, tree.Reachable other → tree.Holds other id → other = holder) ∧
      tree.parent? id = some holder

namespace WellFormed

/-- A held node names its holder. -/
theorem parent?_of_holds (wf : tree.WellFormed) (reach : tree.Reachable holder)
    (holds : tree.Holds holder held) : tree.parent? held = some holder := by
  have notRoot : held ≠ Tree.root := by
    rintro rfl
    exact wf.root_free holder reach holds
  obtain ⟨only, -, -, unique, named⟩ := wf.held_once held (Reachable.child reach holds) notRoot
  rw [named, unique holder reach holds]

/-- No node is held twice by one node. -/
theorem nodup_walkChildren (wf : tree.WellFormed) (reach : tree.Reachable holder) :
    (tree.walkChildren holder).Nodup := by
  rw [List.nodup_iff_count_le_one]
  intro held
  by_cases holds : tree.Holds holder held
  · have notRoot : held ≠ Tree.root := by
      rintro rfl
      exact wf.root_free holder reach holds
    obtain ⟨only, -, once, unique, -⟩ := wf.held_once held (Reachable.child reach holds) notRoot
    rw [unique holder reach holds]
    exact Nat.le_of_eq once
  · rw [List.count_eq_zero_of_not_mem holds]
    exact Nat.zero_le 1

/-- No node is held by two nodes. -/
theorem holder_unique (wf : tree.WellFormed) {other : NodeId} (reach : tree.Reachable holder)
    (holds : tree.Holds holder held) (reach' : tree.Reachable other)
    (holds' : tree.Holds other held) : holder = other :=
  Option.some.inj
    ((wf.parent?_of_holds reach holds).symm.trans (wf.parent?_of_holds reach' holds'))

/-- A held node has a slot. -/
theorem lt_size_of_holds (wf : tree.WellFormed) (reach : tree.Reachable holder)
    (holds : tree.Holds holder held) : held < tree.size := by
  obtain ⟨node, slot, -⟩ := exists_of_parent? (wf.parent?_of_holds reach holds)
  exact lt_size slot

/-- Well-formedness from what each reachable node says of the nodes that it holds. -/
theorem of_links
    (run_fragment : ∀ id name run children, tree.Reachable id →
      tree.kind? id = some (.element name run children) →
      ∃ items, tree.kind? run = some (.fragment items))
    (root_free : ∀ holder, tree.Reachable holder → ¬ tree.Holds holder Tree.root)
    (nodup : ∀ holder, tree.Reachable holder → (tree.walkChildren holder).Nodup)
    (named : ∀ holder held, tree.Reachable holder → tree.Holds holder held →
      tree.parent? held = some holder) : tree.WellFormed := by
  refine ⟨run_fragment, root_free, fun id reach notRoot => ?_⟩
  obtain ⟨holder, reachHolder, holds⟩ := reach.exists_holder notRoot
  refine ⟨holder, reachHolder, List.count_eq_one_of_mem (nodup holder reachHolder) holds, ?_,
    named holder id reachHolder holds⟩
  intro other reachOther holdsOther
  have same := (named other id reachOther holdsOther).symm.trans (named holder id reachHolder holds)
  exact Option.some.inj same

/-- A list that holds the root and is closed under holding shows a tree to be well-formed when its
members are as they should be. -/
theorem of_closed (nodes : List NodeId) (start : Tree.root ∈ nodes)
    (closed : ∀ id ∈ nodes, ∀ held ∈ tree.walkChildren id, held ∈ nodes ∧ held ≠ Tree.root ∧
      tree.parent? held = some id)
    (nodup : ∀ id ∈ nodes, (tree.walkChildren id).Nodup)
    (runs : ∀ id ∈ nodes, ∀ run ∈ tree.attributeRun? id,
      tree.kind? run = some (.fragment (tree.content run))) : tree.WellFormed := by
  have inside : ∀ id, tree.Reachable id → id ∈ nodes := fun id reach =>
    reach.mem_of_closed nodes start fun holder member held holds =>
      (closed holder member held holds).1
  refine of_links ?_ ?_ (fun holder reach => nodup holder (inside holder reach)) ?_
  · intro id name run children reach known
    exact ⟨_, runs id (inside id reach) run (attributeRun?_of_kind? known)⟩
  · intro holder reach holds
    exact (closed holder (inside holder reach) _ holds).2.1 rfl
  · intro holder held reach holds
    exact (closed holder (inside holder reach) held holds).2.2

/-! ## Attribute runs -/

/-- The attribute run of a reachable element is a fragment. -/
theorem kind?_attributeRun (wf : tree.WellFormed) {run : NodeId} (reach : tree.Reachable id)
    (element : tree.attributeRun? id = some run) :
    tree.kind? run = some (.fragment (tree.content run)) := by
  obtain ⟨name, children, known⟩ := kind?_of_attributeRun? element
  obtain ⟨items, fragment⟩ := wf.run_fragment id name run children reach known
  rw [fragment, content_of_kind? fragment]
  rfl

/-- A reachable node other than the root has a slot. -/
theorem lt_size_of_reachable (wf : tree.WellFormed) (reach : tree.Reachable id)
    (notRoot : id ≠ Tree.root) : id < tree.size := by
  obtain ⟨holder, reach, holds⟩ := reach.exists_holder notRoot
  exact wf.lt_size_of_holds reach holds

/-- The items of an attribute run are its children in a walk. -/
theorem walkChildren_attributeRun (wf : tree.WellFormed) {run : NodeId} (reach : tree.Reachable id)
    (element : tree.attributeRun? id = some run) : tree.walkChildren run = tree.content run :=
  walkChildren_of_kind? (wf.kind?_attributeRun reach element)

theorem attributeChildren_eq (wf : tree.WellFormed) {run : NodeId} (reach : tree.Reachable id)
    (element : tree.attributeRun? id = some run) :
    tree.attributeChildren id = tree.walkChildren run := by
  rw [attributeChildren, element, Option.map_some, Option.getD_some,
    wf.walkChildren_attributeRun reach element]

/-- What stands in an attribute run is shown by the run. -/
theorem shows_attributeRun (wf : tree.WellFormed) {run : NodeId} (reach : tree.Reachable id)
    (element : tree.attributeRun? id = some run) (holds : tree.Holds run held) :
    tree.Shows run held := by
  refine ⟨?_, holds⟩
  rw [isExpression, wf.kind?_attributeRun reach element]
  rfl

/-- A run is a fragment and no element. -/
theorem attributeRun?_run (wf : tree.WellFormed) {run : NodeId} (reach : tree.Reachable id)
    (element : tree.attributeRun? id = some run) : tree.attributeRun? run = none := by
  rw [attributeRun?, wf.kind?_attributeRun reach element]

/-- A run is held by an element and so by no run. -/
theorem not_holds_run (wf : tree.WellFormed) {run other run' : NodeId} (reach : tree.Reachable id)
    (element : tree.attributeRun? id = some run) (reach' : tree.Reachable other)
    (element' : tree.attributeRun? other = some run') : ¬ tree.Holds run' run := by
  intro inside
  have same := wf.holder_unique reach (holds_attributeRun? element).2
    (reach'.child (holds_attributeRun? element').2) inside
  have noElement := wf.attributeRun?_run reach' element'
  rw [← same, element] at noElement
  cases noElement

end WellFormed

end Tree

end Templating.Markup
