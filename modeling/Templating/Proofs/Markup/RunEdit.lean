import Templating.Proofs.Markup.RunKept

/-!
# Edits of a tree as functions

Each edit that a visit makes, run on a tree where it succeeds, as the tree that it leaves. Whatever
happens to an attribute run is `Tree.rerun`: new nodes take the next slots, and the run gets other
items. Everything else sets the kind of one slot.

* `setAttribute_of_missing`, `setAttribute_of_found`: setting an attribute;
* `replaceAttributeChildren_grow`: putting a run together anew;
* `Tree.touched_rerun`, `Tree.touched_of_slots`: both kinds of change touch only a footprint.
-/

namespace Templating.Markup

open Templating.Text

/-- An attribute with a literal name and a value in double quotes. -/
def NodeKind.literal (name value : String) : NodeKind :=
  .attr (.text name) (some (.text value)) (some '"')

/-! ## Other items in a run -/

namespace Tree

/-- The tree with other items in an attribute run, of which the new ones take the next slots. -/
def rerun (tree : Tree) (run : NodeId) (added : List NodeKind) (items : List NodeId) : Tree :=
  Tree.setKind ⟨tree.nodes ++ (added.map fun kind => (⟨kind, some run⟩ : Node)).toArray⟩ run
    (.fragment items)

variable {tree : Tree} {id run : NodeId} (added : List NodeKind) (items : List NodeId)

theorem size_rerun (tree : Tree) (run : NodeId) :
    (tree.rerun run added items).size = tree.size + added.length := by
  rw [rerun, size_setKind]
  simp [size]

theorem get?_append_of_lt (nodes : List Node) (inside : id < tree.size) :
    (Tree.mk (tree.nodes ++ nodes.toArray)).get? id = tree.get? id :=
  Array.getElem?_append_left inside

theorem get?_append_of_le (nodes : List Node) (beyond : tree.size ≤ id) :
    (Tree.mk (tree.nodes ++ nodes.toArray)).get? id = nodes[id - tree.size]? := by
  rw [get?, Array.getElem?_append_right beyond, List.getElem?_toArray]
  rfl

/-- The run has its new items. -/
theorem get?_rerun_run (inside : run < tree.size) :
    (tree.rerun run added items).get? run =
      (tree.get? run).map fun node => ⟨.fragment items, node.parent⟩ := by
  rw [rerun, get?_setKind, if_pos rfl, get?_append_of_lt _ inside]

/-- The other old slots are kept. -/
theorem get?_rerun_of_lt (inside : id < tree.size) (other : id ≠ run) :
    (tree.rerun run added items).get? id = tree.get? id := by
  rw [rerun, get?_setKind, if_neg other.symm, get?_append_of_lt _ inside]

/-- The new slots are held by the run. -/
theorem get?_rerun_of_le (inside : run < tree.size) (beyond : tree.size ≤ id) :
    (tree.rerun run added items).get? id =
      (added[id - tree.size]?).map fun kind => ⟨kind, some run⟩ := by
  have other : run ≠ id := Nat.ne_of_lt (Nat.lt_of_lt_of_le inside beyond)
  rw [rerun, get?_setKind, if_neg other, get?_append_of_le _ beyond, List.getElem?_map]

variable {added : List NodeKind} {items : List NodeId}

theorem content_rerun {old : List NodeId} (fragment : tree.kind? run = some (.fragment old)) :
    (tree.rerun run added items).content run = items := by
  obtain ⟨node, slot, -⟩ := exists_of_kind? fragment
  have now := get?_rerun_run added items (lt_size slot)
  rw [slot, Option.map_some] at now
  rw [content_of_kind? (kind?_of_get? now)]
  rfl

/-- Two changes of one run are one. -/
theorem rerun_rerun {more : List NodeKind} {items' : List NodeId} (inside : run < tree.size) :
    (tree.rerun run added items).rerun run more items' = tree.rerun run (added ++ more) items' := by
  have grown : tree.size ≤ (tree.rerun run added items).size := by
    rw [size_rerun]
    exact Nat.le_add_right _ _
  have inside' := Nat.lt_of_lt_of_le inside grown
  refine ext_get? fun slot => ?_
  by_cases isRun : slot = run
  · subst isRun
    rw [get?_rerun_run _ _ inside', get?_rerun_run _ _ inside, get?_rerun_run _ _ inside,
      Option.map_map]
    rfl
  · by_cases old : slot < tree.size
    · rw [get?_rerun_of_lt _ _ (Nat.lt_of_lt_of_le old grown) isRun, get?_rerun_of_lt _ _ old isRun,
        get?_rerun_of_lt _ _ old isRun]
    · have beyond := Nat.le_of_not_lt old
      rw [get?_rerun_of_le (added ++ more) items' inside beyond]
      by_cases first : slot < (tree.rerun run added items).size
      · rw [get?_rerun_of_lt _ _ first isRun, get?_rerun_of_le _ _ inside beyond,
          List.getElem?_append_left]
        rw [size_rerun] at first
        exact Nat.sub_lt_left_of_lt_add beyond first
      · have beyond' := Nat.le_of_not_lt first
        rw [get?_rerun_of_le _ _ inside' beyond', List.getElem?_append_right]
        · rw [size_rerun, Nat.sub_add_eq]
        · rw [size_rerun] at beyond'
          exact Nat.le_sub_of_add_le' beyond'

/-- Nothing but the run has other children. -/
theorem walkChildren_rerun (inside : run < tree.size) (leaves : ∀ kind ∈ added, kind.IsLeaf)
    (other : id ≠ run) : (tree.rerun run added items).walkChildren id = tree.walkChildren id := by
  by_cases old : id < tree.size
  · rw [walkChildren, kind?, get?_rerun_of_lt _ _ old other]
    rfl
  · have beyond := Nat.le_of_not_lt old
    rw [walkChildren, walkChildren, kind?, kind?, get?_rerun_of_le _ _ inside beyond,
      get?_eq_none beyond]
    cases new : added[id - tree.size]? with
    | none => rfl
    | some kind =>
      exact (leaves kind (List.mem_of_getElem? new)).walkChildren_eq

/-- Other items in the run of a visited element are within what a visit may do. -/
theorem touched_rerun (wf : tree.WellFormed) (reach : tree.Reachable id)
    (element : tree.attributeRun? id = some run) (leaves : ∀ kind ∈ added, kind.IsLeaf)
    (nodup : items.Nodup)
    (known : ∀ item ∈ items, item ∈ tree.content run ∨
      (tree.size ≤ item ∧ item < tree.size + added.length))
    (kept : ∀ item ∈ tree.content run, tree.isBlankText item = false → item ∈ items) :
    tree.Touched id (tree.rerun run added items) := by
  have fragment := wf.kind?_attributeRun reach element
  obtain ⟨node, slot, isFragment⟩ := exists_of_kind? fragment
  have inside := lt_size slot
  have now := get?_rerun_run added items inside
  rw [slot, Option.map_some] at now
  refine ⟨⟨?_, ?_, ?_⟩, ?_, ?_, ?_⟩
  · rw [size_rerun]
    exact Nat.le_add_right _ _
  · intro other node' slot'
    by_cases isRun : other = run
    · subst isRun
      obtain rfl : node = node' := Option.some.inj (slot.symm.trans slot')
      exact ⟨_, now, isFragment ▸ .items⟩
    · exact ⟨node'.kind, (get?_rerun_of_lt _ _ (lt_size slot') isRun).trans slot', .same _⟩
  · intro other node beyond slot
    rw [get?_rerun_of_le _ _ inside beyond] at slot
    obtain ⟨kind, found, rfl⟩ := Option.map_eq_some_iff.mp slot
    exact leaves kind (List.mem_of_getElem? found)
  · intro other old outside
    refine get?_rerun_of_lt _ _ old ?_
    rintro rfl
    obtain ⟨name, children, is⟩ := kind?_of_attributeRun? element
    rw [footprint, is] at outside
    exact outside List.mem_cons_self
  · intro other notRun
    refine walkChildren_rerun inside leaves ?_
    rintro rfl
    exact notRun element
  · intro run' element'
    obtain rfl : run = run' := Option.some.inj (element.symm.trans element')
    have children : (tree.rerun run added items).walkChildren run = items :=
      walkChildren_of_get? now
    rw [children, wf.walkChildren_attributeRun reach element]
    refine ⟨nodup, fun item member => ?_, kept⟩
    refine (known item member).imp_right fun ⟨beyond, bounded⟩ => ⟨beyond, ?_⟩
    have new := get?_rerun_of_le added items inside beyond
    have index : item - tree.size < added.length := Nat.sub_lt_left_of_lt_add beyond bounded
    rw [List.getElem?_eq_getElem index, Option.map_some] at new
    exact parent?_of_get? new

/-- Rewriting leaves of the footprint is within what a visit may do. -/
theorem touched_of_slots {after : Tree} (wf : tree.WellFormed) (reach : tree.Reachable id)
    (size_eq : after.size = tree.size)
    (slots : ∀ other node, tree.get? other = some node → ∃ kind,
      after.get? other = some ⟨kind, node.parent⟩ ∧ (kind = node.kind ∨
        (other ∈ tree.footprint id ∧ node.kind.IsLeaf ∧ NodeKind.Retouch node.kind kind))) :
    tree.Touched id after := by
  have none_of_none : ∀ other, tree.get? other = none → after.get? other = none := by
    intro other slot
    have beyond := size_le_of_kind?_eq_none (by rw [kind?, slot, Option.map_none])
    exact get?_eq_none (size_eq ▸ beyond)
  have children : ∀ other, after.walkChildren other = tree.walkChildren other := by
    intro other
    cases slot : tree.get? other with
    | none => rw [walkChildren, walkChildren, kind?, kind?, slot, none_of_none other slot]
    | some node =>
      obtain ⟨kind, changed, same | ⟨-, leaf, retouch⟩⟩ := slots other node slot
      · rw [walkChildren_of_get? changed, walkChildren_of_get? slot, same]
      · have leaf' : kind.IsLeaf := by rwa [NodeKind.IsLeaf, retouch.shape_eq]
        rw [walkChildren_of_get? changed, walkChildren_of_get? slot, leaf.walkChildren_eq,
          leaf'.walkChildren_eq]
  refine ⟨⟨Nat.le_of_eq size_eq.symm, ?_, ?_⟩, ?_, fun other _ => children other, ?_⟩
  · intro other node slot
    obtain ⟨kind, changed, rfl | ⟨-, -, retouch⟩⟩ := slots other node slot
    · exact ⟨node.kind, changed, .same _⟩
    · exact ⟨kind, changed, retouch⟩
  · intro other node beyond slot
    exact absurd (lt_size slot) (Nat.not_lt_of_le (size_eq ▸ beyond))
  · intro other _ outside
    cases slot : tree.get? other with
    | none => exact none_of_none other slot
    | some node =>
      obtain ⟨kind, changed, rfl | ⟨member, -⟩⟩ := slots other node slot
      · exact changed
      · exact absurd member outside
  · intro run element
    rw [children]
    exact ⟨wf.nodup_walkChildren (reach.child (holds_attributeRun? element).2),
      fun _ member => .inl member, fun _ member _ => member⟩

/-- Rewriting one leaf of the footprint is within what a visit may do. -/
theorem touched_setKind {other : NodeId} {kind kind' : NodeKind} (wf : tree.WellFormed)
    (reach : tree.Reachable id) (known : tree.kind? other = some kind)
    (member : other ∈ tree.footprint id) (leaf : kind.IsLeaf)
    (retouch : NodeKind.Retouch kind kind') : tree.Touched id (tree.setKind other kind') := by
  refine touched_of_slots wf reach (size_setKind ..) fun slot node found => ?_
  rw [get?_setKind, found, Option.map_some]
  split
  · rename_i same
    subst same
    obtain rfl : node.kind = kind := Option.some.inj ((kind?_of_get? found).symm.trans known)
    exact ⟨kind', rfl, .inr ⟨member, leaf, retouch⟩⟩
  · exact ⟨node.kind, rfl, .inl rfl⟩

end Tree

/-! ## Primitive edits -/

namespace Edit

variable {α β : Type} {tree after : Tree} {id run : NodeId}

/-- An edit goes on from the tree that its first part leaves. -/
theorem bind_of_ok {edit : Edit α} {next : α → Edit β} {value : α}
    (outcome : edit tree = .ok value after) : (edit >>= next) tree = next value after := by
  simp only [bind, EStateM.bind, outcome]

theorem get_bind (next : Tree → Edit β) : (get >>= next) tree = next tree tree := rfl

theorem kindOf_of_kind? {kind : NodeKind} (known : tree.kind? id = some kind) :
    kindOf id tree = .ok kind tree := by
  simp only [kindOf, known]

theorem require_of_kind? {kind : NodeKind} (known : tree.kind? id = some kind) :
    require id tree = .ok () tree :=
  bind_of_ok (kindOf_of_kind? known)

theorem attributeRun_of_attributeRun? (element : tree.attributeRun? id = some run) :
    attributeRun id tree = .ok run tree := by
  obtain ⟨name, children, known⟩ := Tree.kind?_of_attributeRun? element
  exact bind_of_ok (kindOf_of_kind? known)

theorem setText_of_text {old : String} (known : tree.kind? id = some (.text old))
    (content : String) : setText id content tree = .ok () (tree.setKind id (.text content)) :=
  bind_of_ok (kindOf_of_kind? known)

theorem setValue_of_attr {name : AttrPart} {value : Option AttrPart} {quote : Option Char}
    (known : tree.kind? id = some (.attr name value quote)) (new : String) :
    setValue id new tree =
      .ok () (tree.setKind id (.attr name (some (.text new)) (some (quote.getD '"')))) :=
  bind_of_ok (kindOf_of_kind? known)

theorem appendChild_of_fragment {items : List NodeId} {child : NodeId} {kind : NodeKind}
    (fragment : tree.kind? run = some (.fragment items)) (known : tree.kind? child = some kind) :
    appendChild run child tree =
      .ok () ((tree.setKind run (.fragment (items ++ [child]))).setParent child run) := by
  rw [appendChild, bind_of_ok (kindOf_of_kind? fragment)]
  exact bind_of_ok (require_of_kind? known)

/-- A node that has just been made becomes the last item of the run. -/
theorem appendAttribute_push {items : List NodeId} (element : tree.attributeRun? id = some run)
    (fragment : tree.kind? run = some (.fragment items)) (kind : NodeKind) :
    appendAttribute id tree.size (tree.push kind) =
      .ok () (tree.rerun run [kind] (items ++ [tree.size])) := by
  obtain ⟨name, children, known⟩ := Tree.kind?_of_attributeRun? element
  obtain ⟨node, slot, -⟩ := Tree.exists_of_kind? known
  obtain ⟨runNode, runSlot, -⟩ := Tree.exists_of_kind? fragment
  have old : ∀ {other}, other < tree.size → (tree.push kind).get? other = tree.get? other := by
    intro other inside
    rw [Tree.get?_push, if_neg (Nat.ne_of_lt inside)]
  have new : (tree.push kind).get? tree.size = some ⟨kind, none⟩ := by
    rw [Tree.get?_push, if_pos rfl]
  have isElement : (tree.push kind).kind? id = some (.element name run children) := by
    rw [Tree.kind?, old (Tree.lt_size slot)]
    exact known
  have element' := Tree.attributeRun?_of_kind? isElement
  have fragment' : (tree.push kind).kind? run = some (.fragment items) := by
    rw [Tree.kind?, old (Tree.lt_size runSlot)]
    exact fragment
  rw [appendAttribute, bind_of_ok (attributeRun_of_attributeRun? element'),
    appendChild_of_fragment fragment' (Tree.kind?_of_get? new)]
  congr 1
  refine Tree.ext_get? fun other => ?_
  have runOther : tree.size ≠ run := (Nat.ne_of_lt (Tree.lt_size runSlot)).symm
  rw [Tree.get?_setParent, Tree.get?_setKind]
  by_cases inside : other < tree.size
  · rw [if_neg (Nat.ne_of_lt inside).symm, old inside]
    by_cases isRun : run = other
    · subst isRun
      rw [if_pos rfl, Tree.get?_rerun_run _ _ inside]
    · rw [if_neg isRun, Tree.get?_rerun_of_lt _ _ inside (Ne.symm isRun)]
  · have beyond := Nat.le_of_not_lt inside
    rw [Tree.get?_rerun_of_le _ _ (Tree.lt_size runSlot) beyond]
    by_cases last : tree.size = other
    · subst last
      rw [if_pos rfl, if_neg runOther.symm, new, Nat.sub_self]
      rfl
    · have past : tree.size + 1 ≤ other := Nat.lt_of_le_of_ne beyond last
      have isRun : run ≠ other := Nat.ne_of_lt (Nat.lt_of_lt_of_le (Tree.lt_size runSlot) beyond)
      rw [if_neg last, if_neg isRun, Tree.get?_eq_none (by rw [Tree.size_push]; exact past),
        List.getElem?_eq_none (Nat.le_sub_of_add_le' past)]
      rfl

end Edit

/-! ## Setting an attribute -/

namespace Tree

variable {tree : Tree} {id run : NodeId} (added : List NodeKind) (items : List NodeId)

theorem kind?_rerun_run {old : List NodeId} (fragment : tree.kind? run = some (.fragment old)) :
    (tree.rerun run added items).kind? run = some (.fragment items) := by
  obtain ⟨node, slot, -⟩ := exists_of_kind? fragment
  rw [kind?, get?_rerun_run _ _ (lt_size slot), slot]
  rfl

theorem attributeRun?_rerun {old : List NodeId} (element : tree.attributeRun? id = some run)
    (fragment : tree.kind? run = some (.fragment old)) :
    (tree.rerun run added items).attributeRun? id = some run := by
  obtain ⟨name, children, known⟩ := kind?_of_attributeRun? element
  obtain ⟨node, slot, -⟩ := exists_of_kind? known
  have other : id ≠ run := by
    rintro rfl
    rw [known] at fragment
    cases fragment
  have isElement : (tree.rerun run added items).kind? id = some (.element name run children) := by
    rw [kind?, get?_rerun_of_lt _ _ (lt_size slot) other]
    exact known
  exact attributeRun?_of_kind? isElement

theorem kind?_setKind_of_ne {other : NodeId} {kind : NodeKind} (distinct : id ≠ other) :
    (tree.setKind id kind).kind? other = tree.kind? other := by
  rw [kind?, kind?, get?_setKind, if_neg distinct]

/-- A new slot holds the node that was added for it. -/
theorem kind?_rerun_add (inside : run < tree.size) (index : Nat) :
    (tree.rerun run added items).kind? (tree.size + index) = added[index]? := by
  rw [kind?, get?_rerun_of_le _ _ inside (Nat.le_add_right _ _), Option.map_map,
    Nat.add_sub_cancel_left]
  exact Option.map_id'

variable {added : List NodeKind} {items : List NodeId}

theorem attributeChildren_rerun {old : List NodeId} (element : tree.attributeRun? id = some run)
    (fragment : tree.kind? run = some (.fragment old)) :
    (tree.rerun run added items).attributeChildren id = items := by
  rw [attributeChildren, attributeRun?_rerun _ _ element fragment, Option.map_some,
    Option.getD_some, content_rerun fragment]

/-- What has to be seen of the new items of a run for the run to be kept. -/
theorem runKept_of_rerun {after : Tree} {kinds : List NodeKind} (new : List NodeId)
    (wf : tree.WellFormed) (reach : tree.Reachable id) (element : tree.attributeRun? id = some run)
    (edited : after = tree.rerun run added items)
    (attributes : (items.filter after.isAttribute).Perm (tree.runAttributes id ++ new))
    (fresh : ∀ item ∈ new, tree.size ≤ item)
    (allowed : (new.map after.kind?).Sublist (kinds.map some))
    (others : items.filter after.isOtherRunChild = tree.otherRunChildren id) :
    tree.RunKept after id kinds none := by
  have children : after.attributeChildren id = items := by
    rw [edited, attributeChildren_rerun element (wf.kind?_attributeRun reach element)]
  refine ⟨⟨new, ?_, fresh, allowed⟩, fun item member _ => ?_, ?_⟩
  · rwa [runAttributes, children]
  · have child := (List.mem_filter.mp member).1
    have inside := wf.lt_size_of_mem_attributeChildren reach child
    have notRun := ne_of_mem_attributeChildren wf reach element child
    rw [edited, kind?, kind?, get?_rerun_of_lt _ _ inside notRun]
  · rwa [otherRunChildren, children]

/-- What is put in front of an attribute that is added to the run of an element. -/
def lead (tree : Tree) (id : NodeId) : List NodeKind :=
  if tree.runEndsBlank id then [] else [.text separator]

/-- The tree with one more attribute at the end of the run of an element. -/
def withAttribute (tree : Tree) (id run : NodeId) (name value : String) : Tree :=
  tree.rerun run (tree.lead id ++ [.literal name value])
    (tree.content run ++ List.range' tree.size ((tree.lead id).length + 1))

end Tree

namespace Edit

variable {tree : Tree} {id run : NodeId} {name value : String}

/-- A new node is made and becomes the last item of the run. -/
theorem alloc_appendAttribute {items : List NodeId} (element : tree.attributeRun? id = some run)
    (fragment : tree.kind? run = some (.fragment items)) (kind : NodeKind) :
    (alloc kind >>= fun added => appendAttribute id added >>= fun _ => pure added : Edit NodeId)
        tree = .ok tree.size (tree.rerun run [kind] (items ++ [tree.size])) := by
  have made : (alloc kind : Edit NodeId) tree = .ok tree.size (tree.push kind) := rfl
  rw [bind_of_ok made, bind_of_ok (appendAttribute_push element fragment kind)]
  rfl

/-- **Adding an attribute.** One that the run does not hold is made, behind a separator unless the
run ends in blank text, and becomes the last item. -/
theorem setAttribute_of_missing (element : tree.attributeRun? id = some run)
    (fragment : tree.kind? run = some (.fragment (tree.content run)))
    (missing : tree.findAttribute id name = none) :
    setAttribute id name value tree =
      .ok (tree.size + (tree.lead id).length) (tree.withAttribute id run name value) := by
  obtain ⟨tag, children, known⟩ := Tree.kind?_of_attributeRun? element
  obtain ⟨runNode, runSlot, -⟩ := Tree.exists_of_kind? fragment
  have start : setAttribute id name value tree = (do
      unless tree.runEndsBlank id do
        appendAttribute id (← newText separator)
      let added ← newAttribute name (some value)
      appendAttribute id added
      return added : Edit NodeId) tree := by
    rw [setAttribute, bind_of_ok (require_of_kind? known), get_bind]
    simp only [missing]
  rw [start, Tree.withAttribute, Tree.lead]
  cases blank : tree.runEndsBlank id with
  | true => exact alloc_appendAttribute element fragment _
  | false =>
    have element' := Tree.attributeRun?_rerun [.text separator]
      (tree.content run ++ [tree.size]) element fragment
    have fragment' := Tree.kind?_rerun_run [.text separator]
      (tree.content run ++ [tree.size]) fragment
    have made : (newText separator : Edit NodeId) tree =
      .ok tree.size (tree.push (.text separator)) := rfl
    simp only [Bool.false_eq_true, if_false]
    rw [bind_of_ok made, bind_of_ok (appendAttribute_push element fragment _)]
    refine (alloc_appendAttribute element' fragment' _).trans ?_
    rw [Tree.rerun_rerun (Tree.lt_size runSlot), Tree.size_rerun, List.append_assoc]
    rfl

/-- An attribute that the run holds gets the value. -/
theorem setAttribute_of_found {item : NodeId} {part : AttrPart} {old : Option AttrPart}
    {quote : Option Char} (element : tree.attributeRun? id = some run)
    (found : tree.findAttribute id name = some item)
    (known : tree.kind? item = some (.attr part old quote)) :
    setAttribute id name value tree =
      .ok item (tree.setKind item (.attr part (some (.text value)) (some (quote.getD '"')))) := by
  obtain ⟨tag, children, isElement⟩ := Tree.kind?_of_attributeRun? element
  rw [setAttribute, bind_of_ok (require_of_kind? isElement), get_bind]
  simp only [found]
  exact bind_of_ok (setValue_of_attr known value)

end Edit

/-! ## Runs that are put together anew -/

namespace Tree

variable {tree : Tree} {id run : NodeId} {added : List NodeKind}

/-- The tree with new nodes in the next slots that nothing holds. -/
def grow (tree : Tree) (added : List NodeKind) : Tree :=
  ⟨tree.nodes ++ (added.map fun kind => (⟨kind, none⟩ : Node)).toArray⟩

theorem grow_push (kind : NodeKind) : (tree.push kind).grow added = tree.grow (kind :: added) := by
  simp [grow, push]

theorem get?_grow_of_lt (inside : id < tree.size) : (tree.grow added).get? id = tree.get? id :=
  get?_append_of_lt _ inside

theorem get?_grow_of_le (beyond : tree.size ≤ id) :
    (tree.grow added).get? id = (added[id - tree.size]?).map fun kind => ⟨kind, none⟩ := by
  rw [grow, get?_append_of_le _ beyond, List.getElem?_map]

theorem kind?_grow_of_kind? {kind : NodeKind} (known : tree.kind? id = some kind) :
    (tree.grow added).kind? id = some kind := by
  obtain ⟨node, slot, rfl⟩ := exists_of_kind? known
  exact kind?_of_get? ((get?_grow_of_lt (lt_size slot)).trans slot)

/-- Many nodes get one holder. -/
theorem get?_foldl_setParent (items : List NodeId) (tree : Tree) (run id : NodeId) :
    (items.foldl (fun changed child => changed.setParent child run) tree).get? id =
      if id ∈ items then (tree.get? id).map fun node => { node with parent := some run }
      else tree.get? id := by
  induction items generalizing tree with
  | nil => rfl
  | cons item rest ih =>
    rw [List.foldl_cons, ih, get?_setParent]
    by_cases first : item = id
    · subst first
      rw [if_pos rfl, if_pos List.mem_cons_self, Option.map_map]
      exact ite_self _
    · rw [if_neg first]
      simp only [List.mem_cons, Ne.symm first, false_or]

end Tree

namespace Edit

variable {tree : Tree} {id run : NodeId}

theorem forM_require {items : List NodeId}
    (known : ∀ item ∈ items, ∃ kind, tree.kind? item = some kind) :
    items.forM require tree = .ok () tree := by
  induction items with
  | nil => rfl
  | cons item rest ih =>
    obtain ⟨kind, slot⟩ := known item List.mem_cons_self
    exact (bind_of_ok (require_of_kind? slot)).trans
      (ih fun other member => known other (List.mem_cons_of_mem _ member))

/-- **Putting a run together anew**, when each new node stands in it. -/
theorem replaceAttributeChildren_grow {added : List NodeKind} {old items : List NodeId}
    (element : tree.attributeRun? id = some run) (fragment : tree.kind? run = some (.fragment old))
    (known : ∀ item ∈ items, tree.parent? item = some run ∨
      (tree.size ≤ item ∧ item < tree.size + added.length))
    (all : ∀ item, tree.size ≤ item → item < tree.size + added.length → item ∈ items)
    (notRun : run ∉ items) :
    replaceAttributeChildren id items (tree.grow added) = .ok () (tree.rerun run added items) := by
  obtain ⟨name, children, isElement⟩ := Tree.kind?_of_attributeRun? element
  obtain ⟨runNode, runSlot, -⟩ := Tree.exists_of_kind? fragment
  have inside := Tree.lt_size runSlot
  have element' : (tree.grow added).attributeRun? id = some run :=
    Tree.attributeRun?_of_kind? (Tree.kind?_grow_of_kind? isElement)
  have slots : ∀ item ∈ items, ∃ kind, (tree.grow added).kind? item = some kind := by
    intro item member
    rcases known item member with named | ⟨beyond, bounded⟩
    · obtain ⟨node, slot, -⟩ := Tree.exists_of_parent? named
      exact ⟨_, Tree.kind?_grow_of_kind? (Tree.kind?_of_get? slot)⟩
    · have index : item - tree.size < added.length := Nat.sub_lt_left_of_lt_add beyond bounded
      rw [Tree.kind?, Tree.get?_grow_of_le beyond, List.getElem?_eq_getElem index]
      exact ⟨_, rfl⟩
  have fragment' : (items.foldl (fun changed child => changed.setParent child run)
      (tree.grow added)).kind? run = some (.fragment old) := by
    rw [Tree.kind?, Tree.get?_foldl_setParent, if_neg notRun]
    exact Tree.kind?_grow_of_kind? fragment
  rw [replaceAttributeChildren, bind_of_ok (attributeRun_of_attributeRun? element'),
    bind_of_ok (forM_require slots)]
  refine (bind_of_ok rfl).trans ((bind_of_ok (kindOf_of_kind? fragment')).trans ?_)
  refine congrArg (EStateM.Result.ok ()) (Tree.ext_get? fun other => ?_)
  rw [Tree.get?_setKind, Tree.get?_foldl_setParent]
  by_cases isRun : run = other
  · subst isRun
    rw [if_pos rfl, if_neg notRun, Tree.get?_grow_of_lt inside, Tree.get?_rerun_run _ _ inside]
  · rw [if_neg isRun]
    by_cases old : other < tree.size
    · rw [Tree.get?_grow_of_lt old, Tree.get?_rerun_of_lt _ _ old (Ne.symm isRun)]
      split
      · rename_i member
        -- An old item of the run names the run already.
        rcases known other member with named | ⟨beyond, -⟩
        · obtain ⟨node, slot, holder⟩ := Tree.exists_of_parent? named
          rw [slot, Option.map_some, ← holder]
        · exact absurd old (Nat.not_lt_of_le beyond)
      · rfl
    · have beyond := Nat.le_of_not_lt old
      rw [Tree.get?_grow_of_le beyond, Tree.get?_rerun_of_le _ _ inside beyond]
      by_cases bounded : other < tree.size + added.length
      · rw [if_pos (all other beyond bounded), Option.map_map]
        rfl
      · rw [List.getElem?_eq_none (Nat.le_sub_of_add_le' (Nat.le_of_not_lt bounded))]
        exact ite_self none

end Edit

end Templating.Markup
