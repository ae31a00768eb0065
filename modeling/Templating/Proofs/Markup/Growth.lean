import Templating.Markup.Parser
import Templating.Proofs.Markup.RunEdit

/-!
# What a token adds to a tree

A token adds slots at the end of the arena, of which one becomes the last child of the node that is
open. `Tree.attach` is that change and `Token.nodes` are the slots; `edited_addToken` says that the
edits of the parser make it, and so never fail.

`Tree.Linked` is well-formedness of all slots, reachable or not. What a token adds keeps it,
`Tree.Linked.addToken`.
-/

namespace Templating.Markup

open Edit

/-! ## Attaching -/

/-- The node with one more content child. -/
def NodeKind.withChild (child : NodeId) (kind : NodeKind) : NodeKind :=
  kind.withContent (kind.content?.getD [] ++ [child])

theorem NodeKind.walkChildren_withChild {kind : NodeKind} {children : List NodeId} {child : NodeId}
    (container : kind.content? = some children) :
    (kind.withChild child).walkChildren = kind.walkChildren ++ [child] := by
  cases kind with
  | element => rfl
  | fragment => rfl
  | expression => rfl
  | attr => cases container
  | text => cases container

theorem NodeKind.element_of_withChild {kind : NodeKind} {name : String} {run child : NodeId}
    {children : List NodeId} (grown : kind.withChild child = .element name run children) :
    ∃ children', kind = .element name run children' := by
  cases kind with
  | element name' run' children' =>
    obtain ⟨rfl, rfl, -⟩ := NodeKind.element.inj grown
    exact ⟨children', rfl⟩
  | fragment => cases grown
  | expression => cases grown
  | attr => cases grown
  | text => cases grown

namespace Tree

/-- The tree with more slots at its end, of which `child` becomes the last child of `holder`. -/
def attach (tree : Tree) (holder : NodeId) (added : List Node) (child : NodeId) : Tree :=
  ⟨(tree.nodes ++ added.toArray).modify holder fun node =>
    { node with kind := node.kind.withChild child }⟩

variable {tree : Tree} {id holder : NodeId} (added : List Node) (child : NodeId)

theorem get?_attach_holder (inside : holder < tree.size) :
    (tree.attach holder added child).get? holder =
      (tree.get? holder).map fun node => ⟨node.kind.withChild child, node.parent⟩ := by
  rw [get?, attach, Array.getElem?_modify, if_pos rfl, Array.getElem?_append_left inside]
  rfl

theorem get?_attach_of_lt (inside : id < tree.size) (other : id ≠ holder) :
    (tree.attach holder added child).get? id = tree.get? id := by
  rw [get?, attach, Array.getElem?_modify, if_neg other.symm, Array.getElem?_append_left inside]
  rfl

theorem get?_attach_of_le (inside : holder < tree.size) (beyond : tree.size ≤ id) :
    (tree.attach holder added child).get? id = added[id - tree.size]? := by
  have other : holder ≠ id := Nat.ne_of_lt (Nat.lt_of_lt_of_le inside beyond)
  rw [get?, attach, Array.getElem?_modify, if_neg other]
  exact get?_append_of_le added beyond

end Tree

namespace Edit

variable {tree : Tree} {holder child : NodeId} {kind : NodeKind} {children : List NodeId}

theorem appendChild_of_container {kind' : NodeKind} (known : tree.kind? holder = some kind)
    (container : kind.content? = some children) (known' : tree.kind? child = some kind') :
    appendChild holder child tree =
      .ok () ((tree.setKind holder (kind.withChild child)).setParent child holder) := by
  rw [appendChild, bind_of_ok (kindOf_of_kind? known)]
  simp only [container]
  refine (bind_of_ok (require_of_kind? known')).trans ?_
  rw [NodeKind.withChild, container]
  rfl

/-- A new node becomes the last child of an old one. -/
theorem appendChild_extended (before : List Node) {after : List Node} {node : Node}
    (known : tree.kind? holder = some kind) (container : kind.content? = some children) :
    appendChild holder (tree.size + before.length)
        ⟨tree.nodes ++ (before ++ node :: after).toArray⟩ =
      .ok () (tree.attach holder (before ++ { node with parent := some holder } :: after)
        (tree.size + before.length)) := by
  obtain ⟨slot, found, rfl⟩ := Tree.exists_of_kind? known
  have inside := Tree.lt_size found
  have beyond : tree.size ≤ tree.size + before.length := Nat.le_add_right _ _
  have isHolder := Tree.get?_append_of_lt (before ++ node :: after) inside
  have isNode := Tree.get?_append_of_le (before ++ node :: after) beyond
  rw [Nat.add_sub_cancel_left, List.getElem?_append_right (Nat.le_refl _), Nat.sub_self,
    List.getElem?_cons_zero] at isNode
  rw [appendChild_of_container (Tree.kind?_of_get? (isHolder.trans found)) container
    (Tree.kind?_of_get? isNode)]
  refine congrArg (EStateM.Result.ok ()) (Tree.ext_get? fun id => ?_)
  rw [Tree.get?_setParent, Tree.get?_setKind]
  by_cases old : id < tree.size
  · have notChild : tree.size + before.length ≠ id :=
      (Nat.ne_of_lt (Nat.lt_of_lt_of_le old beyond)).symm
    rw [if_neg notChild]
    by_cases same : holder = id
    · subst same
      rw [if_pos rfl, isHolder, Tree.get?_attach_holder _ _ inside, found]
      rfl
    · rw [if_neg same, Tree.get?_append_of_lt _ old, Tree.get?_attach_of_lt _ _ old (Ne.symm same)]
  · have new := Nat.le_of_not_lt old
    have notHolder : holder ≠ id := Nat.ne_of_lt (Nat.lt_of_lt_of_le inside new)
    rw [if_neg notHolder, Tree.get?_append_of_le _ new, Tree.get?_attach_of_le _ _ inside new]
    by_cases same : tree.size + before.length = id
    · subst same
      rw [if_pos rfl, Nat.add_sub_cancel_left]
      simp
    · rw [if_neg same]
      have index : id - tree.size ≠ before.length := fun last =>
        same (last ▸ Nat.add_sub_cancel' new)
      rcases Nat.lt_or_gt_of_ne index with first | last
      · rw [List.getElem?_append_left first, List.getElem?_append_left first]
      · obtain ⟨past, isPast⟩ : ∃ past, id - tree.size - before.length = past + 1 :=
          Nat.exists_eq_succ_of_ne_zero (Nat.sub_ne_zero_of_lt last)
        rw [List.getElem?_append_right (Nat.le_of_lt last),
          List.getElem?_append_right (Nat.le_of_lt last), isPast]
        rfl

end Edit

/-! ## Attribute runs -/

/-- The node that an item of an attribute run stands for. -/
def RunItem.kind : RunItem → NodeKind
  | .gap blanks => .text blanks
  | .attr name value => .attr (.text name) (value.map Prod.fst) (value.map Prod.snd)

theorem RunItem.walkChildren_kind (item : RunItem) : item.kind.walkChildren = [] := by
  cases item <;> rfl

/-- A run that gets the items which it has is kept. -/
theorem Tree.rerun_self {tree : Tree} {run : NodeId} {items : List NodeId}
    (fragment : tree.kind? run = some (.fragment items)) : tree.rerun run [] items = tree := by
  obtain ⟨node, slot, isFragment⟩ := Tree.exists_of_kind? fragment
  refine Tree.ext_get? fun id => ?_
  by_cases isRun : id = run
  · subst isRun
    rw [Tree.get?_rerun_run _ _ (Tree.lt_size slot), slot, ← isFragment]
    rfl
  · by_cases inside : id < tree.size
    · exact Tree.get?_rerun_of_lt _ _ inside isRun
    · have beyond := Nat.le_of_not_lt inside
      rw [Tree.get?_rerun_of_le _ _ (Tree.lt_size slot) beyond, Tree.get?_eq_none beyond]
      rfl

namespace Edit

variable {tree : Tree} {element run : NodeId}

theorem addRun_cons (item : RunItem) (rest : List RunItem) :
    addRun element (item :: rest) =
      (alloc item.kind >>= fun added => appendAttribute element added >>= fun _ =>
        addRun element rest) := by
  cases item <;> rfl

/-- The items of a run take the next slots, behind what the run holds already. -/
theorem addRun_eq {parts : List RunItem} {items : List NodeId}
    (isElement : tree.attributeRun? element = some run)
    (fragment : tree.kind? run = some (.fragment items)) :
    addRun element parts tree = .ok () (tree.rerun run (parts.map RunItem.kind)
      (items ++ List.range' tree.size parts.length)) := by
  induction parts generalizing tree items with
  | nil =>
    rw [List.map_nil, List.length_nil, List.range'_zero, List.append_nil, Tree.rerun_self fragment]
    rfl
  | cons item rest ih =>
    obtain ⟨node, slot, -⟩ := Tree.exists_of_kind? fragment
    have made : (alloc item.kind : Edit NodeId) tree = .ok tree.size (tree.push item.kind) := rfl
    rw [addRun_cons, bind_of_ok made,
      bind_of_ok (appendAttribute_push isElement fragment item.kind),
      ih (Tree.attributeRun?_rerun _ _ isElement fragment) (Tree.kind?_rerun_run _ _ fragment),
      Tree.rerun_rerun (Tree.lt_size slot), Tree.size_rerun, List.append_assoc]
    rfl

end Edit

/-! ## Tokens -/

/-- The slots of an element in a tree of this size: its attribute run, itself and the items. -/
def elementNodes (size : Nat) (name : String) (parts : List RunItem) (parent : Option NodeId) :
    List Node :=
  [⟨.fragment (List.range' (size + 2) parts.length), some (size + 1)⟩] ++
    ⟨.element name size [], parent⟩ :: parts.map fun item => ⟨item.kind, some size⟩

theorem elementNodes_item (size : Nat) (name : String) (parts : List RunItem)
    (parent : Option NodeId) (index : Nat) :
    (elementNodes size name parts parent)[index + 2]? =
      parts[index]?.map fun item => ⟨item.kind, some size⟩ :=
  List.getElem?_map

/-- The slots that a token takes in a tree of this size, when it is added to `holder`. -/
def Token.nodes (size : Nat) (holder : NodeId) : Token → List Node
  | .text content => [⟨.text content, some holder⟩]
  | .expression source => [⟨.expression source [], some holder⟩]
  | .startTag name run => elementNodes size name run (some holder)
  | .endTag _ => []

/-- The slot of the node that a token stands for. -/
def Token.node (size : Nat) : Token → NodeId
  | .startTag .. => size + 1
  | _ => size

/-- The tree with what a token stands for as the last child of `holder`. -/
def Tree.grown (tree : Tree) (holder : NodeId) (token : Token) : Tree :=
  tree.attach holder (token.nodes tree.size holder) (token.node tree.size)

namespace Edit

variable {tree : Tree} {holder : NodeId} {kind : NodeKind} {children : List NodeId}

theorem newElement_eq (tree : Tree) (name : String) :
    newElement name tree =
      .ok (tree.size + 1) ⟨tree.nodes ++ (elementNodes tree.size name [] none).toArray⟩ := by
  have pushed : newElement name tree = .ok (tree.size + 1)
      ((tree.push (.fragment []) (some (tree.size + 1))).push (.element name tree.size [])) := by
    rw [newElement, get_bind]
    refine (bind_of_ok rfl).trans ?_
    rw [alloc, Tree.size_push]
  rw [pushed, Tree.push, Tree.push, Array.push_eq_append, Array.push_eq_append, Array.append_assoc]
  rfl

/-- A new element gets its attribute run. -/
theorem addRun_newElement (tree : Tree) (name : String) (parts : List RunItem) :
    addRun (tree.size + 1) parts ⟨tree.nodes ++ (elementNodes tree.size name [] none).toArray⟩ =
      .ok () ⟨tree.nodes ++ (elementNodes tree.size name parts none).toArray⟩ := by
  let opened : Tree := ⟨tree.nodes ++ (elementNodes tree.size name [] none).toArray⟩
  have size : opened.size = tree.size + 2 := by
    simp [opened, Tree.size, elementNodes]
  have slots (index : Nat) :
      opened.get? (tree.size + index) = (elementNodes tree.size name [] none)[index]? := by
    rw [Tree.get?_append_of_le _ (Nat.le_add_right _ _), Nat.add_sub_cancel_left]
  have isRun : opened.kind? tree.size = some (.fragment []) := Tree.kind?_of_get? (slots 0)
  have isElement : opened.kind? (tree.size + 1) = some (.element name tree.size []) :=
    Tree.kind?_of_get? (slots 1)
  have inside : tree.size < opened.size := by
    rw [size]
    exact Nat.lt_add_of_pos_right Nat.zero_lt_two
  rw [addRun_eq (Tree.attributeRun?_of_kind? isElement) isRun, List.nil_append]
  refine congrArg (EStateM.Result.ok ()) (Tree.ext_get? fun id => ?_)
  by_cases old : id < tree.size
  · have other : id ≠ tree.size := Nat.ne_of_lt old
    rw [Tree.get?_rerun_of_lt _ _ (Nat.lt_trans old inside) other, Tree.get?_append_of_lt _ old,
      Tree.get?_append_of_lt _ old]
  · obtain ⟨index, rfl⟩ := Nat.exists_eq_add_of_le (Nat.le_of_not_lt old)
    rw [Tree.get?_append_of_le _ (Nat.le_add_right _ _), Nat.add_sub_cancel_left]
    rcases index with _ | _ | index
    · rw [Nat.add_zero, Tree.get?_rerun_run _ _ inside, ← Nat.add_zero tree.size, slots, size]
      rfl
    · have other : tree.size + 1 ≠ tree.size := Nat.succ_ne_self _
      rw [Tree.get?_rerun_of_lt _ _ (size ▸ Nat.lt_succ_self _) other, slots]
      rfl
    · have shift : tree.size + (index + 2) - opened.size = index := by
        rw [size]
        omega
      rw [Tree.get?_rerun_of_le _ _ inside (by rw [size]; omega), shift, List.getElem?_map,
        Option.map_map, elementNodes_item]
      rfl

/-- What the parser does for a token, short of an end tag, is to attach its nodes. -/
theorem edited_addToken {token : Token} (known : tree.kind? holder = some kind)
    (container : kind.content? = some children) (notEnd : ∀ written, token ≠ .endTag written) :
    edited (addToken holder token) tree =
      (token.node tree.size, tree.grown holder token) := by
  have leaf (kind' : NodeKind) :
      (alloc kind' >>= fun added => appendChild holder added >>= fun _ => pure added : Edit NodeId)
        tree = .ok tree.size (tree.attach holder [⟨kind', some holder⟩] tree.size) := by
    have made : (alloc kind' : Edit NodeId) tree =
        .ok tree.size ⟨tree.nodes ++ ([] ++ [(⟨kind', none⟩ : Node)]).toArray⟩ := by
      rw [alloc, Tree.push, Array.push_eq_append]
      rfl
    rw [bind_of_ok made]
    exact bind_of_ok (appendChild_extended [] known container)
  have added : addToken holder token tree =
      .ok (token.node tree.size) (tree.grown holder token) := by
    cases token with
    | text content => exact leaf (.text content)
    | expression source => exact leaf (.expression source [])
    | startTag name run =>
      rw [addToken, bind_of_ok (newElement_eq tree name),
        bind_of_ok (addRun_newElement tree name run)]
      exact bind_of_ok (appendChild_extended
        [⟨.fragment (List.range' (tree.size + 2) run.length), some (tree.size + 1)⟩]
        known container)
    | endTag written => exact absurd rfl (notEnd written)
  rw [edited, added]

end Edit

/-! ## Links between slots -/

namespace Tree

/-- Every slot, reachable or not, is as in a well-formed tree: runs are fragments, nothing holds the
root, and what is held is held once, by the slot that it names. -/
structure Linked (tree : Tree) : Prop where
  run_fragment : ∀ id name run children, tree.kind? id = some (.element name run children) →
    ∃ items, tree.kind? run = some (.fragment items)
  root_free : ∀ holder, ¬ tree.Holds holder root
  nodup : ∀ holder, (tree.walkChildren holder).Nodup
  named : ∀ holder held, tree.Holds holder held → tree.parent? held = some holder

theorem Linked.wellFormed {tree : Tree} (linked : tree.Linked) : tree.WellFormed :=
  WellFormed.of_links (fun id name run children _ => linked.run_fragment id name run children)
    (fun holder _ => linked.root_free holder) (fun holder _ => linked.nodup holder)
    (fun holder held _ => linked.named holder held)

theorem Linked.lt_size {tree : Tree} {holder held : NodeId} (linked : tree.Linked)
    (holds : tree.Holds holder held) : held < tree.size := by
  obtain ⟨node, slot, -⟩ := exists_of_parent? (linked.named holder held holds)
  exact Tree.lt_size slot

theorem linked_empty : empty.Linked := by
  have root (id : NodeId) (kind : NodeKind) (known : empty.kind? id = some kind) :
      kind = .fragment [] := by
    obtain ⟨node, slot, rfl⟩ := exists_of_kind? known
    obtain rfl : id = 0 := Nat.lt_one_iff.mp (Tree.lt_size slot)
    cases slot
    rfl
  have childless (id : NodeId) : empty.walkChildren id = [] := by
    cases known : empty.kind? id with
    | none => rw [walkChildren, known]; rfl
    | some kind => rw [walkChildren_of_kind? known, root id kind known]; rfl
  refine ⟨fun id name run children known => ?_, fun holder holds => ?_, fun holder => ?_,
    fun holder held holds => ?_⟩
  · cases root id _ known
  · rw [Holds, childless] at holds
    cases holds
  · rw [childless]
    exact List.nodup_nil
  · rw [Holds, childless] at holds
    cases holds

/-- New slots hold new slots only, and name their holders; the child names the old holder. -/
structure NewLinks (size : Nat) (holder : NodeId) (added : List Node) (child : NodeId) : Prop where
  child_named : ∃ offset node, child = size + offset ∧ added[offset]? = some node ∧
    node.parent = some holder
  run_fragment : ∀ node ∈ added, ∀ name run children, node.kind = .element name run children →
    ∃ offset node' items, run = size + offset ∧ added[offset]? = some node' ∧
      node'.kind = .fragment items
  nodup : ∀ node ∈ added, node.kind.walkChildren.Nodup
  named : ∀ index node, added[index]? = some node → ∀ held ∈ node.kind.walkChildren,
    ∃ offset node', held = size + offset ∧ added[offset]? = some node' ∧
      node'.parent = some (size + index)

variable {tree : Tree} {holder child : NodeId} {added : List Node} {kind : NodeKind}
  {children : List NodeId}

theorem get?_attach_add (inside : holder < tree.size) (offset : Nat) :
    (tree.attach holder added child).get? (tree.size + offset) = added[offset]? := by
  rw [get?_attach_of_le _ _ inside (Nat.le_add_right _ _), Nat.add_sub_cancel_left]

/-- The slots of the grown tree: the holder, the other old ones, and the new ones. -/
theorem slot_attach (inside : holder < tree.size) {id : NodeId} {node : Node}
    (slot : (tree.attach holder added child).get? id = some node) :
    (id = holder ∧ ∃ old, tree.get? holder = some old ∧
        node = ⟨old.kind.withChild child, old.parent⟩) ∨
      (id ≠ holder ∧ tree.get? id = some node) ∨
      ∃ offset, id = tree.size + offset ∧ added[offset]? = some node := by
  by_cases old : id < tree.size
  · by_cases same : id = holder
    · subst same
      rw [get?_attach_holder _ _ old] at slot
      obtain ⟨node', slot', rfl⟩ := Option.map_eq_some_iff.mp slot
      exact .inl ⟨rfl, node', slot', rfl⟩
    · rw [get?_attach_of_lt _ _ old same] at slot
      exact .inr (.inl ⟨same, slot⟩)
  · obtain ⟨offset, rfl⟩ := Nat.exists_eq_add_of_le (Nat.le_of_not_lt old)
    rw [get?_attach_add inside] at slot
    exact .inr (.inr ⟨offset, rfl, slot⟩)

theorem walkChildren_attach_holder (known : tree.kind? holder = some kind)
    (container : kind.content? = some children) :
    (tree.attach holder added child).walkChildren holder = tree.walkChildren holder ++ [child] := by
  obtain ⟨node, slot, rfl⟩ := exists_of_kind? known
  have now := get?_attach_holder added child (lt_size slot)
  rw [slot, Option.map_some] at now
  rw [walkChildren_of_get? now, walkChildren_of_get? slot,
    NodeKind.walkChildren_withChild container]

theorem parent?_attach_of_lt (inside : holder < tree.size) {id : NodeId} (old : id < tree.size) :
    (tree.attach holder added child).parent? id = tree.parent? id := by
  by_cases same : id = holder
  · subst same
    rw [parent?, parent?, get?_attach_holder _ _ inside, Option.bind_map]
    rfl
  · rw [parent?, parent?, get?_attach_of_lt _ _ old same]

/-- What the grown tree holds: what the tree held, the child, and what the new slots hold. -/
theorem holds_attach (known : tree.kind? holder = some kind)
    (container : kind.content? = some children) {id held : NodeId}
    (holds : (tree.attach holder added child).Holds id held) :
    tree.Holds id held ∨ (id = holder ∧ held = child) ∨
      ∃ index node, id = tree.size + index ∧ added[index]? = some node ∧
        held ∈ node.kind.walkChildren := by
  obtain ⟨old, slot, -⟩ := exists_of_kind? known
  obtain ⟨node, now⟩ := exists_get? (lt_size_of_mem_walkChildren holds)
  rcases slot_attach (lt_size slot) now with ⟨rfl, -⟩ | ⟨-, same⟩ | ⟨index, rfl, new⟩
  · rw [Holds, walkChildren_attach_holder known container] at holds
    rcases List.mem_append.mp holds with holds | last
    · exact .inl holds
    · exact .inr (.inl ⟨rfl, List.mem_singleton.mp last⟩)
  · rw [Holds, walkChildren_of_get? now, ← walkChildren_of_get? same] at holds
    exact .inl holds
  · rw [Holds, walkChildren_of_get? now] at holds
    exact .inr (.inr ⟨index, node, rfl, new, holds⟩)

/-- Attaching new slots keeps the links. -/
theorem Linked.attach (linked : tree.Linked) (known : tree.kind? holder = some kind)
    (container : kind.content? = some children) (new : NewLinks tree.size holder added child) :
    (tree.attach holder added child).Linked := by
  obtain ⟨old, slot, isOld⟩ := exists_of_kind? known
  have inside := Tree.lt_size slot
  have fragment (run : NodeId) (items : List NodeId)
      (isRun : tree.kind? run = some (.fragment items)) :
      ∃ items, (tree.attach holder added child).kind? run = some (.fragment items) := by
    obtain ⟨node, found, isFragment⟩ := exists_of_kind? isRun
    by_cases same : run = holder
    · subst same
      have now := get?_attach_holder added child inside
      rw [found, Option.map_some, isFragment] at now
      exact ⟨_, kind?_of_get? now⟩
    · have now := get?_attach_of_lt added child (Tree.lt_size found) same
      exact ⟨items, (kind?_of_get? (now.trans found)).trans (congrArg some isFragment)⟩
  have newSlot (offset : Nat) (node : Node) (found : added[offset]? = some node) :
      (tree.attach holder added child).get? (tree.size + offset) = some node :=
    (get?_attach_add inside offset).trans found
  refine ⟨fun id name run items isElement => ?_, fun id holds => ?_, fun id => ?_,
    fun id held holds => ?_⟩
  · obtain ⟨node, now, isNode⟩ := exists_of_kind? isElement
    rcases slot_attach inside now with ⟨rfl, node', slot', rfl⟩ | ⟨-, same⟩ | ⟨offset, rfl, found⟩
    · obtain ⟨items', isElement'⟩ := NodeKind.element_of_withChild isNode
      obtain ⟨runItems, isRun⟩ := linked.run_fragment id name run items'
        ((kind?_of_get? slot').trans (congrArg some isElement'))
      exact fragment run runItems isRun
    · obtain ⟨items, isRun⟩ := linked.run_fragment id name run items
        ((kind?_of_get? same).trans (congrArg some isNode))
      exact fragment run items isRun
    · obtain ⟨offset, node', items, rfl, found', isRun⟩ :=
        new.run_fragment node (List.mem_of_getElem? found) name run items isNode
      exact ⟨items, (kind?_of_get? (newSlot offset node' found')).trans (congrArg some isRun)⟩
  · rcases holds_attach known container holds with
      holds | ⟨-, isChild⟩ | ⟨index, node, -, found, inNode⟩
    · exact linked.root_free id holds
    · obtain ⟨offset, -, rfl, -⟩ := new.child_named
      exact absurd isChild (Nat.ne_of_lt (Nat.lt_of_lt_of_le (Nat.zero_lt_of_lt inside)
        (Nat.le_add_right _ _)))
    · obtain ⟨offset, -, isRoot, -⟩ := new.named index node found _ inNode
      exact absurd isRoot (Nat.ne_of_lt (Nat.lt_of_lt_of_le (Nat.zero_lt_of_lt inside)
        (Nat.le_add_right _ _)))
  · cases now : (tree.attach holder added child).get? id with
    | none =>
      rw [walkChildren, kind?, now]
      exact List.nodup_nil
    | some node =>
      rcases slot_attach inside now with ⟨rfl, -⟩ | ⟨-, same⟩ | ⟨offset, rfl, found⟩
      · obtain ⟨offset, -, rfl, -⟩ := new.child_named
        rw [walkChildren_attach_holder known container]
        refine (linked.nodup id).append (List.nodup_singleton _) ?_
        intro held holds last
        have := linked.lt_size holds
        rw [List.mem_singleton.mp last] at this
        exact absurd this (Nat.not_lt_of_le (Nat.le_add_right _ _))
      · rw [walkChildren_of_get? now, ← walkChildren_of_get? same]
        exact linked.nodup id
      · rw [walkChildren_of_get? now]
        exact new.nodup node (List.mem_of_getElem? found)
  · rcases holds_attach known container holds with
      holds | ⟨rfl, rfl⟩ | ⟨index, node, rfl, found, inNode⟩
    · rw [parent?_attach_of_lt inside (linked.lt_size holds)]
      exact linked.named id held holds
    · obtain ⟨offset, node, rfl, found, named⟩ := new.child_named
      exact (parent?_of_get? (newSlot offset node found)).trans named
    · obtain ⟨offset, node', rfl, found', named⟩ := new.named index node found held inNode
      exact (parent?_of_get? (newSlot offset node' found')).trans named

theorem newLinks_leaf (size : Nat) (holder : NodeId) {kind : NodeKind}
    (leaf : kind.walkChildren = []) : NewLinks size holder [⟨kind, some holder⟩] size := by
  refine ⟨⟨0, _, rfl, rfl, rfl⟩, fun node member name run children element => ?_,
    fun node member => ?_, fun index node found held inNode => ?_⟩
  · obtain rfl := List.mem_singleton.mp member
    obtain rfl : kind = .element name run children := element
    cases leaf
  · obtain rfl := List.mem_singleton.mp member
    exact leaf ▸ List.nodup_nil
  · obtain rfl := List.mem_singleton.mp (List.mem_of_getElem? found)
    have none : held ∈ kind.walkChildren := inNode
    rw [leaf] at none
    cases none

theorem newLinks_element (size : Nat) (holder : NodeId) (name : String) (parts : List RunItem) :
    NewLinks size holder (elementNodes size name parts (some holder)) (size + 1) := by
  have leaf {node : Node} (member : node ∈ parts.map fun item => (⟨item.kind, some size⟩ : Node)) :
      node.kind.walkChildren = [] := by
    obtain ⟨item, -, rfl⟩ := List.mem_map.mp member
    exact item.walkChildren_kind
  refine ⟨⟨1, _, rfl, rfl, rfl⟩, fun node member name' run children element => ?_,
    fun node member => ?_, fun index node found held inNode => ?_⟩
  · rcases List.mem_cons.mp member with rfl | member
    · cases element
    · rcases List.mem_cons.mp member with rfl | member
      · obtain ⟨-, rfl, -⟩ := NodeKind.element.inj element
        exact ⟨0, _, _, rfl, rfl, rfl⟩
      · have none := leaf member
        rw [element] at none
        cases none
  · rcases List.mem_cons.mp member with rfl | member
    · exact List.nodup_range'
    · rcases List.mem_cons.mp member with rfl | member
      · exact List.nodup_singleton size
      · rw [leaf member]
        exact List.nodup_nil
  · match index with
    | 0 =>
      obtain rfl := Option.some.inj found
      obtain ⟨offset, bounded, rfl⟩ := List.mem_range'.mp inNode
      have isItem := elementNodes_item size name parts (some holder) offset
      rw [List.getElem?_eq_getElem bounded, Option.map_some] at isItem
      exact ⟨offset + 2, _, by omega, isItem, rfl⟩
    | 1 =>
      obtain rfl := Option.some.inj found
      obtain rfl := List.mem_singleton.mp inNode
      exact ⟨0, _, rfl, rfl, rfl⟩
    | index + 2 =>
      rw [leaf (List.mem_of_getElem? (i := index) found)] at inNode
      cases inNode

/-- What a token adds keeps the links. -/
theorem Linked.grown (linked : tree.Linked) (known : tree.kind? holder = some kind)
    (container : kind.content? = some children) {token : Token}
    (notEnd : ∀ written, token ≠ .endTag written) : (tree.grown holder token).Linked := by
  refine linked.attach known container ?_
  cases token with
  | text content => exact newLinks_leaf tree.size holder rfl
  | expression source => exact newLinks_leaf tree.size holder rfl
  | startTag name run => exact newLinks_element tree.size holder name run
  | endTag written => exact absurd rfl (notEnd written)

end Tree

end Templating.Markup
