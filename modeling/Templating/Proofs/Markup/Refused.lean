import Templating.Proofs.Markup.EditOutcome

/-!
# Changes that are refused

On a tree that was built through the operations of the tree, and with nodes that it has, a change is
made or it is refused and the arena stays as it was. Setting an attribute is the exception: a
refusal leaves one slot more, which no node holds.

* `Change.ends`: how each change ends.
* `Reached.closed`: every operation keeps that handles are slots.
* `refused_change_leaves` is the result for every tree that can be built.
-/

namespace Templating.Markup

open Edit

/-! ## Changes -/

/-- A change that asks its nodes to be of certain kinds. -/
inductive Change where
  | appendChild (parent child : NodeId)
  | appendAttribute (element child : NodeId)
  | replaceAttributeChildren (element : NodeId) (children : List NodeId)
  | setAttribute (element : NodeId) (name value : String)
  | setText (id : NodeId) (content : String)

namespace Change

/-- The nodes that the change is called with. -/
def nodes : Change → List NodeId
  | .appendChild parent child => [parent, child]
  | .appendAttribute element child => [element, child]
  | .replaceAttributeChildren element children => element :: children
  | .setAttribute element _ _ => [element]
  | .setText id _ => [id]

def edit : Change → Edit Unit
  | .appendChild parent child => Edit.appendChild parent child
  | .appendAttribute element child => Edit.appendAttribute element child
  | .replaceAttributeChildren element children => Edit.replaceAttributeChildren element children
  | .setAttribute element name value => do
    let _ ← Edit.setAttribute element name value
  | .setText id content => Edit.setText id content

/-- The nodes are of the kinds that the change asks for. -/
def Fits (tree : Tree) : Change → Prop
  | .appendChild parent _ => tree.IsContainer parent
  | .appendAttribute element _ => tree.TakesAttributes element
  | .replaceAttributeChildren element _ => tree.attributeRun? element ≠ none
  | .setAttribute element _ _ => tree.TakesAttributes element
  | .setText id _ => tree.textContent? id ≠ none

/-- What a tree is when it has refused the change: the separator of an attribute that was to be set
takes one more slot, and nothing else is left. -/
def remains (tree : Tree) : Change → Tree
  | .setAttribute .. => tree.push (.text separator)
  | _ => tree

variable {tree : Tree}

/-- The slots that there were are as they were. -/
theorem get?_remains (change : Change) {slot : NodeId} (inside : slot < tree.size) :
    (change.remains tree).get? slot = tree.get? slot := by
  cases change with
  | setAttribute => exact (Tree.get?_push _ _ _ _).trans (if_neg (Nat.ne_of_lt inside))
  | _ => rfl

theorem ends (change : Change) (closed : tree.Closed)
    (existing : ∀ id ∈ change.nodes, id < tree.size) :
    Ends (fun _ after => change.Fits tree ∧ after.Closed)
      (fun after => ¬ change.Fits tree ∧ after = change.remains tree) change.edit tree := by
  cases change with
  | appendChild parent child =>
    have ends := ends_appendChild closed (existing parent List.mem_cons_self)
      (existing child (List.mem_cons_of_mem parent List.mem_cons_self))
    exact ends.imp (fun _ _ ⟨fits, closed', _⟩ => ⟨fits, closed'⟩) fun _ => id
  | appendAttribute element child =>
    have ends := ends_appendAttribute closed (existing element List.mem_cons_self)
      (existing child (List.mem_cons_of_mem element List.mem_cons_self))
    exact ends.imp (fun _ _ ⟨fits, closed', _⟩ => ⟨fits, closed'⟩) fun _ => id
  | replaceAttributeChildren element children =>
    have ends := ends_replaceAttributeChildren closed (existing element List.mem_cons_self)
      fun child member => existing child (List.mem_cons_of_mem element member)
    exact ends.imp (fun _ _ => id) fun _ ⟨missing, same⟩ => ⟨fun fits => fits missing, same⟩
  | setAttribute element name value =>
    have ends := ends_setAttribute closed (existing element List.mem_cons_self) name value
    exact ends.bind fun _ _ holds => .made rfl holds
  | setText id content =>
    have ends := ends_setText closed (existing id List.mem_cons_self) content
    exact ends.imp (fun _ _ holds => holds) fun _ ⟨missing, same⟩ =>
      ⟨fun fits => fits missing, same⟩

end Change

/-! ## Trees that can be built -/

/-- An operation of a tree. -/
inductive Operation where
  | newElement (name : String)
  | newText (content : String)
  | newAttribute (name : AttrPart) (value : Option AttrPart) (quote : Option Char)
  | newExpression (source : String)
  | newFragment
  /-- Puts anything in the place of what a node is. -/
  | overwrite (id : NodeId) (kind : NodeKind)
  | change (change : Change)

namespace Operation

/-- The nodes that the operation is called with. -/
def nodes : Operation → List NodeId
  | .overwrite id kind => id :: kind.walkChildren
  | .change asked => asked.nodes
  | _ => []

def edit : Operation → Edit Unit
  | .newElement name => do
    let _ ← Edit.newElement name
  | .newText content => do
    let _ ← Edit.newText content
  | .newAttribute name value quote => do
    let _ ← Edit.newAttributeOf name value quote
  | .newExpression source => do
    let _ ← Edit.newExpression source
  | .newFragment => do
    let _ ← Edit.newFragment
  | .overwrite id kind => modify (·.setKind id kind)
  | .change asked => asked.edit

variable {tree : Tree}

/-- No operation makes a handle of what is no slot. -/
theorem closed_left (operation : Operation) (closed : tree.Closed)
    (existing : ∀ id ∈ operation.nodes, id < tree.size) : (left operation.edit tree).Closed := by
  have leaf (kind : NodeKind) (childless : kind.walkChildren = []) : (tree.push kind).Closed :=
    closed.push fun child member => nomatch childless ▸ member
  cases operation with
  | newElement name =>
    have run : (tree.push (.fragment []) (some (tree.size + 1))).Closed :=
      closed.push fun _ member => nomatch member
    refine run.push fun held member => ?_
    obtain rfl := List.mem_singleton.mp member
    rw [Tree.size_push]
    exact Nat.lt_add_of_pos_right Nat.zero_lt_two
  | newText content => exact leaf (.text content) rfl
  | newAttribute name value quote => exact leaf (.attr name value quote) rfl
  | newExpression source => exact leaf (.expression source []) rfl
  | newFragment => exact leaf (.fragment []) rfl
  | overwrite id kind =>
    exact closed.setKind fun child member => existing child (List.mem_cons_of_mem id member)
  | change asked =>
    change (left asked.edit tree).Closed
    cases asked.ends closed existing with
    | made outcome holds =>
      rw [left_of_ok outcome]
      exact holds.2
    | refused outcome holds =>
      obtain ⟨-, rfl⟩ := holds
      rw [left_of_error outcome]
      cases asked with
      | setAttribute => exact leaf (.text separator) rfl
      | _ => exact closed

end Operation

/-- The tree is built from the empty one by operations on nodes that it has, made or refused. -/
inductive Reached : Tree → Prop
  | empty : Reached .empty
  | step {tree : Tree} (reached : Reached tree) (operation : Operation)
    (existing : ∀ id ∈ operation.nodes, id < tree.size) : Reached (left operation.edit tree)

theorem Reached.closed {tree : Tree} (reached : Reached tree) : tree.Closed := by
  induction reached with
  | empty => exact Tree.closed_empty
  | step _ operation existing ih => exact operation.closed_left ih existing

/-- **A refused change leaves the arena as it was**, but for the separator of an attribute that was
to be set. On every tree that can be built and with nodes that it has, a change is made when the
nodes are of the kinds that it asks for. Otherwise it is refused for the kind of a node; then every
slot that there was is as it was, and there is no other slot, or after an attempt to set an
attribute just one, with a separator. -/
theorem refused_change_leaves {tree : Tree} (reached : Reached tree) (change : Change)
    (existing : ∀ id ∈ change.nodes, id < tree.size) :
    (change.Fits tree ∧ ∃ after, change.edit tree = .ok () after) ∨
      (¬ change.Fits tree ∧ (∃ id expected actual,
          change.edit tree = .error (.wrongKind id expected actual) (change.remains tree)) ∧
        ∀ slot < tree.size, (change.remains tree).get? slot = tree.get? slot) := by
  cases change.ends reached.closed existing with
  | made outcome holds => exact .inl ⟨holds.1, _, outcome⟩
  | refused outcome holds =>
    obtain ⟨misfit, rfl⟩ := holds
    exact .inr ⟨misfit, ⟨_, _, _, outcome⟩, fun slot inside => change.get?_remains inside⟩

/-- An element whose attribute run was made into text refuses an attribute, at the run. -/
theorem refused_change_leaves_run :
    let tree := left (Operation.overwrite 1 (.text "x")).edit
      (left (Operation.newElement "img").edit .empty)
    let change := Change.setAttribute 2 "alt" ""
    Reached tree ∧ (∀ id ∈ change.nodes, id < tree.size) ∧ ¬ change.Fits tree ∧
      (∃ id expected actual, change.edit tree =
        .error (.wrongKind id expected actual) (tree.push (.text separator))) ∧
      ∀ slot < tree.size, (tree.push (.text separator)).get? slot = tree.get? slot := by
  intro tree change
  have reached : Reached tree := (Reached.empty.step (.newElement "img") (by decide)).step
    (.overwrite 1 (.text "x")) (by decide)
  have existing : ∀ id ∈ change.nodes, id < tree.size := by decide
  have refused :
      change.edit tree = .error (.wrongKind 1 .container .text) (change.remains tree) := rfl
  rcases refused_change_leaves reached change existing with ⟨-, after, made⟩ | outcome
  · cases refused.symm.trans made
  · exact ⟨reached, existing, outcome⟩

/-- Setting an attribute of a text is refused and leaves a slot more. -/
theorem refused_attribute_leaves_separator :
    let tree := left (Operation.newText "x").edit .empty
    let change := Change.setAttribute 1 "a" "b"
    Reached tree ∧ (∀ id ∈ change.nodes, id < tree.size) ∧ ∃ after,
      change.edit tree = .error (.wrongKind 1 .element .text) after ∧ after.size = tree.size + 1 ∧
        after ≠ tree := by
  intro tree change
  have reached : Reached tree := Reached.empty.step (.newText "x") (by decide)
  exact ⟨reached, by decide, tree.push (.text separator), rfl, rfl, by decide⟩

end Templating.Markup
