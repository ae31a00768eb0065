import Mathlib.Data.List.Nodup
import Mathlib.Tactic.Tauto
import Templating.Markup.Walk
import Templating.Proofs.Markup.Touched

/-!
# What a walk keeps between two visits

A visit may rewrite texts and the values of attributes anywhere, and it may put the attribute run of
the visited element together anew (`Rearranged`). That keeps the tree `Unshared`: apart from what
the slots name as parents, it stays well-formed.

`Frontier` is what the stack of a walk keeps beside it: the nodes visited and pending are distinct,
in view, and each but the root is held by one that has been visited and entered.

* `Unshared.rearranged`: a rearranged tree is unshared again.
* `Frontier.visit`: a visit keeps the frontier. The children that it puts on the stack are read from
  the changed tree, but the nodes pending below them were put there from older ones; they stay right
  because only the run of the visited element changes, and the run has not been visited yet.
-/

namespace Templating.Markup

/-! ## Rearranged trees -/

/-- How a node may be rewritten: in the content of a text or in the value of an attribute. -/
inductive NodeKind.Rewrite : NodeKind → NodeKind → Prop
  | same (kind : NodeKind) : Rewrite kind kind
  | text (old new : String) : Rewrite (.text old) (.text new)
  | value (name : AttrPart) (old new : Option AttrPart) (quote quote' : Option Char) :
    Rewrite (.attr name old quote) (.attr name new quote')

namespace NodeKind.Rewrite

variable {old new : NodeKind}

theorem shape_eq (rewrite : Rewrite old new) : new.shape = old.shape := by
  cases rewrite <;> rfl

theorem walkChildren_eq (rewrite : Rewrite old new) : new.walkChildren = old.walkChildren := by
  cases rewrite <;> rfl

theorem eq_of_element (rewrite : Rewrite old new) (shape : new.shape = .element) : new = old := by
  cases rewrite with
  | same => rfl
  | text => cases shape
  | value => cases shape

end NodeKind.Rewrite

namespace Tree

/-- `after` is `before` with texts and values of attributes rewritten anywhere, with new texts and
attributes, and with the attribute run of `id` put together anew from what stood in it, each node
once at most, and from new nodes. -/
structure Rearranged (before : Tree) (id : NodeId) (after : Tree) : Prop where
  size_le : before.size ≤ after.size
  kept : ∀ other kind, before.attributeRun? id ≠ some other → before.kind? other = some kind →
    ∃ kind', after.kind? other = some kind' ∧ kind.Rewrite kind'
  fresh : ∀ other kind, before.size ≤ other → after.kind? other = some kind → kind.IsLeaf
  run : ∀ run, before.attributeRun? id = some run → ∃ items,
    after.kind? run = some (.fragment items) ∧ items.Nodup ∧
      ∀ item ∈ items, item ∈ before.walkChildren run ∨ (before.size ≤ item ∧ item < after.size)

/-- The reachable nodes form a tree whose attribute runs are fragments, whatever the slots name as
parents. -/
structure Unshared (tree : Tree) : Prop where
  run_fragment : ∀ {id run}, tree.Reachable id → tree.attributeRun? id = some run →
    ∃ items, tree.kind? run = some (.fragment items)
  root_free : ∀ {holder}, tree.Reachable holder → ¬ tree.Holds holder root
  nodup : ∀ {holder}, tree.Reachable holder → (tree.walkChildren holder).Nodup
  holder_unique : ∀ {holder other held}, tree.Reachable holder → tree.Holds holder held →
    tree.Reachable other → tree.Holds other held → holder = other
  inside : ∀ {holder held}, tree.Reachable holder → tree.Holds holder held → held < tree.size

theorem WellFormed.unshared {tree : Tree} (wf : tree.WellFormed) : tree.Unshared where
  run_fragment := fun reach element => ⟨_, wf.kind?_attributeRun reach element⟩
  root_free := fun reach => wf.root_free _ reach
  nodup := fun reach => wf.nodup_walkChildren reach
  holder_unique := wf.holder_unique
  inside := wf.lt_size_of_holds

namespace Rearranged

variable {before after : Tree} {id other : NodeId}

/-- Nothing but the run of the visited element gets other children. -/
theorem walkChildren_eq (rearranged : before.Rearranged id after)
    (notRun : before.attributeRun? id ≠ some other) :
    after.walkChildren other = before.walkChildren other := by
  cases was : before.kind? other with
  | some kind =>
    obtain ⟨kind', now, rewrite⟩ := rearranged.kept other kind notRun was
    rw [walkChildren_of_kind? was, walkChildren_of_kind? now, rewrite.walkChildren_eq]
  | none =>
    have none : before.walkChildren other = [] := by rw [walkChildren, was]; rfl
    rw [none]
    cases now : after.kind? other with
    | none => rw [walkChildren, now]; rfl
    | some kind =>
      have leaf := rearranged.fresh other kind (size_le_of_kind?_eq_none was) now
      rw [walkChildren_of_kind? now, leaf.walkChildren_eq]

/-- What the run holds afterwards. -/
theorem walkChildren_run (rearranged : before.Rearranged id after) {run : NodeId}
    (element : before.attributeRun? id = some run) :
    (after.walkChildren run).Nodup ∧ ∀ item ∈ after.walkChildren run,
      item ∈ before.walkChildren run ∨ (before.size ≤ item ∧ item < after.size) := by
  obtain ⟨items, now, distinct, own⟩ := rearranged.run run element
  rw [walkChildren_of_kind? now]
  exact ⟨distinct, own⟩

theorem isExpression_eq (rearranged : before.Rearranged id after)
    (notRun : before.attributeRun? id ≠ some other) :
    after.isExpression other = before.isExpression other := by
  cases was : before.kind? other with
  | some kind =>
    obtain ⟨kind', now, rewrite⟩ := rearranged.kept other kind notRun was
    rw [isExpression, isExpression, was, now, Option.any_some, Option.any_some, rewrite.shape_eq]
  | none =>
    rw [isExpression, isExpression, was]
    cases now : after.kind? other with
    | none => rfl
    | some kind =>
      rcases rearranged.fresh other kind (size_le_of_kind?_eq_none was) now with shape | shape <;>
        simp [shape]

theorem shows_iff (rearranged : before.Rearranged id after)
    (notRun : before.attributeRun? id ≠ some other) {held : NodeId} :
    after.Shows other held ↔ before.Shows other held := by
  rw [Shows, Shows, Holds, Holds, rearranged.isExpression_eq notRun,
    rearranged.walkChildren_eq notRun]

/-- What is an element afterwards was one before. -/
theorem attributeRun?_of_after (rearranged : before.Rearranged id after) {run : NodeId}
    (element : after.attributeRun? other = some run) : before.attributeRun? other = some run := by
  obtain ⟨name, children, now⟩ := kind?_of_attributeRun? element
  by_cases isRun : before.attributeRun? id = some other
  · obtain ⟨items, fragment, -⟩ := rearranged.run other isRun
    rw [now] at fragment
    cases fragment
  · cases was : before.kind? other with
    | some kind =>
      obtain ⟨kind', now', rewrite⟩ := rearranged.kept other kind isRun was
      obtain rfl := Option.some.inj (now.symm.trans now')
      obtain rfl := rewrite.eq_of_element rfl
      exact attributeRun?_of_kind? was
    | none =>
      rcases rearranged.fresh other _ (size_le_of_kind?_eq_none was) now with shape | shape <;>
        cases shape

/-- Only old slots hold anything. -/
theorem lt_of_holds (rearranged : before.Rearranged id after) {held : NodeId}
    (holds : after.Holds other held) : other < before.size := by
  by_contra beyond
  obtain ⟨node, slot⟩ := exists_get? (lt_size_of_mem_walkChildren holds)
  have now := kind?_of_get? slot
  have leaf := rearranged.fresh other _ (Nat.le_of_not_lt beyond) now
  rw [Holds, walkChildren_of_kind? now, leaf.walkChildren_eq] at holds
  cases holds

/-- No old node gets another holder. -/
theorem holds_of_lt (rearranged : before.Rearranged id after) {held : NodeId}
    (holds : after.Holds other held) (inside : held < before.size) : before.Holds other held := by
  by_cases isRun : before.attributeRun? id = some other
  · rcases (rearranged.walkChildren_run isRun).2 held holds with old | ⟨beyond, -⟩
    · exact old
    · exact absurd inside (Nat.not_lt_of_le beyond)
  · rwa [Holds, rearranged.walkChildren_eq isRun] at holds

/-- No old node comes into reach. -/
theorem reachable_of_lt (rearranged : before.Rearranged id after) (reach : after.Reachable other)
    (inside : other < before.size) : before.Reachable other := by
  induction reach with
  | refl => exact Reachable.root
  | tail _ holds ih =>
    exact (ih (rearranged.lt_of_holds holds)).child (rearranged.holds_of_lt holds inside)

/-- What holds something is old and was in reach. -/
theorem reachable_of_holds (rearranged : before.Rearranged id after) (reach : after.Reachable other)
    {held : NodeId} (holds : after.Holds other held) : before.Reachable other :=
  rearranged.reachable_of_lt reach (rearranged.lt_of_holds holds)

end Rearranged

/-- **A rearranged tree is unshared again.** -/
theorem Unshared.rearranged {before after : Tree} {id : NodeId} (unshared : before.Unshared)
    (rearranged : before.Rearranged id after) : after.Unshared := by
  constructor
  · intro other run reach element
    have element' := rearranged.attributeRun?_of_after element
    have reach' := rearranged.reachable_of_holds reach (holds_attributeRun? element).2
    by_cases isRun : before.attributeRun? id = some run
    · obtain ⟨items, now, -⟩ := rearranged.run run isRun
      exact ⟨items, now⟩
    · obtain ⟨items, was⟩ := unshared.run_fragment reach' element'
      obtain ⟨kind', now, rewrite⟩ := rearranged.kept run _ isRun was
      cases rewrite
      exact ⟨items, now⟩
  · intro holder reach holds
    have inside : Tree.root < before.size :=
      Nat.lt_of_le_of_lt (Nat.zero_le _) (rearranged.lt_of_holds holds)
    exact unshared.root_free (rearranged.reachable_of_holds reach holds)
      (rearranged.holds_of_lt holds inside)
  · intro holder reach
    by_cases isRun : before.attributeRun? id = some holder
    · exact (rearranged.walkChildren_run isRun).1
    · by_cases inside : holder < before.size
      · rw [rearranged.walkChildren_eq isRun]
        exact unshared.nodup (rearranged.reachable_of_lt reach inside)
      · have none : after.walkChildren holder = [] :=
          List.eq_nil_iff_forall_not_mem.mpr fun held member =>
            inside (rearranged.lt_of_holds member)
        rw [none]
        exact List.nodup_nil
  · intro holder other held reach holds reach' holds'
    have old := rearranged.reachable_of_holds reach holds
    have old' := rearranged.reachable_of_holds reach' holds'
    by_cases inside : held < before.size
    · exact unshared.holder_unique old (rearranged.holds_of_lt holds inside) old'
        (rearranged.holds_of_lt holds' inside)
    · -- Only the run holds new nodes.
      have isRun : ∀ holder, before.Reachable holder → after.Holds holder held →
          before.attributeRun? id = some holder := by
        intro holder reach holds
        by_contra notRun
        rw [Holds, rearranged.walkChildren_eq notRun] at holds
        exact inside (unshared.inside reach holds)
      exact Option.some.inj ((isRun holder old holds).symm.trans (isRun other old' holds'))
  · intro holder held reach holds
    by_cases isRun : before.attributeRun? id = some holder
    · rcases (rearranged.walkChildren_run isRun).2 held holds with was | ⟨-, inside⟩
      · exact Nat.lt_of_lt_of_le
          (unshared.inside (rearranged.reachable_of_holds reach holds) was) rearranged.size_le
      · exact inside
    · have was := holds
      rw [Holds, rearranged.walkChildren_eq isRun] at was
      exact Nat.lt_of_lt_of_le
        (unshared.inside (rearranged.reachable_of_holds reach holds) was) rearranged.size_le

/-- What a visit may do to a well-formed tree, it may do to an unshared one. -/
theorem Touched.rearranged {before after : Tree} {id : NodeId} (touched : Touched before id after)
    (wf : before.WellFormed) (reach : before.Reachable id) : before.Rearranged id after := by
  refine ⟨touched.size_le, ?_, ?_, ?_⟩
  · intro other kind notRun was
    obtain ⟨kind', now, retouch⟩ := touched.kind was
    refine ⟨kind', now, ?_⟩
    cases retouch with
    | same => exact .same _
    | text => exact .text _ _
    | value => exact .value _ _ _ _ _
    | items =>
      have same := touched.walkChildren_eq other notRun
      rw [walkChildren_of_kind? was, walkChildren_of_kind? now] at same
      obtain rfl : _ = _ := same
      exact .same _
  · exact fun other kind beyond now => touched.isLeaf_of_size_le beyond now
  · intro run element
    obtain ⟨kind', now, retouch⟩ := touched.kind (wf.kind?_attributeRun reach element)
    obtain ⟨distinct, own, -⟩ := touched.run run element
    obtain ⟨items, rfl⟩ : ∃ items, kind' = .fragment items := by
      cases retouch with
      | same => exact ⟨_, rfl⟩
      | items => exact ⟨_, rfl⟩
    rw [walkChildren_of_kind? now] at distinct own
    refine ⟨items, now, distinct, fun item member => ?_⟩
    rcases own item member with old | ⟨beyond, named⟩
    · exact .inl old
    · obtain ⟨node, slot, -⟩ := exists_of_parent? named
      exact .inr ⟨beyond, lt_size slot⟩

end Tree

/-! ## The stack -/

/-- Nodes that have been visited, the last first, each with the outcome of its visit. -/
abbrev Log := List (NodeId × Descent)

/-- The visited nodes. -/
def Log.nodes (log : Log) : List NodeId := log.map Prod.fst

/-- What holds between two visits of a walk that has `stack` still to visit. -/
structure Frontier (tree : Tree) (log : Log) (stack : List NodeId) : Prop where
  nodup : (log.nodes ++ stack).Nodup
  visible : ∀ id ∈ log.nodes ++ stack, tree.Visible id
  linked : ∀ id ∈ log.nodes ++ stack,
    id = Tree.root ∨ ∃ holder, (holder, .enter) ∈ log ∧ tree.Holds holder id
  root_mem : Tree.root ∈ log.nodes ++ stack
  closed : ∀ holder, (holder, .enter) ∈ log → ∀ held, tree.Shows holder held →
    held ∈ log.nodes ++ stack

theorem Frontier.start (tree : Tree) : Frontier tree [] [Tree.root] where
  nodup := List.nodup_singleton _
  visible := by
    intro id member
    obtain rfl := List.mem_singleton.mp member
    exact Tree.Visible.root
  linked := fun id member => .inl (List.mem_singleton.mp member)
  root_mem := List.mem_singleton_self _
  closed := fun _ member => nomatch member

section

variable {σ : Type} {visitor : Visitor σ} {state : σ} {id : NodeId} {descent : Descent}

/-- What a walk goes on to is held by the visited node, which was entered and is no expression. -/
theorem shows_of_mem_entered {child : NodeId} (member : child ∈ visitor.entered state id descent) :
    descent = .enter ∧ (visitor.tree state).Shows id child := by
  cases descent with
  | prune => cases member
  | enter =>
    rw [Visitor.entered] at member
    split at member
    · cases member
    · rename_i enters
      exact ⟨rfl, Bool.eq_false_iff.mpr enters, member⟩

theorem nodup_entered (distinct : ((visitor.tree state).walkChildren id).Nodup) :
    (visitor.entered state id descent).Nodup := by
  cases descent with
  | prune => exact List.nodup_nil
  | enter =>
    rw [Visitor.entered]
    split
    · exact List.nodup_nil
    · exact distinct

/-- A visit that succeeds is followed by the rest of the walk from the state that it leaves. -/
theorem Visitor.walkStack_of_ok {changed : σ}
    (outcome : visitor.visit id state = .ok descent changed) (visits : Nat) (rest : List NodeId) :
    visitor.walkStack (visits + 1) (id :: rest) state =
      visitor.walkStack visits (visitor.entered changed id descent ++ rest) changed := by
  simp only [Visitor.walkStack, outcome]

/-- A walk does not go on to anything below a leaf. -/
theorem entered_eq_nil
    (leaf : ∀ kind, (visitor.tree state).kind? id = some kind → kind.IsLeaf) :
    visitor.entered state id descent = [] := by
  refine List.eq_nil_iff_forall_not_mem.mpr fun child member => ?_
  have holds := (shows_of_mem_entered member).2.2
  obtain ⟨node, slot⟩ := Tree.exists_get? (Tree.lt_size_of_mem_walkChildren holds)
  have known := Tree.kind?_of_get? slot
  rw [Tree.Holds, Tree.walkChildren_of_kind? known, (leaf _ known).walkChildren_eq] at holds
  cases holds

end

namespace Frontier

variable {before after : Tree} {log : Log} {id : NodeId} {rest : List NodeId}

/-- No node that has been visited or is pending is held by one that has not been visited. -/
theorem not_mem_of_holds (frontier : Frontier before log (id :: rest)) (unshared : before.Unshared)
    {holder held : NodeId} (reach : before.Reachable holder) (holds : before.Holds holder held)
    (new : holder ∉ log.nodes) : held ∉ log.nodes ++ id :: rest := by
  intro member
  rcases frontier.linked held member with rfl | ⟨other, entered, holds'⟩
  · exact unshared.root_free reach holds
  · have visited : other ∈ log.nodes := List.mem_map_of_mem entered
    have seen := frontier.visible other (List.mem_append_left _ visited)
    exact new (unshared.holder_unique seen.reachable holds' reach holds ▸ visited)

theorem head_not_mem (frontier : Frontier before log (id :: rest)) : id ∉ log.nodes := fun member =>
  (List.nodup_append.mp frontier.nodup).2.2 id member id List.mem_cons_self rfl

theorem head_visible (frontier : Frontier before log (id :: rest)) : before.Visible id :=
  frontier.visible id (List.mem_append_right _ List.mem_cons_self)

/-- The run of the node to be visited is neither visited nor pending. -/
theorem run_not_mem (frontier : Frontier before log (id :: rest)) (unshared : before.Unshared)
    {run : NodeId} (element : before.attributeRun? id = some run) : run ∉ log.nodes ++ id :: rest :=
  frontier.not_mem_of_holds unshared frontier.head_visible.reachable
    (Tree.holds_attributeRun? element).2 frontier.head_not_mem

/-- The visited nodes and the one to be visited show what they showed. -/
theorem shows_after (frontier : Frontier before log (id :: rest)) (unshared : before.Unshared)
    (rearranged : before.Rearranged id after) {holder held : NodeId}
    (member : holder ∈ log.nodes ++ id :: rest) :
    after.Shows holder held ↔ before.Shows holder held :=
  rearranged.shows_iff fun element => frontier.run_not_mem unshared element member

theorem holds_after (frontier : Frontier before log (id :: rest)) (unshared : before.Unshared)
    (rearranged : before.Rearranged id after) {holder held : NodeId}
    (member : holder ∈ log.nodes ++ id :: rest) :
    after.Holds holder held ↔ before.Holds holder held := by
  have notRun : before.attributeRun? id ≠ some holder := fun element =>
    frontier.run_not_mem unshared element member
  rw [Tree.Holds, Tree.Holds, rearranged.walkChildren_eq notRun]

/-- What is visited or pending stays in view, since all that leads to it has been visited. -/
theorem visible_after (frontier : Frontier before log (id :: rest)) (unshared : before.Unshared)
    (rearranged : before.Rearranged id after) {other : NodeId}
    (member : other ∈ log.nodes ++ id :: rest) : after.Visible other := by
  have seen := frontier.visible other member
  induction seen with
  | refl => exact Tree.Visible.root
  | @tail holder held seen shows ih =>
    have reach : before.Reachable holder := Tree.Visible.reachable seen
    have visited : holder ∈ log.nodes := by
      by_contra new
      exact frontier.not_mem_of_holds unshared reach shows.2 new member
    have member' : holder ∈ log.nodes ++ id :: rest := List.mem_append_left _ visited
    exact (ih member').child ((frontier.shows_after unshared rearranged member').mpr shows)

/-- The children of the visited node have been neither visited nor pending. -/
theorem child_not_mem (frontier : Frontier before log (id :: rest)) (unshared : before.Unshared)
    (rearranged : before.Rearranged id after) {child : NodeId} (holds : after.Holds id child) :
    child ∉ log.nodes ++ id :: rest := by
  have member : id ∈ log.nodes ++ id :: rest := List.mem_append_right _ List.mem_cons_self
  rw [frontier.holds_after unshared rearranged member] at holds
  exact frontier.not_mem_of_holds unshared frontier.head_visible.reachable holds
    frontier.head_not_mem

variable {σ : Type} {visitor : Visitor σ} {state changed : σ} {descent : Descent}

/-- What is visited or pending after a visit. -/
theorem mem_after_visit (other : NodeId) :
    other ∈ Log.nodes ((id, descent) :: log) ++ (visitor.entered changed id descent ++ rest) ↔
      other ∈ visitor.entered changed id descent ∨ other ∈ log.nodes ++ id :: rest := by
  simp only [Log.nodes, List.map_cons, List.cons_append, List.mem_cons, List.mem_append]
  tauto

/-- **One visit.** It moves the node from the stack to the log and puts its children on the
stack. -/
theorem visit (frontier : Frontier (visitor.tree state) log (id :: rest))
    (unshared : (visitor.tree state).Unshared)
    (rearranged : (visitor.tree state).Rearranged id (visitor.tree changed)) :
    Frontier (visitor.tree changed) ((id, descent) :: log)
      (visitor.entered changed id descent ++ rest) := by
  have head : id ∈ log.nodes ++ id :: rest := List.mem_append_right _ List.mem_cons_self
  have seen : (visitor.tree changed).Visible id :=
    frontier.visible_after unshared rearranged head
  have shown : ∀ child ∈ visitor.entered changed id descent,
      (visitor.tree changed).Shows id child := fun child member => (shows_of_mem_entered member).2
  refine ⟨?_, ?_, ?_, (mem_after_visit _).mpr (.inr frontier.root_mem), ?_⟩
  · have old : (id :: (log.nodes ++ rest)).Nodup := List.nodup_middle.mp frontier.nodup
    have children : (visitor.entered changed id descent).Nodup :=
      nodup_entered ((unshared.rearranged rearranged).nodup seen.reachable)
    have moved : (visitor.entered changed id descent ++ (id :: (log.nodes ++ rest))).Nodup := by
      refine List.nodup_append.mpr ⟨children, old, ?_⟩
      rintro child member other member' rfl
      refine frontier.child_not_mem unshared rearranged (shown child member).2 ?_
      simpa only [List.mem_cons, List.mem_append, or_left_comm] using member'
    refine (List.Perm.nodup_iff ?_).mpr moved
    have swap : (log.nodes ++ (visitor.entered changed id descent ++ rest)).Perm
        (visitor.entered changed id descent ++ (log.nodes ++ rest)) := by
      rw [← List.append_assoc, ← List.append_assoc]
      exact List.perm_append_comm.append_right rest
    exact (swap.cons id).trans List.perm_middle.symm
  · intro other member
    rcases (mem_after_visit other).mp member with child | old
    · exact seen.child (shown other child)
    · exact frontier.visible_after unshared rearranged old
  · intro other member
    rcases (mem_after_visit other).mp member with child | old
    · obtain ⟨rfl, shows⟩ := shows_of_mem_entered child
      exact .inr ⟨id, List.mem_cons_self, shows.2⟩
    · rcases frontier.linked other old with rfl | ⟨holder, entered, holds⟩
      · exact .inl rfl
      · have visited : holder ∈ log.nodes := List.mem_map_of_mem entered
        exact .inr ⟨holder, List.mem_cons_of_mem _ entered,
          (frontier.holds_after unshared rearranged (List.mem_append_left _ visited)).mpr holds⟩
  · intro holder entered held shows
    rw [mem_after_visit]
    rcases List.mem_cons.mp entered with same | entered
    · cases same
      refine .inl ?_
      rw [Visitor.entered, shows.1]
      exact shows.2
    · have visited : holder ∈ log.nodes := List.mem_map_of_mem entered
      have shows' := (frontier.shows_after unshared rearranged
        (List.mem_append_left _ visited)).mp shows
      exact .inr (frontier.closed holder entered held shows')

end Frontier

end Templating.Markup
