import Templating.Proofs.Markup.Pass.Stepping
import Templating.Proofs.Markup.Printing
import Templating.Proofs.Markup.RunKinds

/-!
# Trees that are alike

Two trees that were made from one tree are alike when they hold the same in it: the same in each
attribute run in view, in whatever slots, and the same in every slot off the runs.

* `Tree.Remade.alike`: changing runs in the same way gives alike trees.
* `Tree.Alike.stepped`: alike trees stay so when a step is taken in each text in view.
* `Tree.Alike.markup_eq`: alike trees print the same. The printer goes down both at once; below the
  items of a run it comes back to nodes that both have from the tree they were made from.
-/

namespace Templating.Markup

namespace Tree

/-- Two trees made from `start` that hold the same. -/
structure Alike (start left right : Tree) : Prop where
  preserved : start.Preserved left
  preserved' : start.Preserved right
  wellFormed : left.WellFormed
  wellFormed' : right.WellFormed
  runs : ∀ id run, start.Visible id → start.attributeRun? id = some run →
    left.runKinds id = right.runKinds id
  rest : ∀ id, start.OffRuns id → left.kind? id = right.kind? id

/-- Runs that are changed in the same way become the same. -/
theorem Remade.alike {change change' : NodeId → List NodeKind → List NodeKind}
    {start left right : Tree} (remade : start.Remade change left)
    (remade' : start.Remade change' right) (same : ∀ id kinds, change id kinds = change' id kinds) :
    start.Alike left right where
  preserved := remade.toPreserved
  preserved' := remade'.toPreserved
  wellFormed := remade.wellFormed
  wellFormed' := remade'.wellFormed
  runs := fun id run visible element => by
    rw [remade.runs id run visible element, remade'.runs id run visible element, same]
  rest := fun id off => (remade.rest id off).trans (remade'.rest id off).symm

/-! ## Nodes off the runs -/

section

variable {start tree : Tree} {id : NodeId}

/-- A node off the runs is no attribute run. -/
theorem OffRuns.ne_run (off : start.OffRuns id) (element : NodeId)
    (visible : start.Visible element) : start.attributeRun? element ≠ some id := by
  intro isElement
  refine off.off element visible ?_
  rw [runSlots_of_attributeRun? isElement]
  exact List.mem_cons_self

theorem Preserved.walkChildren_of_offRuns (preserved : start.Preserved tree)
    (off : start.OffRuns id) : tree.walkChildren id = start.walkChildren id :=
  preserved.walkChildren_eq id off.ne_run

/-- A node off the runs is in view as it was. -/
theorem Preserved.visible_iff_of_offRuns (preserved : start.Preserved tree)
    (off : start.OffRuns id) : tree.Visible id ↔ start.Visible id := by
  by_cases isRoot : id = root
  · subst isRoot
    exact iff_of_true .root .root
  · refine ⟨fun visible => preserved.visible_of_lt id visible (off.known.resolve_left isRoot), ?_⟩
    intro visible
    obtain ⟨holder, seen, shows⟩ := visible.exists_shows isRoot
    have noRun : ∀ element, start.Visible element → start.attributeRun? element ≠ some holder := by
      intro element visible' isElement
      refine off.off element visible' ?_
      rw [runSlots_of_attributeRun? isElement]
      exact List.mem_cons_of_mem _ shows.2
    have seen' := preserved.visible holder (lt_size_of_mem_walkChildren shows.2) seen
      (isBlankText_eq_false shows.2)
    refine seen'.child ⟨(preserved.isExpression_eq holder).trans shows.1, ?_⟩
    rw [Holds, preserved.walkChildren_eq holder noRun]
    exact shows.2

end

/-! ## Steps in texts -/

variable {start left right : Tree}

section

variable {all : Bool} {step : List Char → List Char}

/-- The texts of the runs in view are in view, so the step has been taken in them. -/
theorem SteppedAt.runKinds_eq {before after : Tree} {id run : NodeId}
    (stepped : before.SteppedAt before.Visible all step after) (preserved : before.Preserved after)
    (wf : before.WellFormed) (visible : before.Visible id)
    (element : before.attributeRun? id = some run) :
    after.runKinds id = (before.runKinds id).map (NodeKind.stepped all step) := by
  have reach := visible.reachable
  have items := preserved.attributeChildren_eq wf reach element (stepped.walkChildren_eq run)
  rw [runKinds, items, runKinds, List.map_filterMap]
  refine List.filterMap_congr fun item member => stepped.kind?_inside ?_
  rw [wf.attributeChildren_eq reach element] at member
  exact (visible.child (holds_attributeRun? element)).child
    (wf.shows_attributeRun reach element member)

/-- **A step in each text in view** leaves alike trees alike. -/
theorem Alike.stepped {left' right' : Tree} (alike : start.Alike left right)
    (stepped : left.SteppedAt left.Visible all step left')
    (stepped' : right.SteppedAt right.Visible all step right')
    (preserved : left.Preserved left') (preserved' : right.Preserved right')
    (wf : left'.WellFormed) (wf' : right'.WellFormed) : start.Alike left' right' where
  preserved := alike.preserved.trans preserved
  preserved' := alike.preserved'.trans preserved'
  wellFormed := wf
  wellFormed' := wf'
  runs := by
    intro id run visible element
    obtain ⟨seen, isElement⟩ := alike.preserved.element_after visible element
    obtain ⟨seen', isElement'⟩ := alike.preserved'.element_after visible element
    rw [stepped.runKinds_eq preserved alike.wellFormed seen isElement,
      stepped'.runKinds_eq preserved' alike.wellFormed' seen' isElement',
      alike.runs id run visible element]
  rest := by
    intro id off
    have inView := alike.preserved.visible_iff_of_offRuns off
    have inView' := alike.preserved'.visible_iff_of_offRuns off
    by_cases visible : start.Visible id
    · rw [stepped.kind?_inside (inView.mpr visible), stepped'.kind?_inside (inView'.mpr visible),
        alike.rest id off]
    · rw [stepped.kind?_outside fun seen => visible (inView.mp seen),
        stepped'.kind?_outside fun seen => visible (inView'.mp seen), alike.rest id off]

end

/-! ## Printing -/

/-- A node of the tree from which two trees were made that is the same in both: it stands off the
runs, or it is itself an attribute run in view. -/
def Common (start : Tree) (id : NodeId) : Prop :=
  start.OffRuns id ∨ ∃ element, start.Visible element ∧ start.attributeRun? element = some id

theorem WellFormed.offRuns_root (wf : start.WellFormed) : start.OffRuns root where
  known := .inl rfl
  off := by
    intro element visible member
    obtain ⟨run, isElement, isRun⟩ := exists_of_mem_runSlots member
    have holds := (holds_attributeRun? isElement).2
    rcases isRun with rfl | item
    · exact wf.root_free element visible.reachable holds
    · exact wf.root_free run (visible.reachable.child holds) item

/-- What is held by anything but a run in view is common. -/
theorem WellFormed.common_of_holds {holder held : NodeId} (wf : start.WellFormed)
    (reach : start.Reachable holder)
    (noRun : ∀ element, start.Visible element → start.attributeRun? element ≠ some holder)
    (holds : start.Holds holder held) : start.Common held := by
  by_cases inRun : ∃ element, start.Visible element ∧ held ∈ start.runSlots element
  · obtain ⟨element, visible, member⟩ := inRun
    obtain ⟨run, isElement, isRun⟩ := exists_of_mem_runSlots member
    rcases isRun with rfl | item
    · exact .inr ⟨element, visible, isElement⟩
    · have runReach := visible.reachable.child (holds_attributeRun? isElement).2
      obtain rfl := wf.holder_unique runReach item reach holds
      exact absurd isElement (noRun element visible)
  · exact .inl ⟨.inr (wf.lt_size_of_holds reach holds), fun element visible member =>
      inRun ⟨element, visible, member⟩⟩

/-- What is held by an item of a run in view is common: only old items hold anything. -/
theorem Preserved.common_of_item {tree : Tree} {element run item child : NodeId}
    (preserved : start.Preserved tree) (wf : start.WellFormed) (wf' : tree.WellFormed)
    (visible : start.Visible element) (isElement : start.attributeRun? element = some run)
    (member : item ∈ tree.attributeChildren element) (holds : tree.Holds item child) :
    start.Reachable child ∧ start.Common child := by
  obtain ⟨seen, isElement'⟩ := preserved.element_after visible isElement
  rw [wf'.attributeChildren_eq seen.reachable isElement'] at member
  have shown := wf'.shows_attributeRun seen.reachable isElement' member
  have inRun := preserved.holds_of_lt wf wf' (seen.child (holds_attributeRun? isElement')) shown
    (preserved.lt_of_holds holds)
  have runReach := visible.reachable.child (holds_attributeRun? isElement).2
  have noRun : ∀ other, start.Visible other → start.attributeRun? other ≠ some item :=
    fun other visible' isOther =>
      wf.not_holds_run visible'.reachable isOther visible.reachable isElement inRun
  rw [Holds, preserved.walkChildren_eq item noRun] at holds
  have reach := runReach.child inRun
  exact ⟨reach.child holds, wf.common_of_holds reach noRun holds⟩

/-- The items of a run print as their kinds. -/
theorem WellFormed.map_renderNode_attributeChildren {tree : Tree} {id : NodeId}
    (wf : tree.WellFormed) (reach : tree.Reachable id) (depth : Nat) :
    (tree.attributeChildren id).map (tree.renderNode (depth + 1)) =
      (tree.runKinds id).map (NodeKind.render (tree.renderNode depth)) := by
  have mapped := congrArg
    (List.map fun kind => (kind.map (NodeKind.render (tree.renderNode depth))).getD "")
    (wf.map_kind?_attributeChildren reach)
  rw [List.map_map, List.map_map] at mapped
  rw [funext (tree.renderNode_succ depth)]
  exact mapped

/-- The run of an element prints as its items one after the other. -/
theorem WellFormed.renderNode_attributeRun {tree : Tree} {id run : NodeId} (wf : tree.WellFormed)
    (reach : tree.Reachable id) (element : tree.attributeRun? id = some run) (depth : Nat) :
    tree.renderNode (depth + 1) run =
      String.join ((tree.attributeChildren id).map (tree.renderNode depth)) := by
  rw [renderNode_succ, wf.kind?_attributeRun reach element, wf.attributeChildren_eq reach element,
    wf.walkChildren_attributeRun reach element]
  rfl

namespace Alike

variable (alike : start.Alike left right) (wf : start.WellFormed)

include alike wf

/-- The items of a run print the same when what is common does, at less depth. -/
theorem map_renderNode_eq {element run : NodeId} (visible : start.Visible element)
    (isElement : start.attributeRun? element = some run) (depth : Nat)
    (deeper : ∀ less < depth, ∀ id, start.Reachable id → start.Common id →
      left.renderNode less id = right.renderNode less id) :
    (left.attributeChildren element).map (left.renderNode depth) =
      (right.attributeChildren element).map (right.renderNode depth) := by
  have reach := (alike.preserved.element_after visible isElement).1.reachable
  have reach' := (alike.preserved'.element_after visible isElement).1.reachable
  have kinds := alike.runs element run visible isElement
  cases depth with
  | zero =>
    have length := congrArg List.length (alike.wellFormed.map_kind?_attributeChildren reach)
    have length' := congrArg List.length (alike.wellFormed'.map_kind?_attributeChildren reach')
    rw [List.length_map, List.length_map] at length length'
    have nothing (tree : Tree) : tree.renderNode 0 = fun _ => "" := rfl
    rw [nothing, nothing, List.map_const', List.map_const', length, length', kinds]
  | succ depth =>
    rw [alike.wellFormed.map_renderNode_attributeChildren reach,
      alike.wellFormed'.map_renderNode_attributeChildren reach', ← kinds]
    refine List.map_congr_left fun kind member => NodeKind.render_congr fun child inKind => ?_
    obtain ⟨item, isItem, known⟩ := List.mem_filterMap.mp member
    have holds : left.Holds item child := by
      rw [Holds, walkChildren_of_kind? known]
      exact inKind
    obtain ⟨reached, common⟩ := alike.preserved.common_of_item wf alike.wellFormed visible isElement
      isItem holds
    exact deeper depth (Nat.lt_succ_self depth) child reached common

/-- Common nodes print the same in alike trees, down to any depth. -/
theorem renderNode_eq (depth : Nat) : ∀ id, start.Reachable id → start.Common id →
    left.renderNode depth id = right.renderNode depth id := by
  induction depth using Nat.strong_induction_on with
  | _ depth ih =>
    intro id reach common
    cases depth with
    | zero => rfl
    | succ depth =>
      rcases common with off | ⟨element, visible, isElement⟩
      · rw [renderNode_succ, renderNode_succ, ← alike.rest id off]
        cases known : left.kind? id with
        | none => rfl
        | some kind =>
          refine congrArg (Option.getD · "") (congrArg some (NodeKind.render_congr ?_))
          intro child member
          rw [← walkChildren_of_kind? known, alike.preserved.walkChildren_of_offRuns off] at member
          exact ih depth (Nat.lt_succ_self depth) child (reach.child member)
            (wf.common_of_holds reach off.ne_run member)
      · obtain ⟨seen, inLeft⟩ := alike.preserved.element_after visible isElement
        obtain ⟨seen', inRight⟩ := alike.preserved'.element_after visible isElement
        rw [alike.wellFormed.renderNode_attributeRun seen.reachable inLeft,
          alike.wellFormed'.renderNode_attributeRun seen'.reachable inRight,
          alike.map_renderNode_eq wf visible isElement depth fun less shallow =>
          ih less (Nat.lt_succ_of_lt shallow)]

/-- **Alike trees** print the same. -/
theorem markup_eq : left.markup = right.markup := by
  have deep := alike.renderNode_eq wf (left.size + right.size) root .root (.inl wf.offRuns_root)
  have enough : left.renderNode left.size root = left.renderNode (left.size + right.size) root :=
    renderNode_stable alike.wellFormed .root (Nat.le_add_left _ _)
      (by rw [List.length_nil]; omega)
  have enough' :
      right.renderNode right.size root = right.renderNode (left.size + right.size) root :=
    renderNode_stable alike.wellFormed' .root (Nat.le_add_left _ _)
      (by rw [List.length_nil]; omega)
  rw [markup, markup, markupOf, markupOf, enough, enough', deep]

end Alike

end Tree

end Templating.Markup
