import Templating.Proofs.Markup.Pass.Amending

/-!
# The buttons that are come to

The pass that completes buttons does not go into a button that declares its type. It comes to
a node exactly when none of its holders is such a button or an expression (`Tree.Offered`).
Since it declares types itself, only what the tree held at the start counts, and other passes
do not change that.

* `Visits.mem_nodes_iff_offered`: the pass comes to what was offered at the start.
* `exists_buttonType_remade`: it amends the runs of the buttons that were offered.
* `Tree.Preserved.offered_iff`: an old node is offered as before as long as types stay.
-/

namespace Templating.Markup

namespace Tree

/-- The node is a button that declares its type. -/
def Typed (tree : Tree) (id : NodeId) : Prop :=
  tree.isElement id "button" = true ∧ (tree.findAttribute id "type").isSome = true

instance (tree : Tree) (id : NodeId) : Decidable (tree.Typed id) :=
  inferInstanceAs (Decidable (_ ∧ _))

/-- A chain of holders without an expression or a button that declares its type leads from the
root to the node. -/
def Offered (tree : Tree) : NodeId → Prop :=
  Relation.ReflTransGen (fun holder held => ¬ tree.Typed holder ∧ tree.Shows holder held) root

theorem Offered.visible {tree : Tree} {id : NodeId} (offered : tree.Offered id) :
    tree.Visible id := by
  induction offered with
  | refl => exact Visible.root
  | tail _ step ih => exact ih.child step.2

theorem not_typed_of_no_element {tree : Tree} {id : NodeId}
    (noElement : tree.attributeRun? id = none) : ¬ tree.Typed id := by
  rintro ⟨isButton, -⟩
  obtain ⟨run, element⟩ := exists_attributeRun?_of_isElement isButton
  rw [noElement] at element
  cases element

namespace Preserved

variable {before after : Tree} {holder held id : NodeId} (preserved : before.Preserved after)
  (wf : before.WellFormed) (wf' : after.WellFormed)

include preserved wf wf'

/-- Nothing but blank text is left out by what showed it. -/
theorem shows (visible : before.Visible holder) (shows : before.Shows holder held)
    (dense : before.isBlankText held = false) : after.Shows holder held := by
  have inside := wf.lt_size_of_holds visible.reachable shows.2
  have notRoot : held ≠ root := by
    rintro rfl
    exact wf.root_free holder visible.reachable shows.2
  obtain ⟨other, seen, shows'⟩ :=
    (preserved.visible held inside (visible.child shows) dense).exists_shows notRoot
  have was := preserved.holds_of_lt wf wf' seen shows' inside
  have reach := (preserved.visible_of_lt other seen (preserved.lt_of_holds shows'.2)).reachable
  rwa [wf.holder_unique visible.reachable shows.2 reach was]

/-- **An old node is offered as before** as long as buttons declare their types as before. -/
theorem offered_iff (types : ∀ id, before.Visible id → (after.Typed id ↔ before.Typed id))
    (inside : id < before.size) (dense : before.isBlankText id = false) :
    after.Offered id ↔ before.Offered id := by
  constructor
  · intro offered
    clear dense
    induction offered with
    | refl => exact .refl
    | @tail holder held offered step ih =>
      have old := preserved.lt_of_holds step.2.2
      have seen : before.Visible holder :=
        preserved.visible_of_lt holder (Offered.visible offered) old
      refine (ih old).tail ⟨fun typed => step.1 ((types holder seen).mpr typed), ?_, ?_⟩
      · rw [← preserved.isExpression_eq]
        exact step.2.1
      · exact preserved.holds_of_lt wf wf' (Offered.visible offered) step.2 inside
  · intro offered
    induction offered with
    | refl => exact .refl
    | @tail holder held offered step ih =>
      have seen := Offered.visible offered
      refine (ih (lt_size_of_mem_walkChildren step.2.2) (isBlankText_eq_false step.2.2)).tail
        ⟨fun typed => step.1 ((types holder seen).mp typed), ?_⟩
      exact preserved.shows wf wf' seen step.2 dense

end Preserved

end Tree

/-! ## The walk -/

/-- Only a button that declares its type is not gone into. -/
theorem descent_completeButton {tree after : Tree} {id : NodeId} {descent : Descent}
    (outcome : completeButton id tree = .ok descent after) :
    descent = .enter ↔ ¬ tree.Typed id := by
  rw [completeButton, Edit.get_bind] at outcome
  cases isButton : tree.isElement id "button" with
  | false =>
    rw [isButton] at outcome
    cases outcome
    refine iff_of_true rfl ?_
    rintro ⟨isButton', -⟩
    rw [isButton] at isButton'
    cases isButton'
  | true =>
    rw [isButton] at outcome
    cases found : tree.findAttribute id "type" with
    | some item =>
      rw [found] at outcome
      cases outcome
      refine iff_of_false (fun same => by cases same) fun untyped => untyped ⟨isButton, ?_⟩
      rw [found]
      rfl
    | none =>
      rw [found] at outcome
      have untyped : ¬ tree.Typed id := by
        rintro ⟨-, isTyped⟩
        rw [found] at isTyped
        cases isTyped
      refine iff_of_true ?_ untyped
      simp only [Bool.not_true, Bool.false_eq_true, if_false, Option.isSome_none, bind,
        EStateM.bind] at outcome
      split at outcome
      · cases outcome
        rfl
      · cases outcome

section

variable {start final : Tree} {log : Log} {id : NodeId} {descent : Descent}
  (visits : Visits buttonType (.filling "button" "type" "button") start log final)
  (wf : start.WellFormed)

include visits wf

/-- The walk goes into what declared no type at the start. -/
theorem Visits.descent_iff (member : (id, descent) ∈ log) :
    descent = .enter ↔ ¬ start.Typed id := by
  cases element : start.attributeRun? id with
  | none =>
    obtain ⟨earlier, later, before, after, -, made, -, -, outcome, -⟩ := visits.split member
    have noElement := (made.preserved.attributeRun?_eq id).trans element
    rw [descent_completeButton (Pass.visit_ofDescent.mp outcome)]
    exact iff_of_true (Tree.not_typed_of_no_element noElement)
      (Tree.not_typed_of_no_element element)
  | some run =>
    obtain ⟨before, after, later, moment⟩ := visits.exists_moment wf member element
    have inside := Tree.lt_size_of_attributeRun? element
    have visible := visits.visible_start (List.mem_map_of_mem member) inside
    have names := moment.preserved.elementName?_eq id
    have found := moment.preserved.findAttribute_eq wf visible.reachable moment.sameRun.items "type"
    rw [descent_completeButton (Pass.visit_ofDescent.mp moment.visit), Tree.Typed, Tree.Typed,
      Tree.isElement, Tree.isElement, names, found]

variable (wf' : final.WellFormed) (frontier : Frontier final log [])

include wf' frontier

/-- **The pass comes to what was offered at the start.** -/
theorem Visits.mem_nodes_iff_offered (inside : id < start.size)
    (dense : start.isBlankText id = false) : id ∈ log.nodes ↔ start.Offered id := by
  have preserved := visits.preserved
  have visited : ∀ {id}, id ∈ log.nodes ++ [] ↔ id ∈ log.nodes := by
    intro id
    rw [List.append_nil]
  constructor
  · intro member
    have seen := frontier.visible id (visited.mpr member)
    clear dense
    induction seen with
    | refl => exact .refl
    | @tail holder held seen shows ih =>
      have reach : final.Reachable holder := Tree.Visible.reachable seen
      rcases frontier.linked held (visited.mpr member) with rfl | ⟨other, entered, holds⟩
      · exact .refl
      · have same : other = holder := wf'.holder_unique
          (frontier.visible other (List.mem_append_left _ (List.mem_map_of_mem entered))).reachable
          holds reach shows.2
        subst same
        refine (ih (preserved.lt_of_holds shows.2) (List.mem_map_of_mem entered)).tail
          ⟨(visits.descent_iff wf entered).mp rfl, ?_, ?_⟩
        · rw [← preserved.isExpression_eq]
          exact shows.1
        · exact preserved.holds_of_lt wf wf' seen shows inside
  · intro offered
    induction offered with
    | refl => exact visited.mp frontier.root_mem
    | @tail holder held offered step ih =>
      have member := ih (Tree.lt_size_of_mem_walkChildren step.2.2)
        (Tree.isBlankText_eq_false step.2.2)
      obtain ⟨⟨other, descent⟩, inLog, rfl⟩ := List.mem_map.mp member
      obtain rfl := (visits.descent_iff wf inLog).mpr step.1
      have shows := preserved.shows wf wf' (Tree.Offered.visible offered) step.2 dense
      exact visited.mp (frontier.closed other inLog held shows)

end

open Classical in
/-- What a button gets that is come to. -/
noncomputable def Tree.typing? (tree : Tree) (id : NodeId) : Option Amendment :=
  if tree.Offered id then tree.filling? "button" "type" "button" id else none

/-- **Completing buttons** amends the runs of those that were offered. -/
theorem exists_buttonType_remade {start : Tree} (wf : start.WellFormed) :
    ∃ final, buttonType.walk start = .ok () final ∧
      start.Remade (fun id => amended (start.typing? id)) final := by
  obtain ⟨log, final, walked, visits, wf', frontier⟩ := buttonType_local.exists_walk wf
  have reruns := buttonType_reruns start
  refine ⟨final, walked, visits.preserved, wf', fun id run visible element => ?_,
    fun id off => visits.kind?_of_offRuns reruns wf off⟩
  have dense := Tree.isBlankText_eq_false (Tree.holds_attributeRun? element).2
  have come := visits.mem_nodes_iff_offered wf wf' frontier (Tree.lt_size_of_attributeRun? element)
    dense
  obtain ⟨changed, kept⟩ := visits.runKinds reruns visible element
  rw [Tree.typing?]
  split
  · exact changed (come.mpr ‹_›)
  · exact kept fun member => ‹¬ _› (come.mp member)

end Templating.Markup
