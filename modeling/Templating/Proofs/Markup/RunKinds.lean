import Templating.Proofs.Markup.Moment

/-!
# Attribute runs without their slots

Two trees can hold the same markup in different slots. What is compared of an attribute run is then
what its slots hold (`Tree.runKinds`), and what is compared of the rest of a tree are the slots
themselves, since nothing but runs gets new slots.

* `Pass.Reruns`: a pass that changes attribute runs, each at the visit of its element, and nothing
  else.
* `Tree.Remade`: what such a pass makes of a tree; `Tree.Remade.trans` adds up what passes make.
* `Visits.runKinds`, `Visits.kind?_of_offRuns`: a walk changes the runs of the elements that it has
  visited, each once.
-/

namespace Templating.Markup

namespace Tree

/-- What stands in the attribute run of an element. -/
def runKinds (tree : Tree) (id : NodeId) : List NodeKind :=
  (tree.attributeChildren id).filterMap tree.kind?

/-- The node is the root or has a slot, and is not among the slots of an attribute run in view. -/
structure OffRuns (tree : Tree) (id : NodeId) : Prop where
  known : id = root ∨ id < tree.size
  off : ∀ element, tree.Visible element → id ∉ tree.runSlots element

section

variable {before after : Tree} {id : NodeId}

theorem runKinds_congr (items : after.attributeChildren id = before.attributeChildren id)
    (kinds : ∀ item ∈ before.attributeChildren id, after.kind? item = before.kind? item) :
    after.runKinds id = before.runKinds id := by
  rw [runKinds, runKinds, items]
  exact List.filterMap_congr kinds

/-- Every item of a run has a kind. -/
theorem WellFormed.map_kind?_attributeChildren (wf : before.WellFormed)
    (reach : before.Reachable id) :
    (before.attributeChildren id).map before.kind? = (before.runKinds id).map some := by
  have known : ∀ item ∈ before.attributeChildren id, ∃ kind, before.kind? item = some kind := by
    intro item member
    obtain ⟨node, slot⟩ := exists_get? (wf.lt_size_of_mem_attributeChildren reach member)
    exact ⟨_, kind?_of_get? slot⟩
  rw [runKinds]
  generalize before.attributeChildren id = items at known
  induction items with
  | nil => rfl
  | cons item rest ih =>
    obtain ⟨kind, isKind⟩ := known item List.mem_cons_self
    rw [List.map_cons, List.filterMap_cons_some isKind, List.map_cons, isKind,
      ih fun other member => known other (List.mem_cons_of_mem item member)]

theorem footprint_eq_runSlots {run : NodeId} (element : before.attributeRun? id = some run) :
    before.footprint id = before.runSlots id := by
  obtain ⟨name, children, known⟩ := kind?_of_attributeRun? element
  rw [footprint, known, runSlots_of_attributeRun? element]

theorem mem_runSlots_of_mem_attributeChildren {item run : NodeId} (wf : before.WellFormed)
    (reach : before.Reachable id) (element : before.attributeRun? id = some run)
    (member : item ∈ before.attributeChildren id) : item ∈ before.runSlots id := by
  rw [wf.attributeChildren_eq reach element] at member
  rw [runSlots_of_attributeRun? element]
  exact List.mem_cons_of_mem run member

end

/-! ## What one visit leaves alone -/

namespace Touched

variable {before after : Tree} {visited id run : NodeId} (touched : before.Touched visited after)
  (element : before.attributeRun? visited = some run)

include touched element

/-- The visit of an element changes nothing off the attribute runs. -/
theorem kind?_of_offRuns (visible : before.Visible visited) (off : before.OffRuns id) :
    after.kind? id = before.kind? id := by
  have inside : id < before.size := by
    rcases off.known with rfl | inside
    · exact Nat.lt_of_le_of_lt (Nat.zero_le visited) (lt_size_of_attributeRun? element)
    · exact inside
  have outside := off.off visited visible
  rw [← footprint_eq_runSlots element] at outside
  rw [kind?, kind?, touched.outside id inside outside]

/-- The visit of an element changes the run of no other one. -/
theorem runKinds_of_ne {other : NodeId} (wf : before.WellFormed) (seen : before.Reachable visited)
    (reach : before.Reachable id) (isElement : before.attributeRun? id = some other)
    (differ : id ≠ visited) : after.runKinds id = before.runKinds id := by
  have notRun : before.attributeRun? visited ≠ some other := fun same =>
    differ (wf.holder_unique reach (holds_attributeRun? isElement).2 seen
      (holds_attributeRun? same).2)
  refine runKinds_congr (touched.attributeChildren_eq wf reach isElement
    (touched.walkChildren_eq other notRun)) fun item member => ?_
  have inside := wf.lt_size_of_mem_attributeChildren reach member
  have inRun := mem_runSlots_of_mem_attributeChildren wf reach isElement member
  have outside : item ∉ before.footprint visited := by
    rw [footprint_eq_runSlots element]
    exact fun inSlots => differ (eq_of_mem_runSlots wf (fun _ _ => reach) (fun _ _ => seen) inRun
      inSlots)
  rw [kind?, kind?, touched.outside item inside outside]

end Touched

/-- What is off the runs stays off them: no old node gets into a run. -/
theorem Preserved.offRuns {before after : Tree} {id : NodeId} (preserved : before.Preserved after)
    (wf : before.WellFormed) (wf' : after.WellFormed) (off : before.OffRuns id) :
    after.OffRuns id where
  known := off.known.imp_right fun inside => Nat.lt_of_lt_of_le inside preserved.size_le
  off := by
    intro element visible member
    obtain ⟨run, isElement, isRun⟩ := exists_of_mem_runSlots member
    obtain ⟨visible', isElement'⟩ := preserved.element visible isElement
    have outside := off.off element visible'
    rw [runSlots_of_attributeRun? isElement', List.mem_cons, not_or] at outside
    rcases isRun with rfl | item
    · exact outside.1 rfl
    · have runReach := visible.reachable.child (holds_attributeRun? isElement).2
      rcases off.known with rfl | inside
      · exact wf'.root_free run runReach item
      · have seen := visible.child (holds_attributeRun? isElement)
        have shows := wf'.shows_attributeRun visible.reachable isElement item
        exact outside.2 (preserved.holds_of_lt wf wf' seen shows inside)

end Tree

/-! ## Passes over attribute runs -/

/-- A pass that changes nothing but attribute runs, each at the visit of its element: over the trees
made from `start`, what stood in the run of `id` becomes `change id` of it. -/
structure Pass.Reruns (pass : Pass) (start : Tree)
    (change : NodeId → List NodeKind → List NodeKind) : Prop where
  idle : ∀ {before after id descent}, before.attributeRun? id = none →
    pass.visit id before = .ok descent after → after = before
  run : ∀ {before after id run descent}, start.Preserved before → before.WellFormed →
    before.Visible id → before.attributeRun? id = some run → before.Touched id after →
    pass.visit id before = .ok descent after →
    after.runKinds id = change id (before.runKinds id)

namespace Visits

variable {pass : Pass} {allowance : Allowance} {start tree : Tree} {log : Log}
  {change : NodeId → List NodeKind → List NodeKind} (visits : Visits pass allowance start log tree)
  (reruns : pass.Reruns start change)

include visits reruns

/-- In the course of a walk the runs of the visited elements have been changed. -/
theorem runKinds {id run : NodeId} (visible : start.Visible id)
    (element : start.attributeRun? id = some run) :
    (id ∈ log.nodes → tree.runKinds id = change id (start.runKinds id)) ∧
      (id ∉ log.nodes → tree.runKinds id = start.runKinds id) := by
  induction visits with
  | start => exact ⟨nofun, fun _ => rfl⟩
  | @visit log before after visited descent made wf' seen new outcome effect ih =>
    obtain ⟨visible', element'⟩ := made.preserved.element_after visible element
    by_cases same : id = visited
    · subst same
      have changed := reruns.run made.preserved wf' seen element' effect.toTouched outcome
      rw [ih.2 new] at changed
      exact ⟨fun _ => changed, fun other => absurd List.mem_cons_self other⟩
    · have kept : after.runKinds id = before.runKinds id := by
        cases isElement : before.attributeRun? visited with
        | none => rw [reruns.idle isElement outcome]
        | some other =>
          exact effect.runKinds_of_ne isElement wf' seen.reachable visible'.reachable element' same
      rw [kept]
      exact ⟨fun member => ih.1 ((List.mem_cons.mp member).resolve_left same),
        fun other => ih.2 fun member => other (List.mem_cons_of_mem _ member)⟩

/-- What is off the runs is not changed. -/
theorem kind?_of_offRuns (wf : start.WellFormed) {id : NodeId} (off : start.OffRuns id) :
    tree.kind? id = start.kind? id := by
  induction visits with
  | start => rfl
  | @visit log before after visited descent made wf' seen new outcome effect ih =>
    rw [← ih]
    cases isElement : before.attributeRun? visited with
    | none => rw [reruns.idle isElement outcome]
    | some run =>
      exact effect.kind?_of_offRuns isElement seen (made.preserved.offRuns wf wf' off)

end Visits

/-! ## Remade trees -/

/-- `after` is `before` with each attribute run in view changed, and nothing else. -/
structure Tree.Remade (change : NodeId → List NodeKind → List NodeKind) (before after : Tree) : Prop
    extends before.Preserved after where
  wellFormed : after.WellFormed
  runs : ∀ id run, before.Visible id → before.attributeRun? id = some run →
    after.runKinds id = change id (before.runKinds id)
  rest : ∀ id, before.OffRuns id → after.kind? id = before.kind? id

namespace Tree.Remade

variable {change change' : NodeId → List NodeKind → List NodeKind} {before middle after : Tree}

theorem refl (wf : before.WellFormed) : before.Remade (fun _ kinds => kinds) before where
  toPreserved := .refl before
  wellFormed := wf
  runs := fun _ _ _ _ => rfl
  rest := fun _ _ => rfl

theorem congr (remade : before.Remade change after)
    (same : ∀ id run, before.Visible id → before.attributeRun? id = some run →
      change id = change' id) : before.Remade change' after where
  toPreserved := remade.toPreserved
  wellFormed := remade.wellFormed
  runs := fun id run visible element => by
    rw [remade.runs id run visible element, same id run visible element]
  rest := remade.rest

/-- **Changes of the runs** follow one another. -/
theorem trans (wf : before.WellFormed) (first : before.Remade change middle)
    (second : middle.Remade change' after) :
    before.Remade (fun id kinds => change' id (change id kinds)) after where
  toPreserved := first.toPreserved.trans second.toPreserved
  wellFormed := second.wellFormed
  runs := by
    intro id run visible element
    obtain ⟨visible', element'⟩ := first.element_after visible element
    rw [second.runs id run visible' element', first.runs id run visible element]
  rest := by
    intro id off
    rw [second.rest id (first.offRuns wf first.wellFormed off), first.rest id off]

end Tree.Remade

/-- **A walk that prunes nothing** changes every attribute run in view. -/
theorem Pass.Local.exists_remade {name : String} {edit : NodeId → Edit Unit} {allowance : Allowance}
    {change : NodeId → List NodeKind → List NodeKind} {start : Tree}
    (isLocal : (Pass.ofEdit name edit).Local allowance)
    (reruns : (Pass.ofEdit name edit).Reruns start change) (wf : start.WellFormed) :
    ∃ final, (Pass.ofEdit name edit).walk start = .ok () final ∧ start.Remade change final := by
  obtain ⟨log, final, walked, visits, wf', visited⟩ := isLocal.exists_finished wf
  refine ⟨final, walked, visits.preserved, wf', fun id run visible element => ?_,
    fun id off => visits.kind?_of_offRuns reruns wf off⟩
  have seen := (visits.preserved.element_after visible element).1
  exact (visits.runKinds reruns visible element).1 (List.mem_map_of_mem (visited id seen))

end Templating.Markup
