import Templating.Proofs.Markup.Visits

/-!
# Pipelines of local passes

`Tree.Outcome` says what a walk, and after it a whole pipeline, leaves of a tree: the tree is
well-formed, preserved, and no attribute run has lost or got more than was allowed. Allowances add
up along a pipeline as long as only its first pass may rewrite attributes.

* `Pass.Local.exists_outcome`: every walk of a local pass has an outcome.
* `Tree.Outcome.andThen`: outcomes one after the other are one.
* `Pipeline.exists_outcome`: every run of a pipeline of local passes ends with one.
-/

namespace Templating.Markup

/-- What a pass or a pipeline leaves of a well-formed tree. -/
structure Tree.Outcome (before : Tree) (allowance : Allowance) (after : Tree) : Prop
    extends Tree.Preserved before after where
  wellFormed : after.WellFormed
  runKept : ∀ id run, before.Visible id → before.attributeRun? id = some run →
    before.RunKept after id (allowance.added before id) (allowance.rewritten before id)

/-- **A walk** of a local pass over a well-formed tree has an outcome. -/
theorem Pass.Local.exists_outcome {pass : Pass} {allowance : Allowance} {start : Tree}
    (isLocal : pass.Local allowance) (wf : start.WellFormed) :
    ∃ final, pass.walk start = .ok () final ∧ start.Outcome allowance final := by
  obtain ⟨log, final, walked, visits, wf', -⟩ := isLocal.exists_walk wf
  exact ⟨final, walked, visits.preserved, wf', fun _ _ visible element =>
    (visits.runKept wf visible element).1⟩

namespace Allowance

/-- Whether a pass may rewrite no attribute. -/
def Additive (allowance : Allowance) : Prop :=
  ∀ tree id, allowance.rewritten tree id = .none

/-- What two passes may do one after the other, the second of which rewrites nothing. -/
def andThen (first second : Allowance) : Allowance where
  added := fun tree id => first.added tree id ++ second.added tree id
  rewritten := first.rewritten
  added_sublist := fun retouched inside missing =>
    (first.added_sublist retouched inside missing).append
      (second.added_sublist retouched inside missing)
  rewritten_eq := first.rewritten_eq
  rewritten_mem := first.rewritten_mem

/-- What passes may do one after the other. -/
def all (allowances : List Allowance) : Allowance :=
  allowances.foldr andThen .none

theorem additive_all {allowances : List Allowance}
    (additive : ∀ allowance ∈ allowances, allowance.Additive) : (all allowances).Additive := by
  cases allowances with
  | nil => exact fun _ _ => rfl
  | cons first rest => exact additive first List.mem_cons_self

end Allowance

namespace Tree.Outcome

theorem refl {tree : Tree} (wf : tree.WellFormed) : tree.Outcome .none tree where
  toPreserved := .refl tree
  wellFormed := wf
  runKept := fun _ _ visible _ => .refl wf visible.reachable

/-- A node that is no element has no attribute run to lose anything from. -/
theorem runKept_of_visible {before after : Tree} {allowance : Allowance} {id : NodeId}
    (outcome : before.Outcome allowance after) (wf : before.WellFormed)
    (visible : before.Visible id) :
    before.RunKept after id (allowance.added before id) (allowance.rewritten before id) := by
  cases isElement : before.attributeRun? id with
  | some run => exact outcome.runKept id run visible isElement
  | none =>
    have noItems : before.attributeChildren id = [] := by rw [attributeChildren, isElement]; rfl
    have items : after.attributeChildren id = before.attributeChildren id := by
      rw [noItems, attributeChildren, outcome.attributeRun?_eq, isElement]
      rfl
    refine (RunKept.of_attributeChildren_eq outcome.toRetouched wf visible.reachable items
      fun item member => ?_).weaken (List.nil_sublist _)
    rw [runAttributes, noItems] at member
    cases member

/-- **One pass after another.** What the second adds to the tree that the first left was missing
before the first. -/
theorem andThen {before middle after : Tree} {allowance next : Allowance} (wf : before.WellFormed)
    (first : before.Outcome allowance middle) (second : middle.Outcome next after)
    (additive : next.Additive) : before.Outcome (allowance.andThen next) after where
  toPreserved := first.toPreserved.trans second.toPreserved
  wellFormed := second.wellFormed
  runKept := by
    intro id run visible element
    have inside := lt_size_of_attributeRun? element
    have noText := isBlankText_eq_false (holds_attributeRun? element).2
    have kept := first.runKept id run visible element
    have kept' := second.runKept id run (first.visible id inside visible noText)
      ((first.attributeRun?_eq id).trans element)
    rw [additive] at kept'
    have fewer := next.added_sublist first.toRetouched inside fun name missing =>
      kept.findAttribute_eq_none first.toRetouched wf visible.reachable missing
    exact kept.trans (kept'.spare.weaken fewer) first.size_le fun item member =>
      wf.lt_size_of_mem_attributeChildren visible.reachable (allowance.rewritten_mem member)

end Tree.Outcome

namespace Pipeline

theorem run_cons {pass : Pass} {before middle : Tree} (rest : Pipeline)
    (walked : pass.walk before = .ok () middle) :
    Pipeline.run (pass :: rest) before = Pipeline.run rest middle := by
  rw [Pipeline.run, List.forM_eq_forM, List.forM_cons]
  simp only [bind, EStateM.bind, walked]
  rfl

/-- A pipeline goes on behind some of its passes from what these leave. -/
theorem run_append {passes : Pipeline} {before middle : Tree} (rest : Pipeline)
    (ran : Pipeline.run passes before = .ok () middle) :
    Pipeline.run (passes ++ rest) before = Pipeline.run rest middle := by
  rw [Pipeline.run, List.forM_eq_forM] at ran
  rw [Pipeline.run, List.forM_eq_forM, List.forM_append]
  simp only [bind, EStateM.bind, ran]
  rfl

/-- **A run** of local passes, of which only the first rewrites attributes, has an outcome. -/
theorem exists_outcome (passes : List (Pass × Allowance))
    (locals : ∀ pass ∈ passes, pass.1.Local pass.2)
    (additive : ∀ pass ∈ passes.tail, pass.2.Additive) {start : Tree} (wf : start.WellFormed) :
    ∃ final, Pipeline.run (passes.map Prod.fst) start = .ok () final ∧
      start.Outcome (.all (passes.map Prod.snd)) final := by
  induction passes generalizing start with
  | nil => exact ⟨start, rfl, .refl wf⟩
  | cons pass rest ih =>
    obtain ⟨middle, walked, outcome⟩ := (locals pass List.mem_cons_self).exists_outcome wf
    obtain ⟨final, ran, outcome'⟩ := ih
      (fun other member => locals other (List.mem_cons_of_mem _ member))
      (fun other member => additive other (List.mem_of_mem_tail member)) outcome.wellFormed
    refine ⟨final, (run_cons _ walked).trans ran, outcome.andThen wf outcome' ?_⟩
    refine Allowance.additive_all fun allowance member => ?_
    obtain ⟨other, inRest, rfl⟩ := List.mem_map.mp member
    exact additive other inRest

end Pipeline

end Templating.Markup
