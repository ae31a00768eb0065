import Templating.Proofs.Markup.Commuting

/-!
# Which images and buttons are completed

The pass that completes buttons does not go into a button that declares its type, but no other pass
heeds that, and a type that it has added itself does not keep it out. So every image in view has an
`alt` in the end, and a button in view gets a type just when it had none at the start and is in no
button that had one.

* `Tree.WellFormed.offered_iff`: the buttons that are come to, by their ancestors.
* `Tree.RunKept.gains_iff`: an attribute is gained when its name was missing and
  is found in the end.
* `PipelineConfig.exists_completed`: the names that are found behind the canonical pipeline.
* `canonical_run_completes`: the result for images and buttons.
-/

namespace Templating.Markup

open Templating.Text

namespace Tree

/-! ## Ancestors -/

section

variable {tree : Tree} {ancestor holder held id : NodeId} (wf : tree.WellFormed)

include wf

theorem WellFormed.not_below_root (reach : tree.Reachable ancestor) :
    ¬ tree.Below ancestor root := by
  intro below
  obtain ⟨holder, above, holds⟩ := Relation.TransGen.tail'_iff.mp below
  exact wf.root_free holder (reach.trans above) holds

/-- What is above a held node is its holder or above that. -/
theorem WellFormed.below_iff (reach : tree.Reachable holder) (holds : tree.Holds holder held)
    (reach' : tree.Reachable ancestor) :
    tree.Below ancestor held ↔ ancestor = holder ∨ tree.Below ancestor holder := by
  constructor
  · intro below
    obtain ⟨other, above, holds'⟩ := Relation.TransGen.tail'_iff.mp below
    obtain rfl := wf.holder_unique reach holds (reach'.trans above) holds'
    exact (Relation.reflTransGen_iff_eq_or_transGen.mp above).imp_left Eq.symm
  · rintro (rfl | below)
    · exact .single holds
    · exact below.tail holds

/-- **A node in view is offered** when none of its ancestors is a button that declares its type. -/
theorem WellFormed.offered_iff (visible : tree.Visible id) : tree.Offered id ↔
    ∀ ancestor, tree.Reachable ancestor → tree.Below ancestor id → ¬ tree.Typed ancestor := by
  constructor
  · intro offered
    clear visible
    induction offered with
    | refl => exact fun ancestor reach below => absurd below (wf.not_below_root reach)
    | @tail holder held offered step ih =>
      intro ancestor reach below
      have reached := (Offered.visible offered).reachable
      rcases (wf.below_iff reached step.2.2 reach).mp below with rfl | above
      · exact step.1
      · exact ih ancestor reach above
  · intro untyped
    induction visible with
    | refl => exact .refl
    | @tail holder held visible shows ih =>
      have offered := ih fun ancestor reach below =>
        untyped ancestor reach (below.tail shows.2)
      have reached : tree.Reachable holder := Visible.reachable visible
      exact offered.tail ⟨untyped holder reached (.single shows.2), shows⟩

end

/-! ## Gained attributes -/

/-- The run of an element has got an attribute in a slot that was not in it. -/
def Gains (before after : Tree) (element : NodeId) (name value : String) : Prop :=
  ∃ item ∈ after.attributeChildren element, item ∉ before.attributeChildren element ∧
    after.kind? item = some (.literal name value)

theorem isSome_findAttribute_iff {tree : Tree} {element : NodeId} {name : String} :
    (tree.findAttribute element name).isSome = true ↔
      ∃ item ∈ tree.runAttributes element, tree.hasLiteralName name item = true := by
  rw [findAttribute, List.find?_isSome]
  constructor
  · rintro ⟨item, member, named⟩
    exact ⟨item, List.mem_filter.mpr ⟨member, isAttribute_of_hasLiteralName named⟩, named⟩
  · rintro ⟨item, member, named⟩
    exact ⟨item, (List.mem_filter.mp member).1, named⟩

namespace RunKept

variable {before after : Tree} {element : NodeId} {added : List NodeKind}
  {rewritten : Option NodeId} {name value : String}
  (kept : before.RunKept after element added rewritten) (retouched : before.Retouched after)
  (wf : before.WellFormed) (reach : before.Reachable element)

include kept retouched wf reach

/-- Where nothing is added the same names are found. -/
theorem isSome_findAttribute_eq (none : added = []) :
    (after.findAttribute element name).isSome = (before.findAttribute element name).isSome := by
  rw [Bool.eq_iff_iff]
  constructor
  · intro found
    obtain ⟨item, member, named⟩ := isSome_findAttribute_iff.mp found
    rcases kept.old_or_new member with old | ⟨-, kind, allowed, -⟩
    · have inside := wf.lt_size_of_mem_attributeChildren reach (List.mem_filter.mp old).1
      rw [retouched.hasLiteralName_eq inside] at named
      exact isSome_findAttribute_iff.mpr ⟨item, old, named⟩
    · rw [none] at allowed
      cases allowed
  · intro found
    by_contra lacks
    have missing := Option.not_isSome_iff_eq_none.mp lacks
    rw [kept.findAttribute_eq_none retouched wf reach missing] at found
    cases found

/-- **An attribute is gained** when its name was missing and is found, as long as it is the only one
of its name that may be added, and that only where the name is missing. -/
theorem gains_iff (only : ∀ kind ∈ added, kind.isNamed name = true →
      kind = .literal name value ∧ before.findAttribute element name = none) :
    before.Gains after element name value ↔ before.findAttribute element name = none ∧
      (after.findAttribute element name).isSome = true := by
  constructor
  · rintro ⟨item, member, isNew, known⟩
    have named : after.hasLiteralName name item = true := by
      rw [hasLiteralName_eq_any, known]
      exact sameName_refl name
    have listed : item ∈ after.runAttributes element :=
      List.mem_filter.mpr ⟨member, isAttribute_of_hasLiteralName named⟩
    refine ⟨?_, isSome_findAttribute_iff.mpr ⟨item, listed, named⟩⟩
    rcases kept.old_or_new listed with old | ⟨-, kind, allowed, known'⟩
    · exact absurd (List.mem_filter.mp old).1 isNew
    · obtain rfl := Option.some.inj (known.symm.trans known')
      exact (only _ allowed (sameName_refl name)).2
  · rintro ⟨missing, found⟩
    obtain ⟨item, listed, named⟩ := isSome_findAttribute_iff.mp found
    rcases kept.old_or_new listed with old | ⟨beyond, kind, allowed, known⟩
    · have inside := wf.lt_size_of_mem_attributeChildren reach (List.mem_filter.mp old).1
      rw [retouched.hasLiteralName_eq inside] at named
      have found' := isSome_findAttribute_iff.mpr ⟨item, old, named⟩
      rw [missing] at found'
      cases found'
    · rw [hasLiteralName_eq_any, known] at named
      obtain ⟨rfl, -⟩ := only kind allowed named
      refine ⟨item, (List.mem_filter.mp listed).1, fun inRun => ?_, known⟩
      exact absurd (wf.lt_size_of_mem_attributeChildren reach inRun) (Nat.not_lt_of_le beyond)

end RunKept

theorem eq_literal_of_mem_filling {tree : Tree} {tag name value : String} {id : NodeId}
    {kind : NodeKind} (member : kind ∈ tree.filling tag name value id) :
    kind = .literal name value ∧ tree.findAttribute id name = none := by
  rw [filling] at member
  split at member
  · rename_i due
    obtain ⟨-, missing⟩ := Bool.and_eq_true_iff.mp due
    exact ⟨List.mem_singleton.mp member, Option.isNone_iff_eq_none.mp missing⟩
  · cases member

end Tree

theorem HeadingMarkers.eq_literal_of_mem_added {markers : HeadingMarkers} {tree : Tree}
    {id : NodeId} {kind : NodeKind} (member : kind ∈ markers.added tree id) :
    ∃ marker, kind = .literal "class" marker := by
  unfold added at member
  split at member
  · split at member
    · exact ⟨_, List.mem_singleton.mp member⟩
    · cases member
  · cases member

/-- What an image or a button has due. -/
theorem Tree.isSome_filling? (tree : Tree) (tag name value : String) (id : NodeId) :
    (tree.filling? tag name value id).isSome = tree.isElement id tag := by
  rw [filling?]
  split
  · exact ‹_ = true›.symm
  · exact (Bool.eq_false_iff.mpr ‹_›).symm

theorem Tree.isSome_typing?_iff {tree : Tree} {id : NodeId} : (tree.typing? id).isSome = true ↔
    tree.Offered id ∧ tree.isElement id "button" = true := by
  rw [typing?, ← tree.isSome_filling? "button" "type" "button" id]
  split
  · exact (and_iff_right ‹_›).symm
  · exact iff_of_false nofun fun both => ‹¬ _› both.1

/-! ## The canonical pipeline -/

namespace PipelineConfig

variable {config : PipelineConfig} {pipeline : Pipeline} {tree : Tree}

/-- The only type that is added is that of a button without one. -/
theorem eq_type_of_mem_additions {id : NodeId} {kind : NodeKind}
    (member : kind ∈ config.additions tree id) (named : kind.isNamed "type" = true) :
    kind = .literal "type" "button" ∧ tree.findAttribute id "type" = none := by
  rw [additions, List.mem_append, List.mem_append] at member
  rcases member with (marking | image) | button
  · obtain ⟨marker, rfl⟩ := HeadingMarkers.eq_literal_of_mem_added marking
    have apart : NodeKind.isNamed "type" (.literal "class" marker) = false := by
      show sameName "class" "type" = false
      decide
    rw [apart] at named
    cases named
  · obtain ⟨rfl, -⟩ := Tree.eq_literal_of_mem_filling image
    exact absurd named (by decide)
  · exact Tree.eq_literal_of_mem_filling button

/-- The passes that run when attributes have been added, with the attributes that they may add. -/
theorem exists_finished (config : PipelineConfig) (wf : tree.WellFormed) :
    ∃ after allowance, Pipeline.run config.finishing tree = .ok () after ∧
      tree.Outcome allowance after ∧ ∀ id, allowance.added tree id = [] := by
  -- The first three passes are those that add attributes.
  have listed : (config.passes.drop 3).map Prod.fst = config.finishing := by
    unfold passes finishing texting
    cases config.compress <;> rfl
  obtain ⟨after, ran, outcome⟩ := Pipeline.exists_outcome (config.passes.drop 3)
    (fun _ member => local_of_mem_passes (List.mem_of_mem_drop member))
    (fun _ member => additive_of_mem_tail
      (List.mem_of_mem_drop (i := 2) (l := config.passes.tail) (List.mem_of_mem_tail member))) wf
  rw [listed] at ran
  refine ⟨after, _, ran, outcome, fun id => ?_⟩
  unfold passes
  cases config.compress <;> rfl

/-- **The names that are found** behind the canonical pipeline: those that were there and those that
an amending pass had for the element. -/
theorem exists_completed (built : canonical config = .ok pipeline) (wf : tree.WellFormed) :
    ∃ after, Pipeline.run pipeline tree = .ok () after ∧
      ∀ id run name, tree.Visible id → tree.attributeRun? id = some run →
        (after.findAttribute id name).isSome = ((tree.findAttribute id name).isSome ||
          (config.amenders wf).any fun amender =>
            sameName amender.name name && (amender.due id).isSome) := by
  obtain ⟨middle, ran, remade⟩ := Amender.exists_run (config.amenders wf)
    (config.pairwise_amenders wf) (.refl tree) wf fun _ _ _ _ _ _ => rfl
  obtain ⟨after, allowance, ran', outcome, silent⟩ := config.exists_finished remade.wellFormed
  rw [eq_finishing_of_canonical wf built]
  refine ⟨after, (Pipeline.run_append _ ran).trans ran', fun id run name visible element => ?_⟩
  obtain ⟨seen, element'⟩ := remade.element_after visible element
  rw [← Amender.isSome_findAttribute remade wf visible element]
  exact (outcome.runKept id run seen element').isSome_findAttribute_eq outcome.toRetouched
    remade.wellFormed seen.reachable (silent id)

/-- The only `alt` that is due is that of an image. -/
theorem any_due_alt (config : PipelineConfig) (wf : tree.WellFormed) (id : NodeId) :
    ((config.amenders wf).any fun amender =>
      sameName amender.name "alt" && (amender.due id).isSome) = tree.isElement id "img" := by
  have classAlt : sameName "class" "alt" = false := by decide
  have altAlt : sameName "alt" "alt" = true := by decide
  have typeAlt : sameName "type" "alt" = false := by decide
  simp only [amenders, HeadingMarkers.amender, imageAmender, buttonAmender, List.any_cons,
    List.any_nil, classAlt, altAlt, typeAlt, Bool.false_and, Bool.true_and, Bool.false_or,
    Bool.or_false, Tree.isSome_filling?]

/-- The only type that is due is that of a button that is offered. -/
theorem any_due_type (config : PipelineConfig) (wf : tree.WellFormed) (id : NodeId) :
    ((config.amenders wf).any fun amender =>
      sameName amender.name "type" && (amender.due id).isSome) = (tree.typing? id).isSome := by
  have classType : sameName "class" "type" = false := by decide
  have altType : sameName "alt" "type" = false := by decide
  have typeType : sameName "type" "type" = true := by decide
  simp only [amenders, HeadingMarkers.amender, imageAmender, buttonAmender, List.any_cons,
    List.any_nil, classType, altType, typeType, Bool.false_and, Bool.true_and, Bool.false_or,
    Bool.or_false]

end PipelineConfig

/-- **Which images and buttons are completed.** Behind the canonical pipeline every image in view
has an `alt`, and a button in view has gained a type just when it had none and no ancestor of it was
a button that had one. -/
theorem canonical_run_completes (config : PipelineConfig) (pipeline : Pipeline)
    (built : canonical config = .ok pipeline) (tree : Tree) (wf : tree.WellFormed) :
    ∃ after, Pipeline.run pipeline tree = .ok () after ∧
      (∀ id, after.Visible id → after.isElement id "img" = true →
        (after.findAttribute id "alt").isSome = true) ∧
      ∀ id, tree.Visible id → tree.isElement id "button" = true →
        (tree.Gains after id "type" "button" ↔ tree.findAttribute id "type" = none ∧
          ∀ ancestor, tree.Reachable ancestor → tree.Below ancestor id →
            ¬ tree.Typed ancestor) := by
  obtain ⟨after, ran, outcome⟩ := exists_canonical_outcome built wf
  obtain ⟨after', ran', found⟩ := PipelineConfig.exists_completed built wf
  obtain rfl : after' = after := by
    cases ran.symm.trans ran'
    rfl
  refine ⟨after', ran, ?_, ?_⟩
  · intro id seen isImage
    obtain ⟨run, isElement⟩ := Tree.exists_attributeRun?_of_isElement isImage
    obtain ⟨visible, element⟩ := outcome.element seen isElement
    rw [Tree.isElement, outcome.elementName?_eq, ← Tree.isElement] at isImage
    rw [found id run "alt" visible element, config.any_due_alt wf, isImage, Bool.or_true]
  · intro id visible isButton
    obtain ⟨run, element⟩ := Tree.exists_attributeRun?_of_isElement isButton
    have kept : tree.RunKept after' id (config.additions tree id)
        (config.markers.rewritten tree id) := by
      rw [← PipelineConfig.added_eq_additions]
      exact outcome.runKept id run visible element
    -- What is due to the button is told by the input alone, and so are the buttons
    -- that are offered.
    have due : (tree.typing? id).isSome = true ↔ tree.Offered id := by
      rw [Tree.isSome_typing?_iff, and_iff_left isButton]
    rw [kept.gains_iff outcome.toRetouched wf visible.reachable
      fun _ => PipelineConfig.eq_type_of_mem_additions, ← wf.offered_iff visible]
    refine and_congr_right fun missing => ?_
    rw [found id run "type" visible element, config.any_due_type wf, missing, Option.isSome_none,
      Bool.false_or, due]

/-- A button that declares its type and holds an image and another button, and a button without a
type that holds one more. -/
def nestedTree : Tree :=
  ⟨#[⟨.fragment [1, 8], none⟩, ⟨.element "BUTTON" 2 [4, 6], some 0⟩, ⟨.fragment [3], some 1⟩,
    ⟨.attr (.text "Type") none none, some 2⟩, ⟨.element "img" 5 [], some 1⟩, ⟨.fragment [], some 4⟩,
    ⟨.element "button" 7 [], some 1⟩, ⟨.fragment [], some 6⟩, ⟨.element "button" 9 [10], some 0⟩,
    ⟨.fragment [], some 8⟩, ⟨.element "button" 11 [], some 8⟩, ⟨.fragment [], some 10⟩]⟩

theorem nestedTree_wellFormed : nestedTree.WellFormed :=
  .of_closed [0, 1, 2, 3, 4, 5, 6, 7, 8, 9, 10, 11] (by decide) (by decide) (by decide) (by decide)

theorem canonical_run_completes_nested : ∃ pipeline, canonical {} = .ok pipeline ∧
    nestedTree.WellFormed ∧ ∃ after, Pipeline.run pipeline nestedTree = .ok () after ∧
      (after.findAttribute 4 "alt").isSome = true ∧ ¬ nestedTree.Gains after 6 "type" "button" ∧
      nestedTree.Gains after 10 "type" "button" := by
  obtain ⟨after, ran, images, buttons⟩ :=
    canonical_run_completes {} _ rfl nestedTree nestedTree_wellFormed
  obtain ⟨after', ran', outcome⟩ := @exists_canonical_outcome {} _ _ rfl nestedTree_wellFormed
  obtain rfl : after = after' := by
    cases ran.symm.trans ran'
    rfl
  have typed : nestedTree.Visible 1 := Tree.Visible.root.child (by decide)
  have image : nestedTree.Visible 4 := typed.child (by decide)
  have inTyped : nestedTree.Shows 1 6 := by decide
  have untyped : nestedTree.Offered 8 := .single (by decide)
  have inUntyped : nestedTree.Offered 10 := untyped.tail (by decide)
  refine ⟨_, rfl, nestedTree_wellFormed, after, ran, ?_, ?_, ?_⟩
  · refine images 4 (outcome.visible 4 (by decide) image (by decide)) ?_
    rw [Tree.isElement, outcome.elementName?_eq]
    decide
  · intro gains
    obtain ⟨-, noneTyped⟩ := (buttons 6 (typed.child inTyped) (by decide)).mp gains
    exact noneTyped 1 typed.reachable (.single inTyped.2) ⟨by decide, by decide⟩
  · have visible := inUntyped.visible
    refine (buttons 10 visible (by decide)).mpr ⟨by decide, ?_⟩
    exact (nestedTree_wellFormed.offered_iff visible).mp inUntyped

end Templating.Markup
