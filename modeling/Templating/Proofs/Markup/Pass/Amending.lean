import Templating.Proofs.Markup.Amendment
import Templating.Proofs.Markup.Pass.Marked
import Templating.Proofs.Markup.RunKinds

/-!
# Passes that amend attribute runs

The passes that mark headings and complete images and buttons amend the run of each element that
they visit, and change nothing else. What they do shows in the kinds of the run alone: the slots
that they take depend on all that has been visited before.

* `Tree.runKinds_withAttribute`, `Tree.runKinds_setKind`: both ways to set an attribute.
* `HeadingMarkers.mark_reruns`, `imageAlt_reruns`, `buttonType_reruns`.
-/

namespace Templating.Markup

open Templating.Text

namespace Tree

variable {tree : Tree} {id run : NodeId} (wf : tree.WellFormed) (reach : tree.Reachable id)

/-! ## Runs and their kinds -/

theorem hasLiteralName_eq_any (tree : Tree) (name : String) (id : NodeId) :
    tree.hasLiteralName name id = (tree.kind? id).any (NodeKind.isNamed name) := by
  rw [hasLiteralName]
  cases tree.kind? id <;> rfl

theorem isBlankText_eq_any (tree : Tree) (id : NodeId) :
    tree.isBlankText id = (tree.kind? id).any NodeKind.isBlank := by
  rw [isBlankText, textContent?]
  cases tree.kind? id with
  | none => rfl
  | some kind => cases kind <;> rfl

include wf reach

theorem any_attributeChildren (test : NodeKind → Bool) :
    ((tree.attributeChildren id).any fun item => (tree.kind? item).any test) =
      (tree.runKinds id).any test := by
  have mapped := congrArg (List.any · (Option.any test)) (wf.map_kind?_attributeChildren reach)
  rw [List.any_map, List.any_map] at mapped
  exact mapped

/-- An attribute is found when there is one of its name. -/
theorem isSome_findAttribute (name : String) :
    (tree.findAttribute id name).isSome = (tree.runKinds id).any (NodeKind.isNamed name) := by
  rw [findAttribute, List.isSome_find?, funext (tree.hasLiteralName_eq_any name)]
  exact any_attributeChildren wf reach (NodeKind.isNamed name)

/-- What is put in front of a new attribute depends on the last item of the run. -/
theorem lead_eq : tree.lead id = leadOf (tree.runKinds id) := by
  have last := congrArg (fun kinds => kinds.getLast?.any (Option.any NodeKind.isBlank))
    (wf.map_kind?_attributeChildren reach)
  simp only [List.getLast?_map, Option.any_map] at last
  have blank : tree.runEndsBlank id = (tree.runKinds id).getLast?.any NodeKind.isBlank := by
    rw [runEndsBlank, funext tree.isBlankText_eq_any]
    exact last
  rw [lead, leadOf, blank]

variable (element : tree.attributeRun? id = some run)

include element

theorem nodup_attributeChildren : (tree.attributeChildren id).Nodup := by
  rw [wf.attributeChildren_eq reach element]
  exact wf.nodup_walkChildren (reach.child (holds_attributeRun? element).2)

/-- One attribute more stands at the end. -/
theorem runKinds_withAttribute (name value : String) :
    (tree.withAttribute id run name value).runKinds id =
      tree.runKinds id ++ leadOf (tree.runKinds id) ++ [.literal name value] := by
  obtain ⟨gaps, last⟩ := kind?_withAttribute wf reach element name value
  have old : (tree.attributeChildren id).filterMap (tree.withAttribute id run name value).kind? =
      tree.runKinds id := by
    refine List.filterMap_congr fun item member => ?_
    have inside := wf.lt_size_of_mem_attributeChildren reach member
    have notRun := ne_of_mem_attributeChildren wf reach element member
    rw [withAttribute, kind?, kind?, get?_rerun_of_lt _ _ inside notRun]
  have gapKinds : (List.range' tree.size (tree.lead id).length).filterMap
      (tree.withAttribute id run name value).kind? = tree.lead id := by
    have same : tree.lead id = List.replicate (tree.lead id).length (.text separator) :=
      List.eq_replicate_of_mem fun _ member => eq_separator_of_mem_lead member
    rw [List.filterMap_congr gaps, List.filterMap_eq_map', List.map_const', List.length_range']
    exact same.symm
  rw [runKinds, attributeChildren_withAttribute wf reach element, List.filterMap_append, old,
    List.range'_1_concat, List.filterMap_append, gapKinds, lead_eq wf reach, ← List.append_assoc]
  rw [lead_eq wf reach] at last
  exact congrArg (_ ++ ·) (List.filterMap_cons_some last)

/-- The first attribute of a name gets another value. -/
theorem runKinds_setKind {item : NodeId} {name : String} {kind : NodeKind}
    {change : NodeKind → NodeKind} (found : tree.findAttribute id name = some item)
    (known : tree.kind? item = some kind)
    (retouched : tree.Retouched (tree.setKind item (change kind))) :
    (tree.setKind item (change kind)).runKinds id =
      changeFirst (NodeKind.isNamed name) change (tree.runKinds id) := by
  have member := List.mem_of_find?_eq_some found
  have distinct := nodup_attributeChildren wf reach element
  have items := attributeChildren_setKind wf reach element member retouched
  obtain ⟨named, front, back, split, earlier⟩ := List.find?_eq_some_iff_append.mp found
  rw [split] at distinct
  have once := (List.nodup_middle.mp distinct)
  have kept (others : List NodeId) (without : item ∉ others) :
      others.filterMap (tree.setKind item (change kind)).kind? = others.filterMap tree.kind? := by
    refine List.filterMap_congr fun other isOther => kind?_setKind_of_ne ?_
    rintro rfl
    exact without isOther
  have notIn := (List.nodup_cons.mp once).1
  rw [runKinds, items, runKinds, split, List.filterMap_append, List.filterMap_append,
    List.filterMap_cons_some (kind?_setKind_of_kind? known), List.filterMap_cons_some known,
    kept front fun inFront => notIn (List.mem_append_left _ inFront),
    kept back fun inBack => notIn (List.mem_append_right _ inBack)]
  refine (changeFirst_append (fun other isOther => ?_) ?_).symm
  · obtain ⟨source, inFront, isKind⟩ := List.mem_filterMap.mp isOther
    have fails := earlier source inFront
    rw [hasLiteralName_eq_any, isKind, Bool.not_eq_true'] at fails
    exact fails
  · rw [hasLiteralName_eq_any, known] at named
    exact named

/-- The first attribute of a name stays when it is not to be changed. -/
theorem changeFirst_runKinds {item : NodeId} {name : String} {kind : NodeKind}
    {change : NodeKind → NodeKind} (found : tree.findAttribute id name = some item)
    (known : tree.kind? item = some kind) (same : change kind = kind) :
    changeFirst (NodeKind.isNamed name) change (tree.runKinds id) = tree.runKinds id := by
  have self : tree.setKind item (change kind) = tree := by rw [same, setKind_self known]
  have changed : (tree.setKind item (change kind)).runKinds id =
      changeFirst (NodeKind.isNamed name) change (tree.runKinds id) :=
    runKinds_setKind wf reach element found known (by rw [self]; exact .refl tree)
  rw [← changed, self]

end Tree

/-! ## Marking headings -/

/-- A class attribute with a marker added to its classes; one whose value is an expression is kept,
and so is one that has the marker. -/
def NodeKind.marked (marker : String) (kind : NodeKind) : NodeKind :=
  match kind with
  | .attr name value quote =>
    match classText? value with
    | none => kind
    | some existing =>
      if mergeClasses existing marker = existing then kind
      else .attr name (some (.text (mergeClasses existing marker))) (some (quote.getD '"'))
  | _ => kind

/-- A marker is added to the class of an element. -/
def Amendment.marking (marker : String) : Amendment where
  name := "class"
  value := marker
  change := NodeKind.marked marker
  change_attr := by
    intro part value quote
    simp only [NodeKind.marked]
    split
    · exact ⟨value, quote, rfl⟩
    · split
      · exact ⟨value, quote, rfl⟩
      · exact ⟨_, _, rfl⟩

section

variable {tree after : Tree} {id run : NodeId} (wf : tree.WellFormed) (reach : tree.Reachable id)
  (element : tree.attributeRun? id = some run)

include wf reach element

theorem runKinds_addMarker {marker : String} (touched : tree.Touched id after)
    (outcome : addMarker id marker tree = .ok () after) :
    after.runKinds id = (Amendment.marking marker).apply (tree.runKinds id) := by
  have there := Tree.isSome_findAttribute wf reach "class"
  rw [addMarker, Edit.get_bind] at outcome
  cases found : tree.findAttribute id "class" with
  | none =>
    simp only [found] at outcome
    cases outcome.symm.trans (Edit.bind_of_ok
      (Edit.setAttribute_of_missing element (wf.kind?_attributeRun reach element) found))
    rw [found, Option.isSome_none] at there
    rw [(Amendment.marking marker).apply_of_missing there.symm]
    exact Tree.runKinds_withAttribute wf reach element "class" marker
  | some item =>
    simp only [found] at outcome
    rw [found, Option.isSome_some] at there
    rw [(Amendment.marking marker).apply_of_there there.symm]
    obtain ⟨part, value, quote, known⟩ := Tree.kind?_of_hasLiteralName (List.find?_some found)
    have isValue : tree.attributeValue? item = value := by rw [Tree.attributeValue?, known]
    rw [isValue] at outcome
    cases text : classText? value with
    | none =>
      have same : NodeKind.marked marker (.attr (.text part) value quote) =
          .attr (.text part) value quote := by simp only [NodeKind.marked, text]
      simp only [text] at outcome
      cases outcome
      exact (Tree.changeFirst_runKinds wf reach element found known same).symm
    | some existing =>
      simp only [text] at outcome
      split at outcome
      · rename_i merged
        have same : NodeKind.marked marker (.attr (.text part) value quote) =
            .attr (.text part) value quote := by simp only [NodeKind.marked, text, if_pos merged]
        cases outcome
        exact (Tree.changeFirst_runKinds wf reach element found known same).symm
      · rename_i differ
        have changed : NodeKind.marked marker (.attr (.text part) value quote) =
            .attr (.text part) (some (.text (mergeClasses existing marker)))
              (some (quote.getD '"')) := by simp only [NodeKind.marked, text, if_neg differ]
        cases outcome.symm.trans (Edit.bind_of_ok (Edit.setAttribute_of_found element found known))
        rw [← changed] at touched ⊢
        exact Tree.runKinds_setKind wf reach element found known touched.toRetouched

end

namespace HeadingMarkers

variable (markers : HeadingMarkers)

/-- What an element in a tree gets for its marker. -/
def amendment? (tree : Tree) (id : NodeId) : Option Amendment :=
  (markers.marker? tree id).map Amendment.marking

/-- **Marking** adds the marker of each visited element to its class. -/
theorem mark_reruns (start : Tree) : (Pass.ofEdit headingClassName markers.mark).Reruns start
    fun id => amended (markers.amendment? start id) where
  idle := by
    intro before after id descent noElement outcome
    have edited := (Pass.visit_ofEdit.mp outcome).2
    have unmarked : markers.marker? before id = none := by
      cases marked : markers.marker? before id with
      | none => rfl
      | some marker =>
        obtain ⟨name, isElement, -⟩ := Option.bind_eq_some_iff.mp marked
        obtain ⟨run, element⟩ := Tree.exists_attributeRun? isElement
        rw [noElement] at element
        cases element
    have none : ∀ marker, markers.marker? before id ≠ some marker := fun marker marked =>
      Option.some_ne_none marker (marked.symm.trans unmarked)
    rw [markers.mark_eq_self fun marker marked => absurd marked (none marker)] at edited
    cases edited
    rfl
  run := by
    intro before after id run descent preserved wf visible element touched outcome
    have edited := (Pass.visit_ofEdit.mp outcome).2
    have inside := Tree.lt_size_of_attributeRun?
      ((preserved.attributeRun?_eq id).symm.trans element)
    rw [amendment?, ← markers.marker?_eq preserved.toRetouched inside]
    rw [mark, Edit.get_bind] at edited
    cases marked : markers.marker? before id with
    | none =>
      rw [marker?] at marked
      simp only [marked] at edited
      cases edited
      rfl
    | some marker =>
      rw [marker?] at marked
      simp only [marked] at edited
      exact runKinds_addMarker wf visible.reachable element touched edited

end HeadingMarkers

/-! ## Completing images and buttons -/

/-- What an element with the name `tag` gets. -/
def Tree.filling? (tree : Tree) (tag name value : String) (id : NodeId) : Option Amendment :=
  if tree.isElement id tag then some (.filling name value) else none

section

variable {pass : Pass} {tag name value : String}
  (fills : ∀ {tree after id descent}, tree.WellFormed → tree.Reachable id →
    pass.visit id tree = .ok descent after → tree.FilledIn id tag name value after)
  (rests : ∀ {tree after id descent}, tree.Complete tag name id →
    pass.visit id tree = .ok descent after → after = tree)

include fills rests

/-- A pass that completes the elements with a tag and leaves complete ones alone. -/
theorem Pass.reruns_of_fills (start : Tree) :
    pass.Reruns start fun id => amended (start.filling? tag name value id) where
  idle := fun noElement outcome => rests (Tree.complete_of_no_element noElement tag name) outcome
  run := by
    intro before after id run descent preserved wf visible element touched outcome
    have reach := visible.reachable
    have tagged : before.isElement id tag = start.isElement id tag := by
      rw [Tree.isElement, Tree.isElement, preserved.elementName?_eq]
    have there := Tree.isSome_findAttribute wf reach name
    rw [Tree.filling?, ← tagged]
    by_cases complete : before.Complete tag name id
    · rw [rests complete outcome]
      split
      · rw [complete ‹_›] at there
        rw [amended, (Amendment.filling name value).apply_of_there there.symm]
        exact (changeFirst_id _).symm
      · rfl
    · have isTagged : before.isElement id tag = true := by
        by_contra untagged
        exact complete fun isTagged => absurd isTagged untagged
      cases fills wf reach outcome with
      | kept done => exact absurd done complete
      | @added run element missing =>
        rw [missing, Option.isSome_none] at there
        rw [if_pos isTagged, amended,
          (Amendment.filling name value).apply_of_missing there.symm]
        exact Tree.runKinds_withAttribute wf reach element name value

end

/-- **Completing images** amends the run of each visited one. -/
theorem imageAlt_reruns (start : Tree) :
    imageAlt.Reruns start fun id => amended (start.filling? "img" "alt" "" id) := by
  refine Pass.reruns_of_fills ?_ ?_ start
  · intro tree after id descent wf reach outcome
    exact completeImage_filledIn wf reach (Pass.visit_ofEdit.mp outcome).2
  · intro tree after id descent complete outcome
    have edited := (Pass.visit_ofEdit.mp outcome).2
    rw [completeImage_eq_self complete] at edited
    cases edited
    rfl

/-- **Completing buttons** amends the run of each visited one. -/
theorem buttonType_reruns (start : Tree) :
    buttonType.Reruns start fun id => amended (start.filling? "button" "type" "button" id) := by
  refine Pass.reruns_of_fills ?_ ?_ start
  · intro tree after id descent wf reach outcome
    exact (completeButton_filledIn wf reach (Pass.visit_ofDescent.mp outcome)).1
  · intro tree after id descent complete outcome
    have edited := Pass.visit_ofDescent.mp outcome
    rw [completeButton_eq_self complete] at edited
    cases edited
    rfl

end Templating.Markup
