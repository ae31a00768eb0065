import Templating.Proofs.Markup.Moment
import Templating.Proofs.Markup.Pass.Adding

/-!
# Attributes that are there

The passes that complete elements put an attribute at the end of a run (`Tree.Extended`), and none
where one is there. A button that is complete is not gone into, so there may be others in it that
are never come to.

* `Tree.extended_withAttribute`, `Tree.findAttribute_withAttribute`: one attribute more.
* `exists_imageAlt`, `imageAlt_eq_self`: every image in view is complete in the end, and left alone.
* `exists_buttonType`, `buttonType_eq_self`: so is every button to which a walk comes.
-/

namespace Templating.Markup

open Templating.Text

/-! ## Runs with more at their end -/

namespace Tree

/-- The run of `id` has got more at its end: nothing, or some nodes of which one is an attribute,
and no attribute of another name than `name`. -/
structure Extended (before after : Tree) (id : NodeId) (name : String) : Prop where
  items : ∃ new, after.attributeChildren id = before.attributeChildren id ++ new ∧
    (new = [] ∨ ∃ item ∈ new, after.isAttribute item = true) ∧
    ∀ item ∈ new, ∀ other, after.hasLiteralName other item = true → sameName name other = true

namespace Extended

variable {before after : Tree} {id item first : NodeId} {name other : String}

theorem of_items (same : after.attributeChildren id = before.attributeChildren id) (name : String) :
    before.Extended after id name :=
  ⟨[], by rw [same, List.append_nil], .inl rfl, nofun⟩

section

variable (extended : before.Extended after id name) (retouched : before.Retouched after)
  (wf : before.WellFormed) (reach : before.Reachable id)

include extended retouched wf reach

/-- What was found first is found first. -/
theorem findAttribute_eq (found : before.findAttribute id other = some first) :
    after.findAttribute id other = some first := by
  obtain ⟨new, items, -⟩ := extended.items
  rw [findAttribute, items, List.find?_append, retouched.find?_attributeChildren wf reach, found,
    Option.some_or]

/-- A run without attributes is as it was, and was one before. -/
theorem items_eq (none : after.runAttributes id = []) :
    after.attributeChildren id = before.attributeChildren id ∧ before.runAttributes id = [] := by
  obtain ⟨new, items, some, -⟩ := extended.items
  have noAttr : ∀ item ∈ after.attributeChildren id, after.isAttribute item = false := by
    intro item member
    exact Bool.eq_false_iff.mpr (List.filter_eq_nil_iff.mp none item member)
  have same : after.attributeChildren id = before.attributeChildren id := by
    rcases some with rfl | ⟨item, member, isAttr⟩
    · rw [items, List.append_nil]
    · rw [noAttr item (items ▸ List.mem_append_right _ member)] at isAttr
      cases isAttr
  refine ⟨same, List.filter_eq_nil_iff.mpr fun item member => Bool.eq_false_iff.mp ?_⟩
  rw [← retouched.isAttribute_eq (wf.lt_size_of_mem_attributeChildren reach member)]
  exact noAttr item (same ▸ member)

end

end Extended

section

variable {tree : Tree} {id run : NodeId} (wf : tree.WellFormed) (reach : tree.Reachable id)
  (element : tree.attributeRun? id = some run) (name value : String)

include wf reach element

theorem attributeChildren_withAttribute :
    (tree.withAttribute id run name value).attributeChildren id =
      tree.attributeChildren id ++ List.range' tree.size ((tree.lead id).length + 1) := by
  rw [withAttribute, attributeChildren_rerun element (wf.kind?_attributeRun reach element),
    wf.attributeChildren_eq reach element, wf.walkChildren_attributeRun reach element]

/-- Of what is added only the last has a name. -/
theorem eq_last_of_hasLiteralName {item : NodeId} {other : String}
    (member : item ∈ List.range' tree.size ((tree.lead id).length + 1))
    (named : (tree.withAttribute id run name value).hasLiteralName other item = true) :
    item = tree.size + (tree.lead id).length ∧ sameName name other = true := by
  obtain ⟨gaps, last⟩ := kind?_withAttribute wf reach element name value
  rw [List.range'_1_concat] at member
  rcases List.mem_append.mp member with gap | single
  · rw [hasLiteralName, gaps item gap] at named
    cases named
  · obtain rfl := List.mem_singleton.mp single
    rw [hasLiteralName, last] at named
    exact ⟨rfl, named⟩

theorem extended_withAttribute :
    tree.Extended (tree.withAttribute id run name value) id name := by
  obtain ⟨-, last⟩ := kind?_withAttribute wf reach element name value
  refine ⟨_, attributeChildren_withAttribute wf reach element name value,
    .inr ⟨tree.size + (tree.lead id).length, ?_, ?_⟩, fun item member other named =>
      (eq_last_of_hasLiteralName wf reach element name value member named).2⟩
  · rw [List.range'_1_concat]
    exact List.mem_append_right _ List.mem_cons_self
  · rw [isAttribute, last]
    rfl

/-- What was missing and has been added is found. -/
theorem findAttribute_withAttribute (missing : tree.findAttribute id name = none) :
    (tree.withAttribute id run name value).findAttribute id name =
      some (tree.size + (tree.lead id).length) := by
  obtain ⟨gaps, last⟩ := kind?_withAttribute wf reach element name value
  have touched := touched_withAttribute wf reach element name value
  have old := touched.find?_attributeChildren wf reach name
  have new : (List.range' tree.size (tree.lead id).length).find?
      ((tree.withAttribute id run name value).hasLiteralName name) = none := by
    refine List.find?_eq_none.mpr fun item member => ?_
    rw [hasLiteralName, gaps item member]
    exact Bool.false_ne_true
  have isLast : (tree.withAttribute id run name value).hasLiteralName name
      (tree.size + (tree.lead id).length) = true := by
    rw [hasLiteralName, last]
    exact sameName_refl name
  rw [findAttribute, attributeChildren_withAttribute wf reach element, List.find?_append, old,
    missing, Option.none_or, List.range'_1_concat, List.find?_append, new, Option.none_or,
    List.find?_cons_of_pos isLast]

end

end Tree

/-- The run at the start and the run in the end when the visit has extended it. -/
theorem Visits.Moment.extended {pass : Pass} {allowance : Allowance}
    {start final before after : Tree} {id : NodeId} {descent : Descent} {later : Log}
    {name : String}
    (moment : Visits.Moment pass allowance start id descent final before after later)
    (extended : before.Extended after id name) : start.Extended final id name := by
  obtain ⟨new, items, some, names⟩ := extended.items
  have retouched := moment.rest.preserved.toRetouched
  have inside : ∀ item ∈ new, item < after.size := fun item member =>
    moment.wellFormed'.lt_size_of_mem_attributeChildren moment.visible'.reachable
      (items ▸ List.mem_append_right _ member)
  refine ⟨new, ?_, ?_, ?_⟩
  · rw [moment.sameRun'.items, items, moment.sameRun.items]
  · refine some.imp_right fun ⟨item, member, isAttr⟩ => ⟨item, member, ?_⟩
    rw [retouched.isAttribute_eq (inside item member), isAttr]
  · intro item member other named
    rw [retouched.hasLiteralName_eq (inside item member)] at named
    exact names item member other named

/-! ## Completing images and buttons -/

namespace Tree

/-- An element with this tag has the attribute. -/
def Complete (tree : Tree) (tag name : String) (id : NodeId) : Prop :=
  tree.isElement id tag = true → (tree.findAttribute id name).isSome = true

/-- What a visit leaves that completes the elements with a tag. -/
inductive FilledIn (tree : Tree) (id : NodeId) (tag name value : String) : Tree → Prop
  | kept (complete : tree.Complete tag name id) : FilledIn tree id tag name value tree
  | added {run : NodeId} (element : tree.attributeRun? id = some run)
      (missing : tree.findAttribute id name = none) :
    FilledIn tree id tag name value (tree.withAttribute id run name value)

namespace FilledIn

variable {tree after : Tree} {id : NodeId} {tag name value : String}
  (filled : tree.FilledIn id tag name value after) (wf : tree.WellFormed)
  (reach : tree.Reachable id)

include filled wf reach

theorem extended : tree.Extended after id name := by
  cases filled with
  | kept => exact .of_items rfl name
  | added element => exact extended_withAttribute wf reach element name value

theorem complete : after.Complete tag name id := by
  intro isElement
  cases filled with
  | kept complete => exact complete isElement
  | added element missing =>
    rw [findAttribute_withAttribute wf reach element name value missing]
    rfl

end FilledIn

end Tree

section

variable {tree after : Tree} {id : NodeId}

theorem completeImage_eq_self (complete : tree.Complete "img" "alt" id) :
    completeImage id tree = .ok () tree := by
  have done : (tree.isElement id "img" && (tree.findAttribute id "alt").isNone) = false := by
    cases isImage : tree.isElement id "img" with
    | false => rfl
    | true =>
      rw [Bool.true_and, ← Option.not_isSome, complete isImage]
      rfl
  rw [completeImage, Edit.get_bind, done]
  rfl

theorem completeImage_filledIn (wf : tree.WellFormed) (reach : tree.Reachable id)
    (outcome : completeImage id tree = .ok () after) :
    tree.FilledIn id "img" "alt" "" after := by
  cases missing : tree.isElement id "img" && (tree.findAttribute id "alt").isNone with
  | false =>
    have complete : tree.Complete "img" "alt" id := by
      intro isImage
      rwa [isImage, Bool.true_and, ← Option.not_isSome, Bool.not_eq_false'] at missing
    rw [completeImage_eq_self complete] at outcome
    cases outcome
    exact .kept complete
  | true =>
    rw [completeImage, Edit.get_bind, missing] at outcome
    obtain ⟨isImage, missing⟩ := Bool.and_eq_true_iff.mp missing
    rw [Option.isNone_iff_eq_none] at missing
    obtain ⟨run, element⟩ := Tree.exists_attributeRun?_of_isElement isImage
    cases outcome.symm.trans (Edit.bind_of_ok
      (Edit.setAttribute_of_missing element (wf.kind?_attributeRun reach element) missing))
    exact .added element missing

/-- A button that has a type is pruned, and what is no button is entered. -/
theorem completeButton_eq_self (complete : tree.Complete "button" "type" id) :
    completeButton id tree =
      .ok (if tree.isElement id "button" then .prune else .enter) tree := by
  rw [completeButton, Edit.get_bind]
  cases isButton : tree.isElement id "button" with
  | false => rfl
  | true =>
    simp only [complete isButton]
    rfl

theorem completeButton_filledIn {descent : Descent} (wf : tree.WellFormed)
    (reach : tree.Reachable id) (outcome : completeButton id tree = .ok descent after) :
    tree.FilledIn id "button" "type" "button" after ∧
      (tree.isElement id "button" = false → descent = .enter) := by
  by_cases complete : tree.Complete "button" "type" id
  · rw [completeButton_eq_self complete] at outcome
    cases outcome
    exact ⟨.kept complete, fun noButton => by rw [noButton]; rfl⟩
  · have isButton : tree.isElement id "button" = true := by
      by_contra noButton
      exact complete fun isButton => absurd isButton noButton
    have missing : tree.findAttribute id "type" = none := by
      cases found : tree.findAttribute id "type" with
      | none => rfl
      | some item => exact absurd (fun _ => by rw [found]; rfl) complete
    rw [completeButton, Edit.get_bind, isButton, missing] at outcome
    obtain ⟨run, element⟩ := Tree.exists_attributeRun?_of_isElement isButton
    cases outcome.symm.trans (Edit.bind_of_ok
      (Edit.setAttribute_of_missing element (wf.kind?_attributeRun reach element) missing))
    exact ⟨.added element missing, fun noButton => absurd isButton (Bool.eq_false_iff.mp noButton)⟩

end

/-! ## Walks -/

namespace Tree

/-- What a pass that completes elements makes of the run of an element in view. -/
structure Filled (before after : Tree) (name : String) (id : NodeId) : Prop
    extends before.Extended after id name where
  kinds : ∀ item ∈ before.runAttributes id, after.kind? item = before.kind? item

/-- What is no element lacks nothing. -/
theorem complete_of_no_element {tree : Tree} {id : NodeId}
    (noElement : tree.attributeRun? id = none) (tag name : String) : tree.Complete tag name id := by
  intro isElement
  obtain ⟨run, element⟩ := exists_attributeRun?_of_isElement isElement
  rw [noElement] at element
  cases element

/-- What is complete stays so as long as the attribute stays. -/
theorem Complete.of_found {before after : Tree} {tag name : String} {id : NodeId}
    (complete : before.Complete tag name id)
    (names : after.elementName? id = before.elementName? id)
    (found : (before.findAttribute id name).isSome = true →
      (after.findAttribute id name).isSome = true) : after.Complete tag name id := by
  intro tagged
  rw [isElement, names] at tagged
  exact found (complete tagged)

theorem Extended.complete {before after : Tree} {id : NodeId} {tag name other : String}
    (extended : before.Extended after id other)
    (retouched : before.Retouched after) (wf : before.WellFormed) (reach : before.Reachable id)
    (complete : before.Complete tag name id) : after.Complete tag name id := by
  refine complete.of_found (retouched.elementName?_eq id) fun found => ?_
  obtain ⟨first, isFirst⟩ := Option.isSome_iff_exists.mp found
  rw [extended.findAttribute_eq retouched wf reach isFirst]
  rfl

end Tree

section

variable {pass : Pass} {tag name value : String}
  (fills : ∀ {tree after id descent}, tree.WellFormed → tree.Reachable id →
    pass.visit id tree = .ok descent after → tree.FilledIn id tag name value after)

include fills

/-- What becomes of the elements in view, those of them that are visited being complete. -/
theorem Visits.filled {start final : Tree} {log : Log} {id run : NodeId}
    (visits : Visits pass (.filling tag name value) start log final) (wf : start.WellFormed)
    (visible : start.Visible id) (element : start.attributeRun? id = some run) :
    start.Filled final name id ∧ (id ∈ log.nodes → final.Complete tag name id) := by
  have kinds : ∀ item ∈ start.runAttributes id, final.kind? item = start.kind? item :=
    fun item member => (visits.runKept wf visible element).1.kind?_eq item member nofun
  by_cases visited : id ∈ log.nodes
  · obtain ⟨⟨other, descent⟩, member, rfl⟩ := List.mem_map.mp visited
    obtain ⟨before, after, later, moment⟩ := visits.exists_moment wf member element
    have reach := moment.visible.reachable
    have filled := fills moment.wellFormed reach moment.visit
    have preserved := moment.rest.preserved
    refine ⟨⟨moment.extended (filled.extended moment.wellFormed reach), kinds⟩, fun _ => ?_⟩
    refine (filled.complete moment.wellFormed reach).of_found (preserved.elementName?_eq other) ?_
    rw [preserved.findAttribute_eq moment.wellFormed' moment.visible'.reachable
      moment.sameRun'.items]
    exact fun found => found
  · have same := visits.sameRun wf visible element visited
    exact ⟨⟨.of_items same.items name, kinds⟩, fun member => absurd member visited⟩

end

/-- **Completing images** gives an element an `alt` at most, and leaves every image
in view complete. -/
theorem exists_imageAlt {start : Tree} (wf : start.WellFormed) :
    ∃ final, imageAlt.walk start = .ok () final ∧ final.WellFormed ∧ start.Preserved final ∧
      ∀ id run, final.Visible id → start.attributeRun? id = some run →
        start.Filled final "alt" id ∧ final.Complete "img" "alt" id := by
  obtain ⟨log, final, walked, visits, wf', visited⟩ :=
    Pass.Local.exists_finished imageAlt_local wf
  refine ⟨final, walked, wf', visits.preserved, fun id run visible element => ?_⟩
  have seen := visits.preserved.visible_of_lt id visible (Tree.lt_size_of_attributeRun? element)
  obtain ⟨filled, complete⟩ := Visits.filled (fun wf reach outcome =>
    completeImage_filledIn wf reach (Pass.visit_ofEdit.mp outcome).2) visits wf seen element
  exact ⟨filled, complete (List.mem_map_of_mem (visited id visible))⟩

/-- Complete images are left alone. -/
theorem imageAlt_eq_self {tree : Tree} (wf : tree.WellFormed)
    (complete : ∀ id, tree.Visible id → tree.Complete "img" "alt" id) :
    imageAlt.walk tree = .ok () tree :=
  Pass.Local.walk_eq_self_of_visible imageAlt_local wf fun id visible =>
    completeImage_eq_self (complete id visible)

/-- Nodes that a walk comes to which does not go into buttons: the root, and what is shown by one of
them that is no button. -/
structure Tree.Approach (tree : Tree) (nodes : NodeId → Prop) : Prop where
  root : nodes Tree.root
  closed : ∀ id held, nodes id → tree.isElement id "button" = false → tree.Shows id held →
    nodes held

namespace Tree.Approach

variable {before after : Tree} {nodes : NodeId → Prop} (approach : before.Approach nodes)

include approach

/-- A walk comes to the nodes that it came to, and to new ones, when what is added holds nothing. -/
theorem of_preserved (preserved : before.Preserved after) (wf : before.WellFormed)
    (wf' : after.WellFormed) :
    after.Approach fun id => after.Visible id ∧ (nodes id ∨ before.size ≤ id) where
  root := ⟨.root, .inl approach.root⟩
  closed := by
    rintro id held ⟨visible, onWay⟩ noButton shows
    refine ⟨visible.child shows, ?_⟩
    have onWay := onWay.resolve_right (Nat.not_le_of_lt (preserved.lt_of_holds shows.2))
    by_cases old : held < before.size
    · left
      rw [isElement, preserved.elementName?_eq] at noButton
      refine approach.closed id held onWay noButton
        ⟨?_, preserved.holds_of_lt wf wf' visible shows old⟩
      rw [← preserved.isExpression_eq]
      exact shows.1
    · exact .inr (Nat.le_of_not_lt old)

/-- All that a walk comes to is in view. -/
theorem visible : before.Approach fun id => nodes id ∧ before.Visible id where
  root := ⟨approach.root, .root⟩
  closed := fun id held onWay noButton shows =>
    ⟨approach.closed id held onWay.1 noButton shows, onWay.2.child shows⟩

end Tree.Approach

/-- **Completing buttons** gives an element a `type` at most, and leaves every button complete to
which a walk comes that does not go into buttons. -/
theorem exists_buttonType {start : Tree} (wf : start.WellFormed) :
    ∃ final nodes, buttonType.walk start = .ok () final ∧ final.WellFormed ∧
      start.Preserved final ∧ final.Approach nodes ∧
      ∀ id run, final.Visible id → start.attributeRun? id = some run →
        start.Filled final "type" id ∧ (nodes id → final.Complete "button" "type" id) := by
  obtain ⟨log, final, walked, visits, wf', frontier⟩ := buttonType_local.exists_walk wf
  have pending : ∀ {id}, id ∈ log.nodes ++ [] → id ∈ log.nodes := by
    intro id member
    rwa [List.append_nil] at member
  refine ⟨final, (· ∈ log.nodes), walked, wf', visits.preserved,
    ⟨pending frontier.root_mem, ?_⟩, ?_⟩
  · intro id held member noButton shows
    obtain ⟨⟨other, descent⟩, inLog, rfl⟩ := List.mem_map.mp member
    obtain ⟨earlier, later, before, after, -, made, wf'', seen, outcome, touched, rest⟩ :=
      visits.split inLog
    have names : final.elementName? other = before.elementName? other :=
      (rest.preserved.elementName?_eq other).trans (touched.elementName?_eq other)
    have enters := (completeButton_filledIn wf'' seen.reachable
      (Pass.visit_ofDescent.mp outcome)).2 (by rwa [Tree.isElement, ← names])
    exact pending (frontier.closed other (enters ▸ inLog) held shows)
  · intro id run visible element
    have seen := visits.preserved.visible_of_lt id visible (Tree.lt_size_of_attributeRun? element)
    exact Visits.filled (fun wf reach outcome =>
      (completeButton_filledIn wf reach (Pass.visit_ofDescent.mp outcome)).1) visits wf seen element

/-- Buttons that are complete, and those to which the walk does not come, are left alone. -/
theorem buttonType_eq_self {tree : Tree} {nodes : NodeId → Prop} (wf : tree.WellFormed)
    (approach : tree.Approach nodes)
    (complete : ∀ id, nodes id → tree.Complete "button" "type" id) :
    buttonType.walk tree = .ok () tree := by
  refine buttonType_local.walk_eq_self wf nodes approach.root fun id member => ?_
  refine ⟨_, Pass.visit_ofDescent.mpr (completeButton_eq_self (complete id member)), ?_⟩
  intro child entered
  cases isButton : tree.isElement id "button" with
  | true =>
    rw [isButton] at entered
    cases entered
  | false => exact approach.closed id child member isButton (shows_of_mem_entered entered).2

end Templating.Markup
