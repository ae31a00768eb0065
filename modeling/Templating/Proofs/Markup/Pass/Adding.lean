import Templating.Markup.Pass.Completion
import Templating.Markup.Pass.Marker
import Templating.Proofs.Markup.RunEdit
import Templating.Proofs.Markup.Visits

/-!
# Passes that add attributes

Images get an `alt`, buttons a `type`, and headings a class, each when it is missing. A class that
is there is rewritten when it is literal.

* `effect_withAttribute`: adding an attribute leaves the others of the run alone.
* `imageAlt_local`, `buttonType_local`, `headingClass_local`.
-/

namespace Templating.Markup

open Templating.Text

namespace Tree

variable {tree : Tree} {id run : NodeId}

theorem eq_separator_of_mem_lead {kind : NodeKind} (member : kind ∈ tree.lead id) :
    kind = .text separator := by
  unfold lead at member
  split at member
  · cases member
  · exact List.mem_singleton.mp member

theorem length_lead_le (tree : Tree) (id : NodeId) : (tree.lead id).length ≤ 1 := by
  unfold lead
  split
  · exact Nat.zero_le 1
  · exact Nat.le_refl 1

/-! ## Setting an attribute -/

section

variable (wf : tree.WellFormed) (reach : tree.Reachable id)
  (element : tree.attributeRun? id = some run) (name value : String)

include wf reach element

theorem touched_withAttribute : tree.Touched id (tree.withAttribute id run name value) := by
  have content := wf.walkChildren_attributeRun reach element
  refine touched_rerun wf reach element ?_ ?_ ?_ fun item member _ => List.mem_append_left _ member
  · intro kind member
    rcases List.mem_append.mp member with gap | last
    · exact .inl (eq_separator_of_mem_lead gap ▸ rfl)
    · exact .inr (List.mem_singleton.mp last ▸ rfl)
  · have runReach := reach.child (holds_attributeRun? element).2
    refine List.nodup_append.mpr
      ⟨content ▸ wf.nodup_walkChildren runReach, List.nodup_range', ?_⟩
    rintro item member new member' rfl
    rw [← content] at member
    exact absurd (wf.lt_size_of_holds runReach member)
      (Nat.not_lt_of_le (List.mem_range'_1.mp member').1)
  · intro item member
    refine (List.mem_append.mp member).imp_right fun new => ?_
    rw [List.length_append, List.length_singleton]
    exact List.mem_range'_1.mp new

/-- The new slots hold what is put in front of the attribute, and then the attribute. -/
theorem kind?_withAttribute :
    (∀ gap ∈ List.range' tree.size (tree.lead id).length,
      (tree.withAttribute id run name value).kind? gap = some (.text separator)) ∧
    (tree.withAttribute id run name value).kind? (tree.size + (tree.lead id).length) =
      some (.literal name value) := by
  obtain ⟨node, slot, -⟩ := exists_of_kind? (wf.kind?_attributeRun reach element)
  constructor
  · intro gap member
    obtain ⟨index, short, rfl⟩ := List.mem_range'.mp member
    rw [withAttribute, Nat.one_mul, kind?_rerun_add _ _ (lt_size slot),
      List.getElem?_append_left short, List.getElem?_eq_getElem short,
      eq_separator_of_mem_lead (List.getElem_mem short)]
  · rw [withAttribute, kind?_rerun_add _ _ (lt_size slot), List.getElem?_concat_length]

theorem runKept_withAttribute :
    tree.RunKept (tree.withAttribute id run name value) id [.literal name value] none := by
  have touched := touched_withAttribute wf reach element name value
  obtain ⟨gaps, last⟩ := kind?_withAttribute wf reach element name value
  have children : tree.attributeChildren id = tree.content run :=
    (wf.attributeChildren_eq reach element).trans (wf.walkChildren_attributeRun reach element)
  have isAttr : (tree.withAttribute id run name value).isAttribute
      (tree.size + (tree.lead id).length) = true := by
    rw [isAttribute, last]
    rfl
  have noOther := isOtherRunChild_of_isAttribute isAttr
  have gapsNoAttr : (List.range' tree.size (tree.lead id).length).filter
      (tree.withAttribute id run name value).isAttribute = [] :=
    List.filter_eq_nil_iff.mpr fun gap member =>
      Bool.eq_false_iff.mp (isAttribute_of_text (gaps gap member))
  have gapsNoOther : (List.range' tree.size (tree.lead id).length).filter
      (tree.withAttribute id run name value).isOtherRunChild = [] :=
    List.filter_eq_nil_iff.mpr fun gap member =>
      Bool.eq_false_iff.mp (isOtherRunChild_of_separator (gaps gap member))
  refine runKept_of_rerun [tree.size + (tree.lead id).length] wf reach element rfl (.of_eq ?_)
    ?_ ?_ ?_
  · rw [← children, List.range'_1_concat, List.filter_append, List.filter_append, gapsNoAttr,
      List.filter_singleton, isAttr, touched.filter_isAttribute_eq wf reach]
    rfl
  · intro item member
    rw [List.mem_singleton.mp member]
    exact Nat.le_add_right _ _
  · rw [List.map_singleton, last]
    exact List.Sublist.refl _
  · rw [← children, List.range'_1_concat, List.filter_append, List.filter_append, gapsNoOther,
      List.filter_singleton, noOther, touched.filter_isOtherRunChild_eq wf reach]
    exact List.append_nil _

/-- **Adding an attribute** leaves the others of the run alone. -/
theorem effect_withAttribute :
    tree.Effect id [.literal name value] none (tree.withAttribute id run name value) where
  toTouched := touched_withAttribute wf reach element name value
  growth := by
    have short := length_lead_le tree id
    rw [withAttribute, size_rerun, runSlots_of_attributeRun? element, List.length_append,
      List.length_singleton, List.length_cons]
    omega
  runKept := by
    intro run' element'
    obtain rfl : run = run' := Option.some.inj (element.symm.trans element')
    exact runKept_withAttribute wf reach element name value

/-- Setting an attribute that is missing. -/
theorem exists_setAttribute_of_missing (missing : tree.findAttribute id name = none) :
    ∃ item after, Edit.setAttribute id name value tree = .ok item after ∧
      tree.Effect id [.literal name value] none after :=
  ⟨_, _, Edit.setAttribute_of_missing element (wf.kind?_attributeRun reach element) missing,
    effect_withAttribute wf reach element name value⟩

/-- Setting an attribute that is there and has no expression for its value. -/
theorem exists_setAttribute_of_found {item : NodeId}
    (found : tree.findAttribute id name = some item)
    (literal : ∀ source, tree.attributeValue? item ≠ some (.expression source)) :
    ∃ after, Edit.setAttribute id name value tree = .ok item after ∧
      tree.Effect id [] (some item) after := by
  have member := List.mem_of_find?_eq_some found
  obtain ⟨part, old, quote, known⟩ := kind?_of_hasLiteralName (List.find?_some found)
  have inRun := wf.attributeChildren_eq reach element ▸ member
  have notRun := ne_of_mem_attributeChildren wf reach element member
  have inFootprint : item ∈ tree.footprint id := by
    obtain ⟨tag, children, isElement⟩ := kind?_of_attributeRun? element
    rw [footprint, isElement]
    exact List.mem_cons_of_mem _ inRun
  rw [attributeValue?, known] at literal
  have retouch : NodeKind.Retouch (.attr (.text part) old quote)
      (.attr (.text part) (some (.text value)) (some (quote.getD '"'))) := .value literal
  have touched := touched_setKind wf reach known inFootprint (.inr rfl) retouch
  refine ⟨_, Edit.setAttribute_of_found element found known, touched, ?_, fun _ _ => ?_⟩
  · rw [size_setKind]
    exact Nat.le_add_right _ _
  · have items := touched.attributeChildren_eq wf reach element
      (by rw [walkChildren, kind?_setKind_of_ne notRun]; rfl)
    refine .of_attributeChildren_eq touched.toRetouched wf reach items fun other _ allowed => ?_
    exact kind?_setKind_of_ne fun same => allowed (congrArg some same)

end

end Tree

/-! ## Completing images and buttons -/

/-- The attribute that an element with the name `tag` gets when it has none with the name `name`. -/
def Tree.filling (tree : Tree) (tag name value : String) (id : NodeId) : List NodeKind :=
  if tree.isElement id tag && (tree.findAttribute id name).isNone then [.literal name value] else []

theorem Tree.filling_sublist {before after : Tree} {id : NodeId} {tag name value : String}
    (retouched : before.Retouched after)
    (missing : after.findAttribute id name = none → before.findAttribute id name = none) :
    (after.filling tag name value id).Sublist (before.filling tag name value id) := by
  rw [filling, filling, isElement, isElement, retouched.elementName?_eq]
  cases still : after.findAttribute id name with
  | none =>
    rw [missing still]
  | some item =>
    rw [Option.isNone_some, Bool.and_false]
    exact List.nil_sublist _

/-- Elements of one name get an attribute when they have none of its name. -/
def Allowance.filling (tag name value : String) : Allowance :=
  .adding (fun tree id => tree.filling tag name value id)
    fun retouched _ missing => Tree.filling_sublist retouched (missing name)

theorem Tree.exists_attributeRun?_of_isElement {tree : Tree} {id : NodeId} {name : String}
    (element : tree.isElement id name = true) : ∃ run, tree.attributeRun? id = some run := by
  cases known : tree.elementName? id with
  | none => simp [isElement, known] at element
  | some tag => exact exists_attributeRun? known

theorem imageAlt_local : imageAlt.Local (.filling "img" "alt" "") := by
  refine .of_edit fun tree id wf visible => ?_
  cases incomplete : tree.isElement id "img" && (tree.findAttribute id "alt").isNone with
  | false =>
    refine ⟨tree, ?_, .unchanged wf visible.reachable _ _⟩
    rw [completeImage, Edit.get_bind, incomplete]
    rfl
  | true =>
    obtain ⟨isImage, missing⟩ := Bool.and_eq_true_iff.mp incomplete
    obtain ⟨run, element⟩ := Tree.exists_attributeRun?_of_isElement isImage
    obtain ⟨item, after, outcome, effect⟩ := Tree.exists_setAttribute_of_missing wf
      visible.reachable element "alt" "" (Option.isNone_iff_eq_none.mp missing)
    refine ⟨after, ?_, ?_⟩
    · rw [completeImage, Edit.get_bind, incomplete]
      exact Edit.bind_of_ok outcome
    · simp only [Allowance.filling, Allowance.adding, Tree.filling, incomplete]
      exact effect

theorem buttonType_local : buttonType.Local (.filling "button" "type" "button") := by
  refine .of_descent fun tree id wf visible => ?_
  cases isButton : tree.isElement id "button" with
  | false =>
    refine ⟨.enter, tree, ?_, .unchanged wf visible.reachable _ _⟩
    rw [completeButton, Edit.get_bind, isButton]
    rfl
  | true =>
    cases found : tree.findAttribute id "type" with
    | some item =>
      refine ⟨.prune, tree, ?_, .unchanged wf visible.reachable _ _⟩
      rw [completeButton, Edit.get_bind, isButton, found]
      rfl
    | none =>
      obtain ⟨run, element⟩ := Tree.exists_attributeRun?_of_isElement isButton
      obtain ⟨item, after, outcome, effect⟩ := Tree.exists_setAttribute_of_missing wf
        visible.reachable element "type" "button" found
      refine ⟨.enter, after, ?_, ?_⟩
      · rw [completeButton, Edit.get_bind, isButton, found]
        exact Edit.bind_of_ok outcome
      · simp only [Allowance.filling, Allowance.adding, Tree.filling, isButton, found]
        exact effect

/-! ## Marking headings -/

namespace HeadingMarkers

variable (markers : HeadingMarkers) {before after : Tree} {id : NodeId}

/-- The class that an element has to have. -/
def marker? (tree : Tree) (id : NodeId) : Option String :=
  (tree.elementName? id).bind (markers.markerFor tree (tree.parent? id))

theorem marker?_eq (retouched : before.Retouched after) (inside : id < before.size) :
    markers.marker? after id = markers.marker? before id := by
  have names : after.elementName? = before.elementName? := funext retouched.elementName?_eq
  unfold marker? markerFor
  rw [names, retouched.parent?_eq inside]

/-- The class attribute that a marked element gets when it has none. -/
def added (tree : Tree) (id : NodeId) : List NodeKind :=
  match markers.marker? tree id with
  | some marker => if (tree.findAttribute id "class").isNone then [.literal "class" marker] else []
  | none => []

/-- The class attribute that a marked element has. -/
def rewritten (tree : Tree) (id : NodeId) : Option NodeId :=
  if (markers.marker? tree id).isSome then tree.findAttribute id "class" else none

/-- Marked elements get a class when they have none, and their first class may be rewritten. -/
def allowance : Allowance where
  added := markers.added
  rewritten := markers.rewritten
  added_sublist := by
    intro before after id retouched inside missing
    rw [added, added, markers.marker?_eq retouched inside]
    cases markers.marker? before id with
    | none => exact .slnil
    | some marker =>
      cases still : after.findAttribute id "class" with
      | none => rw [missing "class" still]
      | some item => exact List.nil_sublist _
  rewritten_eq := by
    intro before after id retouched inside found
    rw [rewritten, rewritten, markers.marker?_eq retouched inside, found]
  rewritten_mem := by
    intro tree id item member
    unfold rewritten at member
    split at member
    · exact List.mem_of_find?_eq_some member
    · cases member

theorem literal_of_classText? {value : Option AttrPart} {existing : String}
    (text : classText? value = some existing) : ∀ source, value ≠ some (.expression source) := by
  rintro source rfl
  cases text

theorem exists_addMarker {tree : Tree} {run : NodeId} (wf : tree.WellFormed)
    (reach : tree.Reachable id) (element : tree.attributeRun? id = some run) (marker : String) :
    ∃ after, addMarker id marker tree = .ok () after ∧
      tree.Effect id
        (if (tree.findAttribute id "class").isNone then [.literal "class" marker] else [])
        (tree.findAttribute id "class") after := by
  cases found : tree.findAttribute id "class" with
  | none =>
    obtain ⟨item, after, outcome, effect⟩ :=
      Tree.exists_setAttribute_of_missing wf reach element "class" marker found
    refine ⟨after, ?_, effect⟩
    rw [addMarker, Edit.get_bind]
    simp only [found]
    exact Edit.bind_of_ok outcome
  | some item =>
    have unchanged := Tree.Effect.unchanged wf reach [] (some item)
    cases text : classText? (tree.attributeValue? item) with
    | none =>
      refine ⟨tree, ?_, unchanged⟩
      rw [addMarker, Edit.get_bind]
      simp only [found, text]
      rfl
    | some existing =>
      by_cases same : mergeClasses existing marker = existing
      · refine ⟨tree, ?_, unchanged⟩
        rw [addMarker, Edit.get_bind]
        simp only [found, text, same, if_true]
        rfl
      · obtain ⟨after, outcome, effect⟩ := Tree.exists_setAttribute_of_found wf reach element
          "class" (mergeClasses existing marker) found (literal_of_classText? text)
        refine ⟨after, ?_, effect⟩
        rw [addMarker, Edit.get_bind]
        simp only [found, text, same, if_false]
        exact Edit.bind_of_ok outcome

theorem mark_local : (Pass.ofEdit headingClassName markers.mark).Local markers.allowance := by
  refine .of_edit fun tree id wf visible => ?_
  cases marked : markers.marker? tree id with
  | none =>
    refine ⟨tree, ?_, .unchanged wf visible.reachable _ _⟩
    rw [marker?] at marked
    rw [mark, Edit.get_bind]
    simp only [marked]
    rfl
  | some marker =>
    obtain ⟨name, isElement, -⟩ := Option.bind_eq_some_iff.mp marked
    obtain ⟨run, element⟩ := Tree.exists_attributeRun? isElement
    obtain ⟨after, outcome, effect⟩ := exists_addMarker wf visible.reachable element marker
    refine ⟨after, ?_, ?_⟩
    · rw [marker?] at marked
      rw [mark, Edit.get_bind]
      simp only [marked]
      exact outcome
    · simp only [allowance, added, rewritten, marked]
      exact effect

end HeadingMarkers

end Templating.Markup
