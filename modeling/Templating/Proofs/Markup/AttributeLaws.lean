import Templating.Proofs.Markup.Pass.Filled
import Templating.Proofs.Markup.Pass.Rewording

/-!
# Laws of setting an attribute

Setting an attribute of an element rewrites the first one of this name or puts a new one at the end
of the run (`Tree.AttributeSet`). Either way it is found there with its value, nothing is seen of it
under any other name or on any other element, and only the last of several values remains.

* `Tree.exists_attributeSet`: the two ways in which an attribute is set.
* `Tree.AttributeSet.findAttribute_self`, `Tree.AttributeSet.findAttribute_other`:
  what is found then.
* `Tree.AttributeSet.get?_eq`: the slots that are kept; `Tree.AttributeSet.sameElement` is what this
  means for another element.
* `Tree.AttributeSet.setAttribute_again`: setting it once more is setting it once.
* `setAttribute_lawful` puts them together.
-/

namespace Templating.Markup

open Templating.Text

namespace Tree

variable {tree after : Tree} {id run item : NodeId} {name value : String}

/-! ## Slots that are written twice -/

theorem setKind_setKind (tree : Tree) (id : NodeId) (first second : NodeKind) :
    (tree.setKind id first).setKind id second = tree.setKind id second := by
  refine ext_get? fun slot => ?_
  rw [get?_setKind, get?_setKind, get?_setKind]
  split
  · rw [Option.map_map]
    rfl
  · rfl

/-- The last of the new nodes of a run may as well be another one from the start. -/
theorem setKind_rerun (added : List NodeKind) (items : List NodeId) (first second : NodeKind)
    (inside : run < tree.size) :
    (tree.rerun run (added ++ [first]) items).setKind (tree.size + added.length) second =
      tree.rerun run (added ++ [second]) items := by
  have notRun : tree.size + added.length ≠ run :=
    Nat.ne_of_gt (Nat.lt_of_lt_of_le inside (Nat.le_add_right _ _))
  refine ext_get? fun slot => ?_
  rw [get?_setKind]
  by_cases last : tree.size + added.length = slot
  · subst last
    have beyond := Nat.le_add_right tree.size added.length
    rw [if_pos rfl, get?_rerun_of_le _ _ inside beyond, get?_rerun_of_le _ _ inside beyond,
      Nat.add_sub_cancel_left, List.getElem?_concat_length, List.getElem?_concat_length]
    rfl
  rw [if_neg last]
  by_cases isRun : slot = run
  · subst isRun
    rw [get?_rerun_run _ _ inside, get?_rerun_run _ _ inside]
  by_cases old : slot < tree.size
  · rw [get?_rerun_of_lt _ _ old isRun, get?_rerun_of_lt _ _ old isRun]
  · have beyond := Nat.le_of_not_lt old
    have apart : added.length ≠ slot - tree.size := fun same =>
      last (same ▸ Nat.add_sub_cancel' beyond)
    have others : ∀ kind : NodeKind,
        (added ++ [kind])[slot - tree.size]? = added[slot - tree.size]? := by
      intro kind
      rcases Nat.lt_or_gt_of_ne apart with long | short
      · rw [List.getElem?_eq_none (Nat.le_of_lt long), List.getElem?_eq_none]
        rwa [List.length_append, List.length_singleton]
      · exact List.getElem?_append_left short
    rw [get?_rerun_of_le _ _ inside beyond, get?_rerun_of_le _ _ inside beyond, others, others]

/-! ## Another value of an attribute -/

-- A pass keeps a value that is an expression, so that what holds of `Retouched` trees
-- is no help here.

section

variable {part : AttrPart} {old new : Option AttrPart} {quote quote' : Option Char}

/-- What does not look at values and quotes sees no change. -/
theorem view_setKind {α : Type} {kind kind' : NodeKind} (known : tree.kind? item = some kind)
    (view : Option NodeKind → α) (blind : view (some kind') = view (some kind)) (id : NodeId) :
    view ((tree.setKind item kind').kind? id) = view (tree.kind? id) := by
  by_cases same : item = id
  · subst same
    rw [kind?_setKind_of_kind? known, known, blind]
  · rw [kind?_setKind_of_ne same]

variable (known : tree.kind? item = some (.attr part old quote))

include known

theorem attributeRun?_setValue (id : NodeId) :
    (tree.setKind item (.attr part new quote')).attributeRun? id = tree.attributeRun? id := by
  by_cases same : item = id
  · subst same
    rw [attributeRun?, attributeRun?, kind?_setKind_of_kind? known, known]
  · rw [attributeRun?, attributeRun?, kind?_setKind_of_ne same]

theorem attributeChildren_setValue (id : NodeId) :
    (tree.setKind item (.attr part new quote')).attributeChildren id =
      tree.attributeChildren id := by
  have content : (tree.setKind item (.attr part new quote')).content = tree.content :=
    funext (view_setKind known (fun kind => (kind.bind NodeKind.content?).getD []) rfl)
  rw [attributeChildren, attributeChildren, attributeRun?_setValue known, content]

theorem findAttribute_setValue (id : NodeId) (name : String) :
    (tree.setKind item (.attr part new quote')).findAttribute id name =
      tree.findAttribute id name := by
  have named : (tree.setKind item (.attr part new quote')).hasLiteralName name =
      tree.hasLiteralName name :=
    funext (view_setKind known
      (fun kind => (kind.bind NodeKind.literalName?).any (sameName · name)) (by cases part <;> rfl))
  rw [findAttribute, findAttribute, attributeChildren_setValue known, named]

end

/-! ## Names and elements -/

/-- An attribute has one literal name, but for the case of its letters. -/
theorem sameName_of_hasLiteralName {other : String} (named : tree.hasLiteralName name item = true)
    (named' : tree.hasLiteralName other item = true) : sameName name other = true := by
  obtain ⟨literal, value, quote, known⟩ := kind?_of_hasLiteralName named
  rw [hasLiteralName, known] at named named'
  exact sameName_trans ((sameName_comm name literal).trans named) named'

/-- The element has what it had: its slot, its run and the items of it, and its children. -/
structure SameElement (before after : Tree) (id : NodeId) : Prop where
  slot : after.get? id = before.get? id
  run : ∀ run ∈ before.attributeRun? id, after.get? run = before.get? run
  items : after.attributeChildren id = before.attributeChildren id
  attributes : ∀ item ∈ before.attributeChildren id, after.get? item = before.get? item
  content : ∀ child ∈ before.content id, after.get? child = before.get? child

/-! ## How an attribute is set -/

/-- An attribute of the element `id` has been set, which is `item` in the tree behind it: the first
one of this name has been rewritten, or a new one is at the end of the run. -/
inductive AttributeSet (tree : Tree) (id run : NodeId) (name value : String) : NodeId → Tree → Prop
  | rewritten {item : NodeId} {literal : String} {old : Option AttrPart} {quote : Option Char}
      (found : tree.findAttribute id name = some item)
      (known : tree.kind? item = some (.attr (.text literal) old quote)) :
    AttributeSet tree id run name value item
      (tree.setKind item (.attr (.text literal) (some (.text value)) (some (quote.getD '"'))))
  | added (missing : tree.findAttribute id name = none) :
    AttributeSet tree id run name value (tree.size + (tree.lead id).length)
      (tree.withAttribute id run name value)

section

variable (wf : tree.WellFormed) (reach : tree.Reachable id)
  (element : tree.attributeRun? id = some run)

include wf reach element

/-- **Setting an attribute** of an element that can be reached does not fail. -/
theorem exists_attributeSet (name value : String) :
    ∃ item after, Edit.setAttribute id name value tree = .ok item after ∧
      tree.AttributeSet id run name value item after := by
  cases found : tree.findAttribute id name with
  | some item =>
    obtain ⟨literal, old, quote, known⟩ := kind?_of_hasLiteralName (List.find?_some found)
    exact ⟨_, _, Edit.setAttribute_of_found element found known, .rewritten found known⟩
  | none =>
    exact ⟨_, _, Edit.setAttribute_of_missing element (wf.kind?_attributeRun reach element) found,
      .added found⟩

end

namespace AttributeSet

variable (set : tree.AttributeSet id run name value item after) (wf : tree.WellFormed)
  (reach : tree.Reachable id) (element : tree.attributeRun? id = some run)

include set wf reach element

/-! ## What is found -/

/-- The attribute is found under its name. -/
theorem findAttribute_self : after.findAttribute id name = some item := by
  cases set with
  | rewritten found known => rw [findAttribute_setValue known, found]
  | added missing => exact findAttribute_withAttribute wf reach element name value missing

/-- The attribute has the value, in quotes. -/
theorem kind?_item : ∃ literal quote,
    after.kind? item = some (.attr (.text literal) (some (.text value)) (some quote)) := by
  cases set with
  | rewritten found known => exact ⟨_, _, kind?_setKind_of_kind? known⟩
  | added missing => exact ⟨_, _, (kind?_withAttribute wf reach element name value).2⟩

theorem attributeText?_self : after.attributeText? id name = some value := by
  obtain ⟨literal, quote, known⟩ := set.kind?_item wf reach element
  rw [attributeText?, set.findAttribute_self wf reach element, Option.bind_some, attributeValue?,
    known]
  rfl

/-- The old run is the beginning of the new one. -/
theorem attributeChildren_prefix : tree.attributeChildren id <+: after.attributeChildren id := by
  cases set with
  | rewritten found known => exact (attributeChildren_setValue known id).symm ▸ List.prefix_refl _
  | added missing =>
    rw [attributeChildren_withAttribute wf reach element]
    exact List.prefix_append _ _

/-- Under another name the same attribute is found as before. -/
theorem findAttribute_other {other : String} (differ : sameName name other = false) :
    after.findAttribute id other = tree.findAttribute id other := by
  cases set with
  | rewritten found known => exact findAttribute_setValue known id other
  | added missing =>
    have touched := touched_withAttribute wf reach element name value
    have old := touched.find?_attributeChildren wf reach other
    have new : (List.range' tree.size ((tree.lead id).length + 1)).find?
        ((tree.withAttribute id run name value).hasLiteralName other) = none := by
      refine List.find?_eq_none.mpr fun item member named => ?_
      rw [(eq_last_of_hasLiteralName wf reach element name value member named).2] at differ
      cases differ
    rw [findAttribute, attributeChildren_withAttribute wf reach element, List.find?_append, old,
      new, Option.or_none]

/-! ## What is kept -/

/-- An attribute that was there before is held by the run. -/
theorem mem_run (inside : item < tree.size) : tree.Holds run item := by
  cases set with
  | rewritten found known =>
    rw [Holds, ← wf.attributeChildren_eq reach element]
    exact List.mem_of_find?_eq_some found
  | added missing => exact absurd inside (Nat.not_lt_of_le (Nat.le_add_right _ _))

omit wf reach element in
/-- **Every slot is kept** but for those of the run and of the attribute. -/
theorem get?_eq {slot : NodeId} (inside : slot < tree.size) (notRun : slot ≠ run)
    (notItem : slot ≠ item) : after.get? slot = tree.get? slot := by
  cases set with
  | rewritten found known => rw [get?_setKind, if_neg notItem.symm]
  | added missing => exact get?_rerun_of_lt _ _ inside notRun

/-- What else stands in the run is kept. -/
theorem get?_item {other : NodeId} (member : other ∈ tree.attributeChildren id)
    (notItem : other ≠ item) : after.get? other = tree.get? other :=
  set.get?_eq (wf.lt_size_of_mem_attributeChildren reach member)
    (ne_of_mem_attributeChildren wf reach element member) notItem

/-- Under another name the value is found that was found before. -/
theorem value_other {other : String} (differ : sameName name other = false) :
    (after.findAttribute id other).bind after.attributeValue? =
      (tree.findAttribute id other).bind tree.attributeValue? := by
  have again := set.findAttribute_other wf reach element differ
  rw [again]
  cases found : tree.findAttribute id other with
  | none => rfl
  | some first =>
    have notItem : first ≠ item := by
      rintro rfl
      have same := sameName_of_hasLiteralName
        (List.find?_some (set.findAttribute_self wf reach element))
        (List.find?_some (again.trans found))
      rw [same] at differ
      cases differ
    have kept := set.get?_item wf reach element (List.mem_of_find?_eq_some found) notItem
    rw [Option.bind_some, Option.bind_some, attributeValue?, attributeValue?, kind?, kind?, kept]

/-- What any other node holds is kept: neither the run nor the attribute is held twice. -/
theorem get?_held {holder held : NodeId} (reach' : tree.Reachable holder)
    (holds : tree.Holds holder held) (notElement : holder ≠ id) (notRun : holder ≠ run) :
    after.get? held = tree.get? held := by
  have holdsRun := (holds_attributeRun? element).2
  have inside := wf.lt_size_of_holds reach' holds
  refine set.get?_eq inside ?_ ?_
  · rintro rfl
    exact notElement (wf.holder_unique reach' holds reach holdsRun)
  · rintro rfl
    exact notRun
      (wf.holder_unique reach' holds (reach.child holdsRun) (set.mem_run wf reach element inside))

omit wf reach element in
/-- An attribute is no element, be it old or new. -/
theorem attributeRun?_item : tree.attributeRun? item = none := by
  cases set with
  | rewritten found known => rw [attributeRun?, known]
  | added missing => rw [attributeRun?, kind?, get?_eq_none (Nat.le_add_right _ _), Option.map_none]

/-- The slot of an element is kept, that of `id` included. -/
theorem get?_element {other run' : NodeId} (element' : tree.attributeRun? other = some run') :
    after.get? other = tree.get? other := by
  refine set.get?_eq (lt_size_of_attributeRun? element') ?_ ?_
  · rintro rfl
    cases element'.symm.trans (wf.attributeRun?_run reach element)
  · rintro rfl
    cases element'.symm.trans set.attributeRun?_item

/-- **No other element sees anything of it.** -/
theorem sameElement {other run' : NodeId} (reach' : tree.Reachable other)
    (element' : tree.attributeRun? other = some run') (notElement : other ≠ id) :
    tree.SameElement after other := by
  have holdsRun' := (holds_attributeRun? element').2
  have notRun : other ≠ run := by
    rintro rfl
    cases element'.symm.trans (wf.attributeRun?_run reach element)
  have held : ∀ {child}, tree.Holds other child → after.get? child = tree.get? child :=
    fun holds => set.get?_held wf reach element reach' holds notElement notRun
  have slot := set.get?_element wf reach element element'
  have items : after.attributeChildren other = tree.attributeChildren other := by
    have sameRun : after.attributeRun? other = tree.attributeRun? other := by
      rw [attributeRun?, attributeRun?, kind?, kind?, slot]
    rw [attributeChildren, attributeChildren, sameRun, element', Option.map_some, Option.map_some,
      content, content, kind?, kind?, held holdsRun']
  refine ⟨slot, fun other' isRun => ?_, items, fun child member => ?_, fun child member => ?_⟩
  · obtain rfl := Option.some.inj (element'.symm.trans isRun)
    exact held holdsRun'
  · rw [wf.attributeChildren_eq reach' element'] at member
    refine set.get?_held wf reach element (reach'.child holdsRun') member ?_ ?_
    · rintro rfl
      cases element.symm.trans (wf.attributeRun?_run reach' element')
    · rintro rfl
      exact notElement
        (wf.holder_unique reach' holdsRun' reach (holds_attributeRun? element).2)
  · obtain ⟨tag, children, known⟩ := kind?_of_attributeRun? element'
    rw [content_of_kind? known] at member
    refine held ?_
    rw [Holds, walkChildren_of_kind? known]
    exact List.mem_cons_of_mem _ member

/-! ## Setting it once more -/

/-- **The last value wins**, and the tree does not show that there was another one. -/
theorem setAttribute_again (value' : String) :
    Edit.setAttribute id name value' after = Edit.setAttribute id name value' tree := by
  have found' := set.findAttribute_self wf reach element
  have element' : after.attributeRun? id = some run := by
    rw [attributeRun?, kind?, set.get?_element wf reach element element]
    exact element
  cases set with
  | rewritten found known =>
    rw [Edit.setAttribute_of_found element found known,
      Edit.setAttribute_of_found element' found' (kind?_setKind_of_kind? known), setKind_setKind,
      Option.getD_some]
  | added missing =>
    have fragment := wf.kind?_attributeRun reach element
    obtain ⟨runNode, slot, -⟩ := exists_of_kind? fragment
    have known' := (kind?_withAttribute wf reach element name value).2
    rw [Edit.setAttribute_of_missing element fragment missing,
      Edit.setAttribute_of_found element' found' known', withAttribute,
      setKind_rerun _ _ _ _ (lt_size slot)]
    rfl

end AttributeSet

end Tree

/-- **Setting an attribute** of an element in a well-formed tree gives an attribute, which is found
under the name and has the value. It stands in the run where one of this name stood, or behind the
old run, in which every other item is as it was, as is the slot of the element. Under any other name
the same attribute is found with the same value, and any other element has what it had. Setting the
attribute again leaves the tree in which only the last value has ever been set. -/
theorem setAttribute_lawful {tree : Tree} {id run : NodeId} (wf : tree.WellFormed)
    (reach : tree.Reachable id) (element : tree.attributeRun? id = some run) (name value : String) :
    ∃ item after, Edit.setAttribute id name value tree = .ok item after ∧
      after.findAttribute id name = some item ∧
      after.attributeText? id name = some value ∧
      tree.attributeChildren id <+: after.attributeChildren id ∧
      (∀ other ∈ tree.attributeChildren id, other ≠ item → after.get? other = tree.get? other) ∧
      after.get? id = tree.get? id ∧
      (∀ other, sameName name other = false →
        after.findAttribute id other = tree.findAttribute id other ∧
        (after.findAttribute id other).bind after.attributeValue? =
          (tree.findAttribute id other).bind tree.attributeValue?) ∧
      (∀ other run', tree.Reachable other → tree.attributeRun? other = some run' → other ≠ id →
        tree.SameElement after other) ∧
      ∀ value', Edit.setAttribute id name value' after = Edit.setAttribute id name value' tree := by
  obtain ⟨item, after, outcome, set⟩ := Tree.exists_attributeSet wf reach element name value
  refine ⟨item, after, outcome, set.findAttribute_self wf reach element,
    set.attributeText?_self wf reach element, set.attributeChildren_prefix wf reach element, ?items,
    set.get?_element wf reach element element, ?names, ?elements,
    set.setAttribute_again wf reach element⟩
  case items => exact fun other member => set.get?_item wf reach element member
  case names =>
    exact fun other differ => ⟨set.findAttribute_other wf reach element differ,
      set.value_other wf reach element differ⟩
  case elements =>
    exact fun other run' reach' element' => set.sameElement wf reach element reach' element'

/-- `<h1{$e}="x"class Class={$c}><b class="c"></b></h1>`: a name that is an expression, a bare
attribute, and the same name in other letters. -/
def repeatedTree : Tree :=
  ⟨#[⟨.fragment [1], none⟩, ⟨.element "h1" 2 [7], some 0⟩, ⟨.fragment [3, 4, 5, 6], some 1⟩,
    ⟨.attr (.expression "$e") (some (.text "x")) (some '"'), some 2⟩,
    ⟨.attr (.text "class") none none, some 2⟩, ⟨.text " ", some 2⟩,
    ⟨.attr (.text "Class") (some (.expression "$c")) none, some 2⟩, ⟨.element "b" 8 [], some 1⟩,
    ⟨.fragment [9], some 7⟩, ⟨.attr (.text "class") (some (.text "c")) (some '"'), some 8⟩]⟩

theorem repeatedTree_wellFormed : repeatedTree.WellFormed :=
  .of_closed [0, 1, 2, 3, 4, 5, 6, 7, 8, 9] (by decide) (by decide) (by decide) (by decide)

/-- The bare attribute gets the value; the other element keeps its class. -/
theorem setAttribute_lawful_repeated : repeatedTree.WellFormed ∧ repeatedTree.Reachable 1 ∧
    repeatedTree.attributeRun? 1 = some 2 ∧ ∃ after,
      Edit.setAttribute 1 "CLASS" "d" repeatedTree = .ok 4 after ∧
      after.attributeText? 1 "CLASS" = some "d" ∧
      after.findAttribute 1 "id" = repeatedTree.findAttribute 1 "id" ∧
      repeatedTree.SameElement after 7 ∧
      Edit.setAttribute 1 "CLASS" "e" after = Edit.setAttribute 1 "CLASS" "e" repeatedTree := by
  have heading : repeatedTree.Reachable 1 := Tree.Reachable.root.child (by decide)
  obtain ⟨item, after, outcome, -, text, -, -, -, names, elements, again⟩ :=
    setAttribute_lawful repeatedTree_wellFormed heading rfl "CLASS" "d"
  obtain rfl : item = 4 := by cases outcome; rfl
  exact ⟨repeatedTree_wellFormed, heading, rfl, after, outcome, text, (names "id" (by decide)).1,
    elements 7 8 (heading.child (by decide)) rfl (by decide), again "e"⟩

end Templating.Markup
