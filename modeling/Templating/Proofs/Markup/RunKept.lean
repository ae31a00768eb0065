import Mathlib.Data.List.Find
import Templating.Markup.Pass.AttributeOrder
import Templating.Proofs.Markup.Touched

/-!
# What becomes of an attribute run

`RunKept` compares the attribute run of an element in two trees: the attributes are the old ones and
those that were allowed to be added, the old ones are unchanged but for one that was allowed to be
rewritten, and all that is neither an attribute nor blank text stands in its old order.

* `RunKept.of_attributeChildren_eq`: a run with the same items.
* `RunKept.trans`: changes of a run add up.
* `Touched.runKept_of_ne`: a visit keeps the runs of all elements but its own.
-/

namespace Templating.Markup

namespace Tree

/-- The attributes of an element in their order. -/
def runAttributes (tree : Tree) (element : NodeId) : List NodeId :=
  (tree.attributeChildren element).filter tree.isAttribute

/-- What else stands in the run of an element, but for its blank texts, in order. -/
def runOthers (tree : Tree) (element : NodeId) : List NodeId :=
  (tree.attributeChildren element).filter fun id => !tree.isAttribute id && !tree.isBlankText id

theorem otherRunChildren_eq_runOthers (tree : Tree) (element : NodeId) :
    tree.otherRunChildren element = tree.runOthers element := rfl

section

variable {tree : Tree} {id : NodeId}

theorem isAttribute_of_text {content : String} (known : tree.kind? id = some (.text content)) :
    tree.isAttribute id = false := by
  rw [isAttribute, known]
  rfl

/-- A separator is blank text. -/
theorem isOtherRunChild_of_separator (known : tree.kind? id = some (.text separator)) :
    tree.isOtherRunChild id = false := by
  have blank : tree.isBlankText id = true := by
    rw [isBlankText, textContent?, known]
    rfl
  rw [isOtherRunChild, blank, Bool.not_true, Bool.and_false]

theorem isOtherRunChild_of_isAttribute (isAttr : tree.isAttribute id = true) :
    tree.isOtherRunChild id = false := by
  rw [isAttribute] at isAttr
  rw [isOtherRunChild, isAttr]
  rfl

theorem isOtherRunChild_eq_true (noAttr : tree.isAttribute id = false)
    (dense : tree.isBlankText id = false) : tree.isOtherRunChild id = true := by
  rw [isAttribute] at noAttr
  rw [isOtherRunChild, noAttr, dense]
  rfl

end

namespace Retouched

variable {before after : Tree} {id : NodeId}

theorem isOtherRunChild_eq (retouched : Retouched before after) (inside : id < before.size) :
    after.isOtherRunChild id = before.isOtherRunChild id := by
  have sameShape := retouched.isAttribute_eq inside
  rw [isAttribute, isAttribute] at sameShape
  rw [isOtherRunChild, isOtherRunChild, sameShape, retouched.isBlankText_eq inside]

theorem hasLiteralName_eq (retouched : Retouched before after) (inside : id < before.size)
    (name : String) : after.hasLiteralName name id = before.hasLiteralName name id := by
  obtain ⟨node, slot⟩ := exists_get? inside
  have was := kind?_of_get? slot
  obtain ⟨kind, now, retouch⟩ := retouched.kind was
  rw [hasLiteralName, hasLiteralName, was, now, Option.bind_some, Option.bind_some,
    retouch.literalName?_eq]

/-- An element whose run is walked as before has its old attribute children. -/
theorem attributeChildren_eq (retouched : Retouched before after) (wf : before.WellFormed)
    {run : NodeId} (reach : before.Reachable id) (element : before.attributeRun? id = some run)
    (children : after.walkChildren run = before.walkChildren run) :
    after.attributeChildren id = before.attributeChildren id := by
  have content : after.content run = after.walkChildren run := by
    obtain ⟨kind, now, retouch⟩ := retouched.kind (wf.kind?_attributeRun reach element)
    rw [content_of_kind? now, walkChildren_of_kind? now]
    cases retouch <;> rfl
  rw [wf.attributeChildren_eq reach element, attributeChildren, retouched.attributeRun?_eq, element,
    Option.map_some, Option.getD_some, content, children]

end Retouched

theorem WellFormed.lt_size_of_mem_attributeChildren {tree : Tree} {id item : NodeId}
    (wf : tree.WellFormed) (reach : tree.Reachable id) (member : item ∈ tree.attributeChildren id) :
    item < tree.size := by
  cases element : tree.attributeRun? id with
  | none =>
    rw [attributeChildren, element] at member
    cases member
  | some run =>
    rw [wf.attributeChildren_eq reach element] at member
    exact wf.lt_size_of_holds (reach.child (holds_attributeRun? element).2) member

/-- A run does not stand in itself. -/
theorem ne_of_mem_attributeChildren {tree : Tree} {id run item : NodeId} (wf : tree.WellFormed)
    (reach : tree.Reachable id) (element : tree.attributeRun? id = some run)
    (member : item ∈ tree.attributeChildren id) : item ≠ run := by
  rintro rfl
  rw [wf.attributeChildren_eq reach element] at member
  exact wf.not_holds_run reach element reach element member

/-- The old items of a run are attributes, or others, as before. -/
theorem Retouched.filter_isAttribute_eq {before after : Tree} {id : NodeId}
    (retouched : Retouched before after) (wf : before.WellFormed) (reach : before.Reachable id) :
    (before.attributeChildren id).filter after.isAttribute = before.runAttributes id :=
  List.filter_congr fun _ member =>
    retouched.isAttribute_eq (wf.lt_size_of_mem_attributeChildren reach member)

theorem Retouched.filter_isOtherRunChild_eq {before after : Tree} {id : NodeId}
    (retouched : Retouched before after) (wf : before.WellFormed) (reach : before.Reachable id) :
    (before.attributeChildren id).filter after.isOtherRunChild = before.otherRunChildren id :=
  List.filter_congr fun _ member =>
    retouched.isOtherRunChild_eq (wf.lt_size_of_mem_attributeChildren reach member)

theorem kind?_of_hasLiteralName {tree : Tree} {id : NodeId} {name : String}
    (named : tree.hasLiteralName name id = true) :
    ∃ literal value quote, tree.kind? id = some (.attr (.text literal) value quote) := by
  cases known : tree.kind? id with
  | none => simp [hasLiteralName, known] at named
  | some kind =>
    rw [hasLiteralName, known, Option.bind_some] at named
    unfold NodeKind.literalName? at named
    split at named
    · exact ⟨_, _, _, rfl⟩
    · cases named

theorem isAttribute_of_hasLiteralName {tree : Tree} {id : NodeId} {name : String}
    (named : tree.hasLiteralName name id = true) : tree.isAttribute id = true := by
  obtain ⟨literal, value, quote, known⟩ := kind?_of_hasLiteralName named
  rw [isAttribute, known]
  rfl

/-! ## Runs in two trees -/

/-- The attribute run of `element` holds in `after` what it held in `before`, with `added` for the
attributes that may be new and `rewritten` for the one that may have another value. -/
structure RunKept (before after : Tree) (element : NodeId) (added : List NodeKind)
    (rewritten : Option NodeId) : Prop where
  attributes : ∃ new, (after.runAttributes element).Perm (before.runAttributes element ++ new) ∧
    (∀ id ∈ new, before.size ≤ id) ∧ (new.map after.kind?).Sublist (added.map some)
  kind?_eq : ∀ id ∈ before.runAttributes element, id ∉ rewritten →
    after.kind? id = before.kind? id
  others : after.otherRunChildren element = before.otherRunChildren element

namespace RunKept

variable {before middle after : Tree} {element : NodeId} {added added' : List NodeKind}
  {rewritten : Option NodeId}

/-- A run with the same items, in which no attribute but the allowed one has changed. -/
theorem of_attributeChildren_eq (retouched : Retouched before after) (wf : before.WellFormed)
    (reach : before.Reachable element)
    (items : after.attributeChildren element = before.attributeChildren element)
    (kinds : ∀ id ∈ before.runAttributes element, id ∉ rewritten →
      after.kind? id = before.kind? id) : RunKept before after element [] rewritten := by
  refine ⟨⟨[], ?_, fun id member => (List.not_mem_nil member).elim, .slnil⟩, kinds, ?_⟩
  · rw [List.append_nil, runAttributes, items]
    exact .of_eq (retouched.filter_isAttribute_eq wf reach)
  · rw [otherRunChildren, items]
    exact retouched.filter_isOtherRunChild_eq wf reach

theorem refl (wf : before.WellFormed) (reach : before.Reachable element) :
    RunKept before before element [] none :=
  of_attributeChildren_eq (.refl before) wf reach rfl fun _ _ _ => rfl

/-- More attributes may have been allowed to be new. -/
theorem weaken (kept : RunKept before after element added rewritten)
    (fewer : added.Sublist added') : RunKept before after element added' rewritten where
  attributes := by
    obtain ⟨new, perm, fresh, kinds⟩ := kept.attributes
    exact ⟨new, perm, fresh, kinds.trans (fewer.map some)⟩
  kind?_eq := kept.kind?_eq
  others := kept.others

/-- An attribute may have been allowed to be rewritten. -/
theorem spare (kept : RunKept before after element added none) :
    RunKept before after element added rewritten where
  attributes := kept.attributes
  kind?_eq := fun id member _ => kept.kind?_eq id member nofun
  others := kept.others

/-- **Changes of a run add up**, when the rewritten attribute was there before them. -/
theorem trans (first : RunKept before middle element added rewritten)
    (second : RunKept middle after element added' rewritten)
    (grown : before.size ≤ middle.size) (old : ∀ id ∈ rewritten, id < before.size) :
    RunKept before after element (added ++ added') rewritten := by
  obtain ⟨new, perm, fresh, kinds⟩ := first.attributes
  obtain ⟨new', perm', fresh', kinds'⟩ := second.attributes
  have still : ∀ {id}, id ∈ before.runAttributes element ++ new →
      id ∈ middle.runAttributes element := fun member => perm.symm.subset member
  refine ⟨⟨new ++ new', ?_, ?_, ?_⟩, ?_, second.others.trans first.others⟩
  · rw [← List.append_assoc]
    exact perm'.trans (perm.append_right new')
  · intro id member
    rcases List.mem_append.mp member with member | member
    · exact fresh id member
    · exact Nat.le_trans grown (fresh' id member)
  · have unchanged : new.map after.kind? = new.map middle.kind? := by
      refine List.map_congr_left fun id member => ?_
      refine second.kind?_eq id (still (List.mem_append_right _ member)) fun allowed => ?_
      exact absurd (old id allowed) (Nat.not_lt_of_le (fresh id member))
    rw [List.map_append, List.map_append, unchanged]
    exact kinds.append kinds'
  · intro id member allowed
    rw [second.kind?_eq id (still (List.mem_append_left _ member)) allowed,
      first.kind?_eq id member allowed]

/-- An attribute in the run was there before or is a new one that was allowed. -/
theorem old_or_new (kept : RunKept before after element added rewritten) {id : NodeId}
    (member : id ∈ after.runAttributes element) : id ∈ before.runAttributes element ∨
      before.size ≤ id ∧ ∃ kind ∈ added, after.kind? id = some kind := by
  obtain ⟨new, perm, fresh, kinds⟩ := kept.attributes
  rcases List.mem_append.mp (perm.subset member) with old | isNew
  · exact .inl old
  · obtain ⟨kind, allowed, isKind⟩ := List.mem_map.mp (kinds.subset (List.mem_map_of_mem isNew))
    exact .inr ⟨fresh id isNew, kind, allowed, isKind.symm⟩

/-- What the run lacks in the end it lacked before. -/
theorem findAttribute_eq_none (kept : RunKept before after element added rewritten)
    (retouched : Retouched before after) (wf : before.WellFormed) (reach : before.Reachable element)
    {name : String} (missing : after.findAttribute element name = none) :
    before.findAttribute element name = none := by
  obtain ⟨new, perm, -⟩ := kept.attributes
  rw [findAttribute, List.find?_eq_none] at missing ⊢
  intro id member named
  have listed : id ∈ before.runAttributes element :=
    List.mem_filter.mpr ⟨member, isAttribute_of_hasLiteralName named⟩
  have still : id ∈ after.runAttributes element :=
    perm.symm.subset (List.mem_append_left _ listed)
  refine missing id (List.mem_filter.mp still).1 ?_
  rw [retouched.hasLiteralName_eq (wf.lt_size_of_mem_attributeChildren reach member), named]

end RunKept

/-- Among the old items of a run the same attribute is found under a name. -/
theorem Retouched.find?_attributeChildren {before after : Tree} {element : NodeId}
    (retouched : Retouched before after) (wf : before.WellFormed) (reach : before.Reachable element)
    (name : String) : (before.attributeChildren element).find? (after.hasLiteralName name) =
      before.findAttribute element name :=
  List.find?_congr fun _ member =>
    retouched.hasLiteralName_eq (wf.lt_size_of_mem_attributeChildren reach member) name

/-- Attributes are found where they were found as long as the run has its old items. -/
theorem Retouched.findAttribute_eq {before after : Tree} {element : NodeId}
    (retouched : Retouched before after) (wf : before.WellFormed) (reach : before.Reachable element)
    (items : after.attributeChildren element = before.attributeChildren element) (name : String) :
    after.findAttribute element name = before.findAttribute element name := by
  rw [findAttribute, items, retouched.find?_attributeChildren wf reach]

/-- A visit keeps the runs of all elements but its own. -/
theorem Touched.runKept_of_ne {before after : Tree} {visited element run : NodeId}
    (touched : Touched before visited after) (wf : before.WellFormed)
    (seen : before.Reachable visited) (reach : before.Reachable element) (other : element ≠ visited)
    (isElement : before.attributeRun? element = some run) :
    RunKept before after element [] none := by
  have holds := (holds_attributeRun? isElement).2
  have notRun : before.attributeRun? visited ≠ some run := fun isRun =>
    other (wf.holder_unique reach holds seen (holds_attributeRun? isRun).2)
  have items := touched.attributeChildren_eq wf reach isElement (touched.walkChildren_eq run notRun)
  refine .of_attributeChildren_eq touched.toRetouched wf reach items fun id member _ => ?_
  obtain ⟨item, isAttr⟩ := List.mem_filter.mp member
  have inside := wf.lt_size_of_mem_attributeChildren reach item
  rw [wf.attributeChildren_eq reach isElement] at item
  have runReach := reach.child holds
  have outside : id ∉ before.footprint visited := by
    intro inFootprint
    unfold footprint at inFootprint
    split at inFootprint
    · rename_i run' _ known
      have isRun := attributeRun?_of_kind? known
      have holds' := (holds_attributeRun? isRun).2
      rcases List.mem_cons.mp inFootprint with rfl | item'
      · exact wf.not_holds_run seen isRun reach isElement item
      · have same := wf.holder_unique runReach item (seen.child holds') item'
        exact notRun (same ▸ isRun)
    · rename_i known
      obtain rfl := List.mem_singleton.mp inFootprint
      rw [isAttribute, known] at isAttr
      cases isAttr
    · cases inFootprint
  rw [kind?, kind?, touched.outside id inside outside]

end Tree

end Templating.Markup
