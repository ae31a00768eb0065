import Templating.Proofs.Markup.Reach
import Templating.Proofs.Text.Blank

/-!
# What passes may change

`Retouched` says how the slots of a tree may change: each keeps its parent and its kind but for the
blanks of a text, the literal value of an attribute and the items of a fragment, and new slots hold
texts and attributes.

A visit works on its own node and on the attribute run of that node: on the footprint. `Touched`
says what it may do there: the run may be put together anew, from the new nodes and from what stood
in it, of which only blank text may be left out. `Preserved` is what remains of this over any number
of visits.

* `Touched.wellFormed`: a touched tree is well-formed again.
* `Touched.preserved`, `Preserved.trans`: what a visit preserves, and that it adds up.
-/

namespace Templating.Markup

open Templating.Text

namespace NodeKind

/-- Texts and attributes, which hold no other node. -/
def IsLeaf (kind : NodeKind) : Prop :=
  kind.shape = .text ∨ kind.shape = .attr

/-- How the kind of a slot may change: in the blanks of a text, in the literal value of an attribute
and in the items of a fragment. -/
inductive Retouch : NodeKind → NodeKind → Prop
  | same (kind : NodeKind) : Retouch kind kind
  | text {old new : String} :
    solid old.toList = solid new.toList → Retouch (.text old) (.text new)
  | value {name : AttrPart} {value : Option AttrPart} {quote : Option Char} {new : String} :
    (∀ source, value ≠ some (.expression source)) →
    Retouch (.attr name value quote) (.attr name (some (.text new)) (some (quote.getD '"')))
  | items {old new : List NodeId} : Retouch (.fragment old) (.fragment new)

theorem IsLeaf.walkChildren_eq {kind : NodeKind} (leaf : kind.IsLeaf) : kind.walkChildren = [] := by
  cases kind <;> simp_all [IsLeaf, shape, walkChildren]

namespace Retouch

variable {before middle after : NodeKind}

theorem trans (first : Retouch before middle) (second : Retouch middle after) :
    Retouch before after := by
  cases first with
  | same => exact second
  | text solids =>
    cases second with
    | same => exact .text solids
    | text solids' => exact .text (solids.trans solids')
  | value literal =>
    cases second with
    | same => exact .value literal
    | value => exact .value literal
  | items =>
    cases second with
    | same => exact .items
    | items => exact .items

theorem shape_eq (retouch : Retouch before after) : after.shape = before.shape := by
  cases retouch <;> rfl

theorem literalName?_eq (retouch : Retouch before after) :
    after.literalName? = before.literalName? := by
  cases retouch with
  | @value name => cases name <;> rfl
  | _ => rfl

theorem eq_of_element (retouch : Retouch before after) (shape : before.shape = .element) :
    after = before := by
  cases retouch with
  | same => rfl
  | _ => cases shape

theorem eq_of_expression (retouch : Retouch before after) (shape : before.shape = .expression) :
    after = before := by
  cases retouch with
  | same => rfl
  | _ => cases shape

end Retouch

end NodeKind

namespace Tree

/-- Whether the node is an attribute. -/
def isAttribute (tree : Tree) (id : NodeId) : Bool :=
  (tree.kind? id).any (·.shape = .attr)

/-! ## Slots -/

/-- `after` has the slots of `before`, retouched, and new ones that hold leaves. -/
structure Retouched (before after : Tree) : Prop where
  size_le : before.size ≤ after.size
  slot : ∀ id node, before.get? id = some node →
    ∃ kind, after.get? id = some ⟨kind, node.parent⟩ ∧ NodeKind.Retouch node.kind kind
  fresh : ∀ id node, before.size ≤ id → after.get? id = some node → node.kind.IsLeaf

namespace Retouched

variable {before middle after : Tree} {id : NodeId}

theorem refl (tree : Tree) : Retouched tree tree where
  size_le := Nat.le_refl _
  slot := fun _ node known => ⟨node.kind, known, .same _⟩
  fresh := by
    intro id node beyond known
    rw [get?_eq_none beyond] at known
    cases known

theorem kind (retouched : Retouched before after) {kind : NodeKind}
    (known : before.kind? id = some kind) :
    ∃ kind', after.kind? id = some kind' ∧ NodeKind.Retouch kind kind' := by
  obtain ⟨node, slot, rfl⟩ := exists_of_kind? known
  obtain ⟨kind', changed, retouch⟩ := retouched.slot id node slot
  exact ⟨kind', kind?_of_get? changed, retouch⟩

theorem isLeaf_of_size_le (retouched : Retouched before after) {kind : NodeKind}
    (beyond : before.size ≤ id) (now : after.kind? id = some kind) : kind.IsLeaf := by
  obtain ⟨node, known, rfl⟩ := exists_of_kind? now
  exact retouched.fresh id node beyond known

theorem trans (first : Retouched before middle) (second : Retouched middle after) :
    Retouched before after where
  size_le := Nat.le_trans first.size_le second.size_le
  slot := by
    intro id node known
    obtain ⟨kind, known', retouch⟩ := first.slot id node known
    obtain ⟨kind', known'', retouch'⟩ := second.slot id _ known'
    exact ⟨kind', known'', retouch.trans retouch'⟩
  fresh := by
    intro id node beyond known
    by_cases inMiddle : id < middle.size
    · obtain ⟨node', known'⟩ := exists_get? inMiddle
      obtain ⟨kind, known'', retouch⟩ := second.slot id node' known'
      obtain rfl : node = ⟨kind, node'.parent⟩ := Option.some.inj (known.symm.trans known'')
      have leaf := first.fresh id node' beyond known'
      rwa [NodeKind.IsLeaf, ← retouch.shape_eq] at leaf
    · exact second.fresh id node (Nat.le_of_not_lt inMiddle) known

/-- An old slot keeps the node that it names as its parent. -/
theorem parent?_eq (retouched : Retouched before after) (inside : id < before.size) :
    after.parent? id = before.parent? id := by
  obtain ⟨node, known⟩ := exists_get? inside
  obtain ⟨kind, changed, -⟩ := retouched.slot id node known
  rw [parent?_of_get? changed, parent?_of_get? known]

/-- Only old slots hold anything. -/
theorem lt_of_holds (retouched : Retouched before after) {child : NodeId}
    (member : child ∈ after.walkChildren id) : id < before.size := by
  by_contra beyond
  obtain ⟨node, known⟩ := exists_get? (lt_size_of_mem_walkChildren member)
  have leaf := retouched.fresh id node (Nat.le_of_not_lt beyond) known
  rw [walkChildren_of_get? known, leaf.walkChildren_eq] at member
  cases member

/-- What is an expression stays one, and nothing becomes one. -/
theorem isExpression_eq (retouched : Retouched before after) (id : NodeId) :
    after.isExpression id = before.isExpression id := by
  rw [isExpression, isExpression]
  cases was : before.kind? id with
  | some kind =>
    obtain ⟨kind', now, retouch⟩ := retouched.kind was
    rw [now, Option.any_some, Option.any_some, retouch.shape_eq]
  | none =>
    cases now : after.kind? id with
    | none => rfl
    | some kind =>
      rcases retouched.isLeaf_of_size_le (size_le_of_kind?_eq_none was) now with shape | shape <;>
        simp [shape]

/-- Expressions do not change. -/
theorem get?_of_isExpression (retouched : Retouched before after)
    (expression : before.isExpression id = true) : after.get? id = before.get? id := by
  cases slot : before.get? id with
  | none => simp [isExpression, kind?, slot] at expression
  | some node =>
    have shape : node.kind.shape = .expression := by
      simpa [isExpression, kind?, slot] using expression
    obtain ⟨kind, changed, retouch⟩ := retouched.slot id node slot
    rw [changed, retouch.eq_of_expression shape]

/-- Elements keep their name, run and content, and nothing becomes an element. -/
theorem kind?_element (retouched : Retouched before after) {name : String} {run : NodeId}
    {children : List NodeId} : after.kind? id = some (.element name run children) ↔
      before.kind? id = some (.element name run children) := by
  constructor
  · intro now
    cases was : before.kind? id with
    | some kind =>
      obtain ⟨kind', now', retouch⟩ := retouched.kind was
      obtain rfl := Option.some.inj (now.symm.trans now')
      rw [retouch.eq_of_element retouch.shape_eq.symm]
    | none =>
      have leaf := retouched.isLeaf_of_size_le (size_le_of_kind?_eq_none was) now
      rcases leaf with shape | shape <;> cases shape
  · intro was
    obtain ⟨kind', now, retouch⟩ := retouched.kind was
    rw [now, retouch.eq_of_element rfl]

theorem elementName?_eq (retouched : Retouched before after) (id : NodeId) :
    after.elementName? id = before.elementName? id := by
  refine Option.ext fun name => ?_
  constructor
  · intro now
    obtain ⟨run, children, known⟩ := kind?_of_elementName? now
    rw [elementName?, retouched.kind?_element.mp known]
  · intro was
    obtain ⟨run, children, known⟩ := kind?_of_elementName? was
    rw [elementName?, retouched.kind?_element.mpr known]

theorem attributeRun?_eq (retouched : Retouched before after) (id : NodeId) :
    after.attributeRun? id = before.attributeRun? id := by
  refine Option.ext fun run => ?_
  constructor
  · intro now
    obtain ⟨name, children, known⟩ := kind?_of_attributeRun? now
    exact attributeRun?_of_kind? (retouched.kind?_element.mp known)
  · intro was
    obtain ⟨name, children, known⟩ := kind?_of_attributeRun? was
    exact attributeRun?_of_kind? (retouched.kind?_element.mpr known)

/-- An old text stays blank or not. -/
theorem isBlankText_eq (retouched : Retouched before after) (inside : id < before.size) :
    after.isBlankText id = before.isBlankText id := by
  obtain ⟨node, slot⟩ := exists_get? inside
  have was := kind?_of_get? slot
  obtain ⟨kind', now, retouch⟩ := retouched.kind was
  rw [isBlankText, isBlankText, textContent?, textContent?, was, now]
  generalize node.kind = kind at retouch
  cases retouch with
  | text solids =>
    rw [Option.any_some, Option.any_some, Bool.eq_iff_iff, allBlank_iff, allBlank_iff, solids]
  | same => rfl
  | _ => rfl

/-- An old node is an attribute or not, as before. -/
theorem isAttribute_eq (retouched : Retouched before after) (inside : id < before.size) :
    after.isAttribute id = before.isAttribute id := by
  obtain ⟨node, slot⟩ := exists_get? inside
  have was := kind?_of_get? slot
  obtain ⟨kind', now, retouch⟩ := retouched.kind was
  rw [isAttribute, isAttribute, was, now, Option.any_some, Option.any_some, retouch.shape_eq]

end Retouched

/-! ## One visit -/

/-- The slots on which a visit of a node works: the attribute run of an element with what stands in
it, and the own slot of a text. -/
def footprint (tree : Tree) (id : NodeId) : List NodeId :=
  match tree.kind? id with
  | some (.element _ run _) => run :: tree.walkChildren run
  | some (.text _) => [id]
  | _ => []

/-- `after` is `before` with the footprint of `id` changed as a visit may change it. -/
structure Touched (before : Tree) (id : NodeId) (after : Tree) : Prop extends
    Retouched before after where
  outside : ∀ other, other < before.size → other ∉ before.footprint id →
    after.get? other = before.get? other
  walkChildren_eq : ∀ other, before.attributeRun? id ≠ some other →
    after.walkChildren other = before.walkChildren other
  run : ∀ run, before.attributeRun? id = some run → (after.walkChildren run).Nodup ∧
    (∀ item ∈ after.walkChildren run, item ∈ before.walkChildren run ∨
      (before.size ≤ item ∧ after.parent? item = some run)) ∧
    ∀ item ∈ before.walkChildren run, before.isBlankText item = false →
      item ∈ after.walkChildren run

theorem Touched.refl {tree : Tree} {id : NodeId} (wf : tree.WellFormed)
    (reach : tree.Reachable id) : Touched tree id tree where
  toRetouched := .refl tree
  outside := fun _ _ _ => rfl
  walkChildren_eq := fun _ _ => rfl
  run := fun _ element =>
    ⟨wf.nodup_walkChildren (reach.child (holds_attributeRun? element).2),
      fun _ member => .inl member, fun _ member _ => member⟩

/-- The footprint of a visible node is in view. -/
theorem visible_of_mem_footprint {tree : Tree} {id other : NodeId} (wf : tree.WellFormed)
    (visible : tree.Visible id) (member : other ∈ tree.footprint id) : tree.Visible other := by
  unfold footprint at member
  split at member
  · rename_i run _ known
    have element := attributeRun?_of_kind? known
    have seen := visible.child (holds_attributeRun? element)
    rcases List.mem_cons.mp member with rfl | item
    · exact seen
    · exact seen.child (wf.shows_attributeRun visible.reachable element item)
  · obtain rfl := List.mem_singleton.mp member
    exact visible
  · cases member

namespace Touched

variable {before after : Tree} {id other : NodeId}

/-- A visit takes nothing old into a node that did not hold it. -/
theorem holds_of_lt (touched : Touched before id after) {holder held : NodeId}
    (holds : after.Holds holder held) (inside : held < before.size) : before.Holds holder held := by
  by_cases run : before.attributeRun? id = some holder
  · rcases (touched.run holder run).2.1 held holds with old | ⟨beyond, -⟩
    · exact old
    · exact absurd inside (Nat.not_lt_of_le beyond)
  · rwa [Holds, touched.walkChildren_eq holder run] at holds

/-- No old node comes into reach. -/
theorem reachable_of_lt (touched : Touched before id after) (reached : after.Reachable other)
    (inside : other < before.size) : before.Reachable other := by
  induction reached with
  | refl => exact Reachable.root
  | tail _ holds ih =>
    exact (ih (touched.lt_of_holds holds)).child (touched.holds_of_lt holds inside)

/-- No old node comes into view. -/
theorem visible_of_lt (touched : Touched before id after) (seen : after.Visible other)
    (inside : other < before.size) : before.Visible other := by
  induction seen with
  | refl => exact Visible.root
  | tail _ shows ih =>
    refine (ih (touched.lt_of_holds shows.2)).child ⟨?_, touched.holds_of_lt shows.2 inside⟩
    rw [← touched.isExpression_eq]
    exact shows.1

/-- A node gets out of view only when the run leaves it out. -/
theorem visible_of_kept (touched : Touched before id after) (visible : before.Visible other)
    (kept : ∀ run, before.attributeRun? id = some run → other ∈ before.walkChildren run →
      other ∈ after.walkChildren run) : after.Visible other := by
  induction visible with
  | refl => exact Visible.root
  | @tail holder held visible shows ih =>
    -- The holder of a node is no blank text, so the run cannot have left it out.
    have seen : after.Visible holder := ih fun run element member =>
      (touched.run run element).2.2 holder member (isBlankText_eq_false shows.2)
    refine seen.child ⟨(touched.isExpression_eq holder).trans shows.1, ?_⟩
    by_cases run : before.attributeRun? id = some holder
    · exact kept holder run shows.2
    · rw [Holds, touched.walkChildren_eq holder run]
      exact shows.2

/-- **A visit keeps a tree well-formed.** -/
theorem wellFormed (touched : Touched before id after) (wf : before.WellFormed) :
    after.WellFormed := by
  have reachable : ∀ {holder held}, after.Reachable holder → after.Holds holder held →
      before.Reachable holder := fun reached holds =>
    touched.reachable_of_lt reached (touched.lt_of_holds holds)
  refine WellFormed.of_links ?_ ?_ ?_ ?_
  · intro element name run children reached known
    have was := touched.kind?_element.mp known
    have holds : after.Holds element run := (holds_attributeRun? (attributeRun?_of_kind? known)).2
    obtain ⟨items, fragment⟩ :=
      wf.run_fragment element name run children (reachable reached holds) was
    obtain ⟨kind, now, retouch⟩ := touched.kind fragment
    cases retouch with
    | same => exact ⟨items, now⟩
    | items => exact ⟨_, now⟩
  · intro holder reached holds
    have inside : Tree.root < before.size :=
      Nat.lt_of_le_of_lt (Nat.zero_le _) (touched.lt_of_holds holds)
    exact wf.root_free holder (reachable reached holds) (touched.holds_of_lt holds inside)
  · intro holder reached
    by_cases run : before.attributeRun? id = some holder
    · exact (touched.run holder run).1
    · rw [touched.walkChildren_eq holder run]
      by_cases inside : holder < before.size
      · exact wf.nodup_walkChildren (touched.reachable_of_lt reached inside)
      · rw [walkChildren, kind?, get?_eq_none (Nat.le_of_not_lt inside)]
        exact List.nodup_nil
  · intro holder held reached holds
    have was : before.Holds holder held → after.parent? held = some holder := by
      intro old
      have named := wf.parent?_of_holds (reachable reached holds) old
      obtain ⟨node, slot, -⟩ := exists_of_parent? named
      rw [touched.parent?_eq (lt_size slot), named]
    by_cases run : before.attributeRun? id = some holder
    · rcases (touched.run holder run).2.1 held holds with old | ⟨-, named⟩
      · exact was old
      · exact named
    · refine was ?_
      rwa [Holds, touched.walkChildren_eq holder run] at holds

end Touched

/-! ## Many visits -/

/-- What any number of visits leaves as it was: what is out of view, all lists of children but those
of attribute runs in view, and what there is in view but for blank texts. -/
structure Preserved (before after : Tree) : Prop extends Retouched before after where
  hidden : ∀ id, id < before.size → ¬ before.Visible id → after.get? id = before.get? id
  walkChildren_eq : ∀ id,
    (∀ element, before.Visible element → before.attributeRun? element ≠ some id) →
    after.walkChildren id = before.walkChildren id
  visible_of_lt : ∀ id, after.Visible id → id < before.size → before.Visible id
  visible : ∀ id, id < before.size → before.Visible id → before.isBlankText id = false →
    after.Visible id

namespace Preserved

variable {before middle after : Tree}

theorem refl (tree : Tree) : Preserved tree tree where
  toRetouched := .refl tree
  hidden := fun _ _ _ => rfl
  walkChildren_eq := fun _ _ => rfl
  visible_of_lt := fun _ visible _ => visible
  visible := fun _ _ visible _ => visible

theorem trans (first : Preserved before middle) (second : Preserved middle after) :
    Preserved before after where
  toRetouched := first.toRetouched.trans second.toRetouched
  hidden := by
    intro id inside out
    have inside' := Nat.lt_of_lt_of_le inside first.size_le
    rw [second.hidden id inside' fun seen => out (first.visible_of_lt id seen inside),
      first.hidden id inside out]
  walkChildren_eq := by
    intro id noRun
    rw [second.walkChildren_eq id ?_, first.walkChildren_eq id noRun]
    intro element seen run
    rw [first.attributeRun?_eq] at run
    exact noRun element (first.visible_of_lt element seen (lt_size_of_attributeRun? run)) run
  visible_of_lt := fun id seen inside =>
    first.visible_of_lt id
      (second.visible_of_lt id seen (Nat.lt_of_lt_of_le inside first.size_le)) inside
  visible := by
    intro id inside seen dense
    refine second.visible id (Nat.lt_of_lt_of_le inside first.size_le)
      (first.visible id inside seen dense) ?_
    rw [first.isBlankText_eq inside, dense]

end Preserved

/-- What a visit preserves. -/
theorem Touched.preserved {before after : Tree} {id : NodeId} (touched : Touched before id after)
    (wf : before.WellFormed) (visible : before.Visible id) : Preserved before after where
  toRetouched := touched.toRetouched
  hidden := fun other inside out =>
    touched.outside other inside fun member => out (visible_of_mem_footprint wf visible member)
  walkChildren_eq := fun other noRun => touched.walkChildren_eq other (noRun id visible)
  visible_of_lt := fun _ seen inside => touched.visible_of_lt seen inside
  visible := fun other _ seen dense => touched.visible_of_kept seen fun run element member =>
    (touched.run run element).2.2 other member dense

end Tree

end Templating.Markup
