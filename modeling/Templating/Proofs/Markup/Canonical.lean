import Templating.Markup.Pass.Canonical
import Templating.Proofs.Markup.Pass.Adding
import Templating.Proofs.Markup.Pass.Blanks
import Templating.Proofs.Markup.Pass.Ordering
import Templating.Proofs.Markup.Pipeline
import Templating.Proofs.Text.Words

/-!
# The canonical pipeline on well-formed trees

The settings are accepted when each of their names is one word. The pipeline that they give then
runs over every well-formed tree to its end, and what follows is what it leaves.

* `canonical_run_wellFormed`: it ends without an error and in a well-formed tree;
* `canonical_run_faithful`: nothing that is in view is lost or invented;
* `canonical_run_opaque`: expressions, what is below them and what is detached stay as they were.

All three are read off `exists_canonical_outcome`, the outcome of the passes one after the other.
-/

namespace Templating.Markup

open Templating.Text

/-! ## Settings -/

/-- A value that is not empty and has no blank in it. -/
def IsToken (value : String) : Prop :=
  value ≠ "" ∧ ∀ c ∈ value.toList, isBlank c = false

theorem tokenFault_eq_none_iff (field value : String) :
    tokenFault field value = none ↔ IsToken value := by
  unfold tokenFault IsToken
  by_cases empty : value = ""
  · subst empty
    simp
  · cases blank : value.toList.any isBlank with
    | true =>
      obtain ⟨c, member, isBlank⟩ := List.any_eq_true.mp blank
      simp only [String.isEmpty_iff, empty, if_false, if_true, reduceCtorEq, false_iff]
      rintro ⟨-, noBlank⟩
      rw [noBlank c member] at isBlank
      cases isBlank
    | false =>
      simp only [String.isEmpty_iff, empty, if_false, Bool.false_eq_true, ne_eq, not_false_eq_true,
        true_and, true_iff]
      exact fun c member => Bool.eq_false_iff.mpr (List.any_eq_false.mp blank c member)

theorem HeadingMarkers.fault?_eq_none_iff (markers : HeadingMarkers) :
    markers.fault? = none ↔ IsToken markers.headingClass ∧ IsToken markers.subheadingTag ∧
      IsToken markers.subheadingClass := by
  rw [← tokenFault_eq_none_iff "heading class", ← tokenFault_eq_none_iff "subheading tag",
    ← tokenFault_eq_none_iff "subheading class", fault?]
  cases tokenFault "heading class" markers.headingClass <;>
    cases tokenFault "subheading tag" markers.subheadingTag <;> simp

/-- Valid markers are words. -/
theorem HeadingMarkers.isWord_of_marker? {markers : HeadingMarkers} (valid : markers.fault? = none)
    {tree : Tree} {id : NodeId} {marker : String} (marked : markers.marker? tree id = some marker) :
    IsWord marker.toList := by
  obtain ⟨heading, -, subheading⟩ := markers.fault?_eq_none_iff.mp valid
  have isWord {value : String} (token : IsToken value) : IsWord value.toList :=
    ⟨fun empty => token.1 (String.toList_eq_nil_iff.mp empty), token.2⟩
  obtain ⟨name, -, marks⟩ := Option.bind_eq_some_iff.mp marked
  unfold HeadingMarkers.markerFor at marks
  split at marks
  · obtain rfl := Option.some.inj marks
    exact isWord heading
  · split at marks
    · obtain rfl := Option.some.inj marks
      exact isWord subheading
    · cases marks

/-- The pass that marks headings is made of valid markers only. -/
theorem HeadingMarkers.of_headingClass {markers : HeadingMarkers} {pass : Pass}
    (built : Markup.headingClass markers = .ok pass) :
    markers.fault? = none ∧ pass = Pass.ofEdit headingClassName markers.mark := by
  unfold Markup.headingClass at built
  split at built
  · cases built
  · exact ⟨‹_›, (Except.ok.inj built).symm⟩

namespace PipelineConfig

variable {config : PipelineConfig} {pipeline : Pipeline}

/-- The canonical passes with what each may do to attributes. -/
def passes (config : PipelineConfig) : List (Pass × Allowance) :=
  [(Pass.ofEdit headingClassName config.markers.mark, config.markers.allowance),
    (imageAlt, .filling "img" "alt" ""), (buttonType, .filling "button" "type" "button"),
    (attributeSort (leadingRank defaultLeading), .none), (interiorWhitespace, .none),
    (verticalWhitespace config.normalizeWhitespace, .none)] ++
  if config.compress then [(Markup.compress, .none)] else []

theorem canonical_eq (config : PipelineConfig) : canonical config =
    match config.markers.fault? with
    | some fault => .error (.invalidArgument headingClassName fault)
    | none => .ok (config.passes.map Prod.fst) := by
  unfold canonical Markup.headingClass passes
  cases config.markers.fault? with
  | some fault => rfl
  | none => cases config.compress <;> rfl

theorem eq_passes_of_canonical (built : canonical config = .ok pipeline) :
    pipeline = config.passes.map Prod.fst := by
  rw [canonical_eq] at built
  split at built
  · cases built
  · exact (Except.ok.inj built).symm

theorem local_of_mem_passes {pass : Pass × Allowance} (member : pass ∈ config.passes) :
    pass.1.Local pass.2 := by
  simp only [passes, List.cons_append, List.nil_append, List.mem_cons] at member
  rcases member with rfl | rfl | rfl | rfl | rfl | rfl | last
  · exact config.markers.mark_local
  · exact imageAlt_local
  · exact buttonType_local
  · exact attributeSort_local _
  · exact interiorWhitespace_local
  · exact verticalWhitespace_local _
  · split at last
    · obtain rfl := List.mem_singleton.mp last
      exact compress_local
    · cases last

theorem additive_of_mem_tail {pass : Pass × Allowance} (member : pass ∈ config.passes.tail) :
    pass.2.Additive := by
  simp only [passes, List.cons_append, List.nil_append, List.tail_cons, List.mem_cons] at member
  rcases member with rfl | rfl | rfl | rfl | rfl | last
  all_goals try exact fun _ _ => rfl
  split at last
  · obtain rfl := List.mem_singleton.mp last
    exact fun _ _ => rfl
  · cases last

/-- The attributes that an element may get: a class, an `alt` and a `type`, each when it is due and
missing. -/
def additions (config : PipelineConfig) (tree : Tree) (id : NodeId) : List NodeKind :=
  config.markers.added tree id ++ tree.filling "img" "alt" "" id ++
    tree.filling "button" "type" "button" id

theorem added_eq_additions (config : PipelineConfig) (tree : Tree) (id : NodeId) :
    (Allowance.all (config.passes.map Prod.snd)).added tree id = config.additions tree id := by
  unfold passes additions
  cases config.compress <;> simp [Allowance.all, Allowance.andThen, Allowance.none,
    Allowance.adding, HeadingMarkers.allowance, Allowance.filling]

end PipelineConfig

/-- The outcome of the canonical pipeline. -/
theorem exists_canonical_outcome {config : PipelineConfig} {pipeline : Pipeline} {tree : Tree}
    (built : canonical config = .ok pipeline) (wf : tree.WellFormed) :
    ∃ after, Pipeline.run pipeline tree = .ok () after ∧
      tree.Outcome (.all (config.passes.map Prod.snd)) after := by
  rw [PipelineConfig.eq_passes_of_canonical built]
  exact Pipeline.exists_outcome config.passes
    (fun _ member => PipelineConfig.local_of_mem_passes member)
    (fun _ member => PipelineConfig.additive_of_mem_tail member) wf

/-! ## Running to the end -/

/-- **The canonical pipeline ends.** It is built exactly when the class of headings, the name of
secondary headings and their class are one word each, and then every walk over a well-formed tree
ends without an error and leaves a well-formed tree. -/
theorem canonical_run_wellFormed (config : PipelineConfig) :
    ((∃ pipeline, canonical config = .ok pipeline) ↔ IsToken config.headingClass ∧
      IsToken config.subheadingTag ∧ IsToken config.subheadingClass) ∧
    ∀ pipeline, canonical config = .ok pipeline → ∀ tree : Tree, tree.WellFormed →
      ∃ after, Pipeline.run pipeline tree = .ok () after ∧ after.WellFormed := by
  constructor
  · rw [PipelineConfig.canonical_eq]
    refine Iff.trans ?_ config.markers.fault?_eq_none_iff
    cases config.markers.fault? with
    | some fault => simp
    | none => simp
  · intro pipeline built tree wf
    obtain ⟨after, ran, outcome⟩ := exists_canonical_outcome built wf
    exact ⟨after, ran, outcome.wellFormed⟩

/-- A heading with an expression for its class, an expression with a text below it, and a text that
nothing holds. -/
def sampleTree : Tree :=
  ⟨#[⟨.fragment [2, 4], none⟩, ⟨.fragment [7], some 2⟩, ⟨.element "h1" 1 [3], some 0⟩,
    ⟨.text "a\n\n", some 2⟩, ⟨.expression "$b" [5], some 0⟩, ⟨.text " \n c ", some 4⟩,
    ⟨.text " \n d ", none⟩, ⟨.attr (.text "class") (some (.expression "$e")) none, some 1⟩]⟩

theorem sampleTree_wellFormed : sampleTree.WellFormed :=
  .of_closed [0, 1, 2, 3, 4, 5, 7] (by decide) (by decide) (by decide) (by decide)

theorem canonical_run_wellFormed_sample : ∃ pipeline, canonical {} = .ok pipeline ∧
    sampleTree.WellFormed ∧
    ∃ after, Pipeline.run pipeline sampleTree = .ok () after ∧ after.WellFormed :=
  ⟨_, rfl, sampleTree_wellFormed,
    (canonical_run_wellFormed {}).2 _ rfl sampleTree sampleTree_wellFormed⟩

/-! ## Losing and inventing nothing -/

/-- Headings, and the secondary headings that stand directly in one. -/
def HeadingMarkers.Marked (markers : HeadingMarkers) (tree : Tree) (id : NodeId) : Prop :=
  ∃ name, tree.elementName? id = some name ∧ (isHeading name = true ∨
    (sameName name markers.subheadingTag = true ∧ ∃ holder holderName,
      tree.parent? id = some holder ∧ tree.elementName? holder = some holderName ∧
        isHeading holderName = true))

theorem HeadingMarkers.marked_of_marker? {markers : HeadingMarkers} {tree : Tree} {id : NodeId}
    (marked : (markers.marker? tree id).isSome = true) : markers.Marked tree id := by
  obtain ⟨marker, found⟩ := Option.isSome_iff_exists.mp marked
  obtain ⟨name, isElement, marks⟩ := Option.bind_eq_some_iff.mp found
  refine ⟨name, isElement, ?_⟩
  unfold markerFor at marks
  split at marks
  · exact .inl ‹_›
  · split at marks
    · rename_i secondary
      obtain ⟨named, inHeading⟩ := Bool.and_eq_true_iff.mp secondary
      obtain ⟨holderName, known, isHeading⟩ := (Option.any_eq_true ..).mp inHeading
      obtain ⟨holder, parent, isElement'⟩ := Option.bind_eq_some_iff.mp known
      exact .inr ⟨named, holder, holderName, parent, isElement', isHeading⟩
    · cases marks

/-- What is in view is neither lost nor invented: elements and fragments keep what they hold, texts
what is solid in them, and attribute runs their attributes and whatever is no blank text. An
attribute keeps its name, and its value unless it is the first class of a marked element. New
attributes are those that the settings call for. -/
structure Tree.Faithful (config : PipelineConfig) (before after : Tree) : Prop where
  element : ∀ id name run children, before.Visible id →
    before.kind? id = some (.element name run children) →
    after.kind? id = some (.element name run children)
  fragment : ∀ id items, before.Visible id → before.kind? id = some (.fragment items) →
    (∀ element, before.Visible element → before.attributeRun? element ≠ some id) →
    after.kind? id = some (.fragment items)
  text : ∀ id content, before.Visible id → before.kind? id = some (.text content) →
    ∃ content', after.kind? id = some (.text content') ∧
      solid content'.toList = solid content.toList
  attribute_count : ∀ element, before.Visible element → ∀ id ∈ before.runAttributes element,
    (after.attributeChildren element).count id = (before.attributeChildren element).count id
  attribute_kind : ∀ element, before.Visible element → ∀ id ∈ before.runAttributes element,
    ∃ name value quote, before.kind? id = some (.attr name value quote) ∧
      (after.kind? id = some (.attr name value quote) ∨
        (config.markers.Marked before element ∧ before.findAttribute element "class" = some id ∧
          ∃ value' quote', after.kind? id = some (.attr name value' quote')))
  others : ∀ element, before.Visible element →
    after.runOthers element = before.runOthers element
  added : ∀ element, before.Visible element → ∃ new,
    (after.runAttributes element).Perm (before.runAttributes element ++ new) ∧
      (∀ id ∈ new, before.size ≤ id) ∧
      (new.map after.kind?).Sublist ((config.additions before element).map some)

/-- No old attribute gets out of its run or into it twice. -/
theorem Tree.RunKept.count_eq {before after : Tree} {element id : NodeId} {added : List NodeKind}
    {rewritten : Option NodeId} (kept : before.RunKept after element added rewritten)
    (retouched : before.Retouched after) (wf : before.WellFormed) (reach : before.Reachable element)
    (member : id ∈ before.runAttributes element) :
    (after.attributeChildren element).count id = (before.attributeChildren element).count id := by
  obtain ⟨child, isAttr⟩ := List.mem_filter.mp member
  have inside := wf.lt_size_of_mem_attributeChildren reach child
  obtain ⟨new, perm, fresh, -⟩ := kept.attributes
  have notNew : id ∉ new := fun isNew => absurd inside (Nat.not_lt_of_le (fresh id isNew))
  calc (after.attributeChildren element).count id
      = (after.runAttributes element).count id :=
        (List.count_filter ((retouched.isAttribute_eq inside).trans isAttr)).symm
    _ = (before.runAttributes element).count id + new.count id := by
        rw [perm.count_eq, List.count_append]
    _ = (before.runAttributes element).count id := by
        rw [List.count_eq_zero_of_not_mem notNew, Nat.add_zero]
    _ = (before.attributeChildren element).count id := List.count_filter isAttr

/-- An old attribute keeps its name, and its value unless it is the first class of a marked
element. -/
theorem Tree.RunKept.exists_kind? {markers : HeadingMarkers} {before after : Tree}
    {element id : NodeId} {added : List NodeKind}
    (kept : before.RunKept after element added (markers.rewritten before element))
    (retouched : before.Retouched after) (member : id ∈ before.runAttributes element) :
    ∃ name value quote, before.kind? id = some (.attr name value quote) ∧
      (after.kind? id = some (.attr name value quote) ∨
        (markers.Marked before element ∧ before.findAttribute element "class" = some id ∧
          ∃ value' quote', after.kind? id = some (.attr name value' quote'))) := by
  obtain ⟨kind, known, isAttr⟩ := (Option.any_eq_true ..).mp (List.mem_filter.mp member).2
  obtain ⟨kind', now, retouch⟩ := retouched.kind known
  cases kind with
  | attr name value quote =>
    refine ⟨name, value, quote, known, ?_⟩
    by_cases allowed : id ∈ markers.rewritten before element
    · right
      unfold HeadingMarkers.rewritten at allowed
      split at allowed
      · refine ⟨HeadingMarkers.marked_of_marker? ‹_›, allowed, ?_⟩
        cases retouch with
        | same => exact ⟨value, quote, now⟩
        | value => exact ⟨_, _, now⟩
      · cases allowed
    · left
      rw [kept.kind?_eq id member allowed, known]
  | _ => cases isAttr

/-- **The canonical pipeline is faithful** to every well-formed tree. -/
theorem canonical_run_faithful (config : PipelineConfig) (pipeline : Pipeline)
    (built : canonical config = .ok pipeline) (tree : Tree) (wf : tree.WellFormed) :
    ∃ after, Pipeline.run pipeline tree = .ok () after ∧ tree.Faithful config after := by
  obtain ⟨after, ran, outcome⟩ := exists_canonical_outcome built wf
  have kept : ∀ element, tree.Visible element →
      tree.RunKept after element (config.additions tree element)
        (config.markers.rewritten tree element) := by
    intro element visible
    rw [← PipelineConfig.added_eq_additions]
    exact outcome.runKept_of_visible wf visible
  refine ⟨after, ran, ?_, ?_, ?_, ?_, ?_, ?_, ?_⟩
  · exact fun id name run children _ known => outcome.kind?_element.mpr known
  · intro id items _ known noRun
    obtain ⟨kind, now, retouch⟩ := outcome.kind known
    have children := outcome.walkChildren_eq id noRun
    rw [Tree.walkChildren_of_kind? known, Tree.walkChildren_of_kind? now] at children
    cases retouch with
    | same => exact now
    | items =>
      rw [now]
      exact congrArg (fun held => some (NodeKind.fragment held)) children
  · intro id content _ known
    obtain ⟨kind, now, retouch⟩ := outcome.kind known
    cases retouch with
    | same => exact ⟨content, now, rfl⟩
    | text solids => exact ⟨_, now, solids.symm⟩
  · exact fun element visible id member =>
      (kept element visible).count_eq outcome.toRetouched wf visible.reachable member
  · exact fun element visible id member =>
      (kept element visible).exists_kind? outcome.toRetouched member
  · intro element visible
    rw [← Tree.otherRunChildren_eq_runOthers, ← Tree.otherRunChildren_eq_runOthers]
    exact (kept element visible).others
  · exact fun element visible => (kept element visible).attributes

theorem canonical_run_faithful_sample : ∃ pipeline, canonical {} = .ok pipeline ∧
    sampleTree.WellFormed ∧ ∃ after, Pipeline.run pipeline sampleTree = .ok () after ∧
      sampleTree.Faithful {} after :=
  ⟨_, rfl, sampleTree_wellFormed, canonical_run_faithful {} _ rfl sampleTree sampleTree_wellFormed⟩

/-! ## Opacity -/

/-- A chain of holders leads from `holder` down to the node. -/
def Tree.Below (tree : Tree) (holder : NodeId) : NodeId → Prop :=
  Relation.TransGen tree.Holds holder

/-- No detached node holds a reachable one. -/
def Tree.SoleHolders (tree : Tree) : Prop :=
  ∀ holder held, tree.Holds holder held → tree.Reachable held → tree.Reachable holder

namespace Tree

variable {tree : Tree} {expression id : NodeId}

/-- What is below a reachable expression is out of view. -/
theorem WellFormed.not_visible_of_below (wf : tree.WellFormed) (reach : tree.Reachable expression)
    (isExpression : tree.isExpression expression = true) (below : tree.Below expression id) :
    ¬ tree.Visible id := by
  have shown : ∀ {holder held}, tree.Reachable holder → tree.Holds holder held →
      tree.Visible held → tree.Visible holder ∧ tree.isExpression holder = false := by
    intro holder held reached holds visible
    have notRoot : held ≠ root := by
      rintro rfl
      exact wf.root_free holder reached holds
    obtain ⟨other, visible', shows⟩ := visible.exists_shows notRoot
    obtain rfl := wf.holder_unique reached holds visible'.reachable shows.2
    exact ⟨visible', shows.1⟩
  have reached : ∀ {held}, tree.Below expression held → tree.Reachable held := fun below =>
    reach.trans below.to_reflTransGen
  induction below with
  | single holds =>
    intro visible
    rw [(shown reach holds visible).2] at isExpression
    cases isExpression
  | tail below holds ih => exact fun visible => ih (shown (reached below) holds visible).1

/-- Below a detached node there is nothing reachable when reachable nodes have no other holders. -/
theorem SoleHolders.reachable_of_below (sole : tree.SoleHolders) (below : tree.Below expression id)
    (reach : tree.Reachable id) : tree.Reachable expression := by
  induction below with
  | single holds => exact sole _ _ holds reach
  | tail _ holds ih => exact ih (sole _ _ holds reach)

end Tree

/-- **The canonical pipeline does not look into expressions.** Expressions, what is below them and
detached nodes keep their slots, parents included, and so do expressions for the name or the value
of an attribute. Below a detached expression this is so as long as no detached node holds a
reachable one, which would be in view through its other holder. That each reachable node but the
root is held once, and the root by nothing, is part of what is meant by a well-formed tree, and
`SoleHolders` follows from it; `WellFormed` counts the holders that are reachable themselves, since
walks and passes meet no others. -/
theorem canonical_run_opaque (config : PipelineConfig) (pipeline : Pipeline)
    (built : canonical config = .ok pipeline) (tree : Tree) (wf : tree.WellFormed) :
    ∃ after, Pipeline.run pipeline tree = .ok () after ∧
      (∀ id, id < tree.size → (tree.isExpression id = true ∨ ¬ tree.Reachable id) →
        after.get? id = tree.get? id) ∧
      (∀ expression id, id < tree.size → tree.isExpression expression = true →
        tree.Below expression id → (tree.Reachable expression ∨ tree.SoleHolders) →
        after.get? id = tree.get? id) ∧
      ∀ id name value quote, tree.kind? id = some (.attr name value quote) →
        ∃ value' quote', after.kind? id = some (.attr name value' quote') ∧
          ∀ source, value = some (.expression source) → value' = value ∧ quote' = quote := by
  obtain ⟨after, ran, outcome⟩ := exists_canonical_outcome built wf
  have detached : ∀ id, id < tree.size → ¬ tree.Reachable id → after.get? id = tree.get? id :=
    fun id inside out => outcome.hidden id inside fun visible => out visible.reachable
  refine ⟨after, ran, ?_, ?_, ?_⟩
  · rintro id inside (isExpression | out)
    · exact outcome.get?_of_isExpression isExpression
    · exact detached id inside out
  · intro expression id inside isExpression below reading
    by_cases reach : tree.Reachable expression
    · exact outcome.hidden id inside (wf.not_visible_of_below reach isExpression below)
    · refine detached id inside fun reached => reach ?_
      exact (reading.resolve_left reach).reachable_of_below below reached
  · intro id name value quote known
    obtain ⟨kind, now, retouch⟩ := outcome.kind known
    cases retouch with
    | same => exact ⟨value, quote, now, fun _ _ => ⟨rfl, rfl⟩⟩
    | value literal => exact ⟨_, _, now, fun source same => absurd same (literal source)⟩

theorem canonical_run_opaque_sample :
    ∃ pipeline, canonical { compress := true } = .ok pipeline ∧ sampleTree.WellFormed ∧
      ∃ after, Pipeline.run pipeline sampleTree = .ok () after ∧
        after.get? 4 = sampleTree.get? 4 ∧ after.get? 5 = sampleTree.get? 5 ∧
        after.get? 6 = sampleTree.get? 6 ∧
        after.kind? 7 = some (.attr (.text "class") (some (.expression "$e")) none) := by
  obtain ⟨after, ran, slots, below, attributes⟩ :=
    canonical_run_opaque { compress := true } _ rfl sampleTree sampleTree_wellFormed
  have reach : sampleTree.Reachable 4 := Tree.Reachable.root.child (by unfold Tree.Holds; decide)
  have holds : sampleTree.Holds 4 5 := by unfold Tree.Holds; decide
  have detached : ¬ sampleTree.Reachable 6 := fun reach =>
    absurd (reach.mem_of_closed [0, 1, 2, 3, 4, 5, 7] (by decide) (by decide)) (by decide)
  obtain ⟨value, quote, known, same⟩ := attributes 7 _ _ _ rfl
  obtain ⟨rfl, rfl⟩ := same _ rfl
  exact ⟨_, rfl, sampleTree_wellFormed, after, ran, slots 4 (by decide) (.inl rfl),
    below 4 5 (by decide) rfl (.single holds) (.inl reach), slots 6 (by decide) (.inr detached),
    known⟩

end Templating.Markup
