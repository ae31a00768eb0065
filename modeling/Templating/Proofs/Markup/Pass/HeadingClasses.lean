import Templating.Proofs.Markup.Canonical
import Templating.Proofs.Markup.Pass.Amending

/-!
# The classes of headings

What one walk of the pass that marks headings makes of the attribute run of every element in view,
told by the run that it had and by nothing else of the tree.

* `HeadingMarkers.MarkedRun`: a class is put at the end of a run that has none; the first class is
  kept when it is an expression, and else has the words that it had and the marker, each once.
* `MarkedRun.exists_class`: a marked run has its marker.
* `headingClass_marks`: headings and the secondary headings in them are marked, all other runs stay,
  and a second walk changes nothing.
-/

namespace Templating.Markup

open Templating.Text

/-! ## Marked runs -/

/-- The classes in the text of a class attribute. -/
def classesOf (text : String) : List String :=
  (words text.toList).map String.ofList

/-- What marking makes of the kinds of a run. The class attribute is the first with this literal
name. -/
inductive MarkedRun (marker : String) : List NodeKind → List NodeKind → Prop
  /-- Without a class attribute, a new one stands at the end, behind a separator when there has to
  be one. -/
  | appended {kinds gap : List NodeKind} (missing : ∀ kind ∈ kinds, kind.isNamed "class" = false)
      (spaced : gap = [] ∨ gap = [.text separator]) :
    MarkedRun marker kinds (kinds ++ gap ++ [.literal "class" marker])
  /-- An expression is kept. -/
  | expression {front back : List NodeKind} {name source : String} {quote : Option Char}
      (first : ∀ kind ∈ front, kind.isNamed "class" = false)
      (named : sameName name "class" = true) :
    MarkedRun marker (front ++ .attr (.text name) (some (.expression source)) quote :: back)
      (front ++ .attr (.text name) (some (.expression source)) quote :: back)
  /-- The classes that are there, none for a bare attribute, and the marker are written each once.
  An attribute without a quote gets one when its value changes. -/
  | merged {front back : List NodeKind} {name old : String} {value : Option AttrPart}
      {quote quote' : Option Char} {classes : List String}
      (first : ∀ kind ∈ front, kind.isNamed "class" = false) (named : sameName name "class" = true)
      (text : (value = none ∧ old = "") ∨ value = some (.text old))
      (appear : FirstAppearances (classesOf old ++ [marker]) classes)
      (quoted : quote' = if value = some (.text (" ".intercalate classes)) then quote
        else some (quote.getD '"')) :
    MarkedRun marker (front ++ .attr (.text name) value quote :: back)
      (front ++ .attr (.text name) (some (.text (" ".intercalate classes))) quote' :: back)

theorem leadOf_eq (kinds : List NodeKind) :
    leadOf kinds = [] ∨ leadOf kinds = [.text separator] := by
  unfold leadOf
  split
  · exact .inl rfl
  · exact .inr rfl

/-- A list that has an item with a property has a first one. -/
theorem exists_first {α : Type} {p : α → Bool} {items : List α} (there : items.any p = true) :
    ∃ front item back, items = front ++ item :: back ∧ (∀ earlier ∈ front, p earlier = false) ∧
      p item = true := by
  obtain ⟨item, found⟩ :=
    Option.isSome_iff_exists.mp (List.find?_isSome.mpr (List.any_eq_true.mp there))
  obtain ⟨holds, front, back, split, earlier⟩ := List.find?_eq_some_iff_append.mp found
  exact ⟨front, item, back, split, fun other member => by simpa using earlier other member, holds⟩

theorem mergeClasses_eq (old marker : String) :
    mergeClasses old marker = " ".intercalate (classesOf old ++ [marker]).eraseDups := rfl

/-- A marker leaves no class empty. -/
theorem mergeClasses_ne_empty {marker : String} (isWord : IsWord marker.toList) (old : String) :
    mergeClasses old marker ≠ "" := by
  intro empty
  have classes := words_mergeClasses isWord old
  rw [empty] at classes
  have member : marker ∈ (classesOf old ++ [marker]).eraseDups :=
    List.mem_eraseDups.mpr (List.mem_append_right _ List.mem_cons_self)
  rw [classesOf, ← classes] at member
  cases member

/-- What a marker makes of a class with a literal value, or without one. -/
theorem marked_of_text {marker name old : String} {value : Option AttrPart} (quote : Option Char)
    (isWord : IsWord marker.toList) (text : (value = none ∧ old = "") ∨ value = some (.text old)) :
    NodeKind.marked marker (.attr (.text name) value quote) =
      .attr (.text name) (some (.text (mergeClasses old marker)))
        (if value = some (.text (mergeClasses old marker)) then quote
          else some (quote.getD '"')) := by
  rcases text with ⟨rfl, rfl⟩ | rfl
  · rw [if_neg (Option.some_ne_none _).symm]
    exact if_neg (mergeClasses_ne_empty isWord "")
  · by_cases same : mergeClasses old marker = old
    · rw [same, if_pos rfl]
      exact if_pos same
    · have differ : some (AttrPart.text old) ≠ some (.text (mergeClasses old marker)) :=
        fun equal => same (AttrPart.text.inj (Option.some.inj equal)).symm
      rw [if_neg differ]
      exact if_neg same

/-- **Marking a run** amends it. -/
theorem markedRun_marking {marker : String} (isWord : IsWord marker.toList)
    (kinds : List NodeKind) : MarkedRun marker kinds ((Amendment.marking marker).apply kinds) := by
  cases there : kinds.any (NodeKind.isNamed "class") with
  | false =>
    rw [(Amendment.marking marker).apply_of_missing there]
    refine .appended (fun kind member => ?_) (leadOf_eq kinds)
    exact Bool.eq_false_iff.mpr (List.any_eq_false.mp there kind member)
  | true =>
    obtain ⟨front, kind, back, rfl, first, named⟩ := exists_first there
    have changed : (Amendment.marking marker).apply (front ++ kind :: back) =
        front ++ NodeKind.marked marker kind :: back :=
      ((Amendment.marking marker).apply_of_there there).trans (changeFirst_append first named)
    rw [changed]
    obtain ⟨name, value, quote, rfl, named⟩ := NodeKind.isNamed_iff.mp named
    have merge {old : String} (text : (value = none ∧ old = "") ∨ value = some (.text old)) :
        MarkedRun marker (front ++ .attr (.text name) value quote :: back)
          (front ++ NodeKind.marked marker (.attr (.text name) value quote) :: back) := by
      rw [marked_of_text quote isWord text, mergeClasses_eq]
      exact .merged first named text (firstAppearances_eraseDups _) rfl
    match value with
    | none => exact merge (.inl ⟨rfl, rfl⟩)
    | some (.text old) => exact merge (.inr rfl)
    | some (.expression source) => exact .expression first named

/-! ## Marked again -/

theorem isNamed_attr {name other : String} {value : Option AttrPart} {quote : Option Char}
    (named : sameName name other = true) :
    (NodeKind.attr (.text name) value quote).isNamed other = true :=
  named

/-- Classes that have the marker and each word once are kept. -/
theorem mergeClasses_of_firstAppearances {marker old : String} {classes : List String}
    (isWord : IsWord marker.toList)
    (appear : FirstAppearances (classesOf old ++ [marker]) classes) :
    mergeClasses (" ".intercalate classes) marker = " ".intercalate classes := by
  have read : classesOf (" ".intercalate classes) = classes :=
    words_intercalate_classes fun name member =>
      isWord_of_mem_classes isWord ((appear.mem_iff name).mp member)
  have here : marker ∈ classes :=
    (appear.mem_iff marker).mpr (List.mem_append_right _ List.mem_cons_self)
  rw [mergeClasses_eq, read, eraseDups_concat_of_mem appear.nodup here]

/-- **A marked run has its marker**: the first class is an expression or has the marker. -/
theorem MarkedRun.exists_class {marker : String} {before after : List NodeKind}
    (isWord : IsWord marker.toList) (marked : MarkedRun marker before after) :
    ∃ name value quote, after.find? (NodeKind.isNamed "class") = some (.attr name value quote) ∧
      ∀ existing, classText? value = some existing → mergeClasses existing marker = existing := by
  have find {front back : List NodeKind} {kind : NodeKind}
      (first : ∀ kind ∈ front, kind.isNamed "class" = false) (named : kind.isNamed "class" = true) :
      (front ++ kind :: back).find? (NodeKind.isNamed "class") = some kind :=
    List.find?_eq_some_iff_append.mpr ⟨named, front, back, rfl, fun other member => by
      rw [first other member]
      rfl⟩
  cases marked with
  | @appended kinds gap missing spaced =>
    have clear : ∀ kind ∈ before ++ gap, kind.isNamed "class" = false := by
      intro kind member
      rcases List.mem_append.mp member with old | inGap
      · exact missing kind old
      · rcases spaced with rfl | rfl
        · cases inGap
        · rw [List.mem_singleton.mp inGap]
          rfl
    refine ⟨_, _, _, find clear (isNamed_attr (sameName_refl "class")), fun existing text => ?_⟩
    cases text
    exact mergeClasses_self isWord
  | expression first named =>
    refine ⟨_, _, _, find first (isNamed_attr named), fun existing text => ?_⟩
    cases text
  | merged first named text appear quoted =>
    refine ⟨_, _, _, find first (isNamed_attr named), fun existing text => ?_⟩
    cases text
    exact mergeClasses_of_firstAppearances isWord appear

/-! ## Marked trees -/

namespace Tree

variable {tree : Tree} {id : NodeId} (wf : tree.WellFormed) (reach : tree.Reachable id)

include wf reach

theorem length_runKinds : (tree.runKinds id).length = (tree.attributeChildren id).length := by
  have lengths := congrArg List.length (wf.map_kind?_attributeChildren reach)
  rw [List.length_map, List.length_map] at lengths
  exact lengths.symm

/-- The attribute that is found is the first of its name among the kinds of the run. -/
theorem exists_findAttribute {name : String} {kind : NodeKind}
    (first : (tree.runKinds id).find? (NodeKind.isNamed name) = some kind) :
    ∃ item, tree.findAttribute id name = some item ∧ tree.kind? item = some kind := by
  have mapped := congrArg (List.find? (Option.any (NodeKind.isNamed name)))
    (wf.map_kind?_attributeChildren reach)
  have named : Option.any (NodeKind.isNamed name) ∘ some = NodeKind.isNamed name := rfl
  rw [List.find?_map, List.find?_map, named, first, Option.map_some] at mapped
  obtain ⟨item, found, known⟩ := Option.map_eq_some_iff.mp mapped
  refine ⟨item, ?_, known⟩
  rw [findAttribute, funext (tree.hasLiteralName_eq_any name)]
  exact found

end Tree

/-- The node stands directly in a heading. -/
def Tree.InHeading (tree : Tree) (id : NodeId) : Prop :=
  ∃ holder name, tree.parent? id = some holder ∧ tree.elementName? holder = some name ∧
    isHeading name = true

namespace HeadingMarkers

variable (markers : HeadingMarkers)

/-- What marking makes of an element with this name: a heading is marked, and so is a secondary
heading that stands directly in one; the run of any other element stays. New items stand behind the
old ones. -/
structure MarksElement (before after : Tree) (id : NodeId) (name : String) : Prop where
  heading : isHeading name = true →
    MarkedRun markers.headingClass (before.runKinds id) (after.runKinds id)
  subheading : isHeading name = false → sameName name markers.subheadingTag = true →
    before.InHeading id → MarkedRun markers.subheadingClass (before.runKinds id) (after.runKinds id)
  other : isHeading name = false →
    ¬ (sameName name markers.subheadingTag = true ∧ before.InHeading id) →
    after.attributeChildren id = before.attributeChildren id ∧
      after.runKinds id = before.runKinds id
  items : before.attributeChildren id <+: after.attributeChildren id

variable {markers} {tree after : Tree} {id : NodeId} {name : String}

theorem any_isHeading_iff (tree : Tree) (id : NodeId) :
    ((tree.parent? id).bind tree.elementName?).any isHeading = true ↔ tree.InHeading id := by
  constructor
  · intro inside
    obtain ⟨name, known, isHeading⟩ := (Option.any_eq_true ..).mp inside
    obtain ⟨holder, parent, element⟩ := Option.bind_eq_some_iff.mp known
    exact ⟨holder, name, parent, element, isHeading⟩
  · intro ⟨holder, name, parent, element, isHeading⟩
    rw [parent, Option.bind_some, element, Option.any_some]
    exact isHeading

theorem marker?_of_heading (element : tree.elementName? id = some name)
    (heading : isHeading name = true) :
    markers.marker? tree id = some markers.headingClass := by
  rw [marker?, element, Option.bind_some, markerFor, if_pos heading]

theorem marker?_of_subheading (element : tree.elementName? id = some name)
    (noHeading : isHeading name = false) (same : sameName name markers.subheadingTag = true)
    (inside : tree.InHeading id) : markers.marker? tree id = some markers.subheadingClass := by
  rw [marker?, element, Option.bind_some, markerFor, if_neg (Bool.eq_false_iff.mp noHeading), same,
    (any_isHeading_iff tree id).mpr inside]
  rfl

theorem marker?_of_other (element : tree.elementName? id = some name)
    (noHeading : isHeading name = false)
    (other : ¬ (sameName name markers.subheadingTag = true ∧ tree.InHeading id)) :
    markers.marker? tree id = none := by
  rw [← any_isHeading_iff, ← Bool.and_eq_true] at other
  rw [marker?, element, Option.bind_some, markerFor, if_neg (Bool.eq_false_iff.mp noHeading),
    if_neg other]

theorem marksElement (valid : markers.fault? = none) (wf : tree.WellFormed)
    (remade : tree.Remade (fun id => amended (markers.amendment? tree id)) after)
    (extended : tree.Extended after id "class") (visible : tree.Visible id)
    (element : tree.elementName? id = some name) : markers.MarksElement tree after id name := by
  obtain ⟨run, isElement⟩ := Tree.exists_attributeRun? element
  have seen := (remade.element_after visible isElement).1
  have kinds := remade.runs id run visible isElement
  obtain ⟨new, items, -⟩ := extended.items
  have marked {marker : String} (isMarker : markers.marker? tree id = some marker) :
      MarkedRun marker (tree.runKinds id) (after.runKinds id) := by
    rw [kinds, amendment?, isMarker]
    exact markedRun_marking (isWord_of_marker? valid isMarker) _
  refine ⟨fun heading => marked (marker?_of_heading element heading),
    fun noHeading same inside => marked (marker?_of_subheading element noHeading same inside),
    fun noHeading other => ?_, ⟨new, items.symm⟩⟩
  rw [amendment?, marker?_of_other element noHeading other] at kinds
  have same : after.runKinds id = tree.runKinds id := kinds
  have starts : tree.attributeChildren id <+: after.attributeChildren id := ⟨new, items.symm⟩
  refine ⟨(starts.eq_of_length ?_).symm, same⟩
  rw [← Tree.length_runKinds wf visible.reachable,
    ← Tree.length_runKinds remade.wellFormed seen.reachable, same]

/-- Every marked element in view has its marker when the walk is done. -/
theorem borne_of_remade (valid : markers.fault? = none)
    (remade : tree.Remade (fun id => amended (markers.amendment? tree id)) after)
    (visible : after.Visible id) : markers.Borne after id := by
  intro marker isMarker
  obtain ⟨name, element, -⟩ := Option.bind_eq_some_iff.mp isMarker
  obtain ⟨run, isElement⟩ := Tree.exists_attributeRun? element
  obtain ⟨seen, wasElement⟩ := remade.element visible isElement
  have was : markers.marker? tree id = some marker :=
    (markers.marker?_eq remade.toRetouched (Tree.lt_size_of_attributeRun? wasElement)).symm.trans
      isMarker
  have isWord := isWord_of_marker? valid was
  have kinds := remade.runs id run seen wasElement
  rw [amendment?, was] at kinds
  have marked : MarkedRun marker (tree.runKinds id) (after.runKinds id) :=
    kinds ▸ markedRun_marking isWord _
  obtain ⟨part, value, quote, first, absorbs⟩ := marked.exists_class isWord
  obtain ⟨item, found, known⟩ :=
    Tree.exists_findAttribute remade.wellFormed visible.reachable first
  refine ⟨item, found, fun existing text => absorbs existing ?_⟩
  rwa [Tree.attributeValue?, known] at text

end HeadingMarkers

/-- **Headings are marked**, and nothing else: one walk over a well-formed tree ends without an
error and makes of the run of each element in view what its name and its holder call for. A second
walk leaves the tree as it is. -/
theorem headingClass_marks (markers : HeadingMarkers) (pass : Pass)
    (built : headingClass markers = .ok pass) (tree : Tree) (wf : tree.WellFormed) :
    ∃ after, pass.walk tree = .ok () after ∧ pass.walk after = .ok () after ∧
      ∀ id name, tree.Visible id → tree.elementName? id = some name →
        markers.MarksElement tree after id name := by
  obtain ⟨valid, rfl⟩ := HeadingMarkers.of_headingClass built
  obtain ⟨after, walked, remade⟩ :=
    Pass.Local.exists_remade markers.mark_local (markers.mark_reruns tree) wf
  obtain ⟨after', walked', -, -, left⟩ := markers.exists_mark (leadingRank defaultLeading) wf
    fun _ _ => HeadingMarkers.isWord_of_marker? valid
  cases walked.symm.trans walked'
  refine ⟨after, walked, ?_, fun id name visible element => ?_⟩
  · apply Pass.Local.walk_eq_self_of_visible markers.mark_local remade.wellFormed
    intro id visible
    exact markers.mark_eq_self (HeadingMarkers.borne_of_remade valid remade visible)
  · obtain ⟨run, isElement⟩ := Tree.exists_attributeRun? element
    have seen := (remade.element_after visible isElement).1
    exact HeadingMarkers.marksElement valid wf remade (left id run seen isElement).toExtended
      visible element

/-- A heading with two classes; in it a secondary heading with a bare class, and in that one an
element of the same name that stands in no heading directly. -/
def nestedHeadingTree : Tree :=
  ⟨#[⟨.fragment [1], none⟩, ⟨.element "H1" 2 [5], some 0⟩, ⟨.fragment [3, 4], some 1⟩,
    ⟨.attr (.text "Class") (some (.text " a heading\ta")) none, some 2⟩,
    ⟨.attr (.text "class") (some (.expression "$b")) none, some 2⟩,
    ⟨.element "small" 6 [8], some 1⟩, ⟨.fragment [7], some 5⟩,
    ⟨.attr (.text "class") none none, some 6⟩, ⟨.element "Small" 9 [], some 5⟩,
    ⟨.fragment [], some 8⟩]⟩

theorem headingClass_marks_nested : ∃ pass,
    headingClass ⟨"heading", "small", "subheading"⟩ = .ok pass ∧ nestedHeadingTree.WellFormed ∧
    ∃ after, pass.walk nestedHeadingTree = .ok () after ∧ pass.walk after = .ok () after ∧
      MarkedRun "heading" (nestedHeadingTree.runKinds 1) (after.runKinds 1) ∧
      MarkedRun "subheading" (nestedHeadingTree.runKinds 5) (after.runKinds 5) ∧
      after.runKinds 8 = nestedHeadingTree.runKinds 8 := by
  have wf : nestedHeadingTree.WellFormed :=
    .of_closed [0, 1, 2, 3, 4, 5, 6, 7, 8, 9] (by decide) (by decide) (by decide) (by decide)
  have first : nestedHeadingTree.Visible 1 := .child .root ⟨rfl, .head _⟩
  have second : nestedHeadingTree.Visible 5 := first.child ⟨rfl, .tail _ (.head _)⟩
  have third : nestedHeadingTree.Visible 8 := second.child ⟨rfl, .tail _ (.head _)⟩
  obtain ⟨after, walked, again, marks⟩ :=
    headingClass_marks ⟨"heading", "small", "subheading"⟩ _ rfl nestedHeadingTree wf
  refine ⟨_, rfl, wf, after, walked, again, ?_, ?_, ?_⟩
  · exact (marks 1 "H1" first rfl).heading (by decide)
  · exact (marks 5 "small" second rfl).subheading (by decide) (by decide)
      ⟨1, "H1", rfl, rfl, by decide⟩
  · refine ((marks 8 "Small" third rfl).other (by decide) ?_).2
    intro ⟨_, holder, name, parent, element, isHeading⟩
    obtain rfl : 5 = holder := Option.some.inj parent
    obtain rfl : "small" = name := Option.some.inj element
    exact absurd isHeading (by decide)

end Templating.Markup
