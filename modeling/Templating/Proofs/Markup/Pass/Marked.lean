import Templating.Proofs.Markup.Pass.Filled
import Templating.Proofs.Markup.Pass.LaidOut
import Templating.Proofs.Text.Words

/-!
# Markers that are there

Adding a marker to a class that has it already changes nothing. The pass marks the class that is
written first, and looks at the one in front once the attributes have been ordered. These are the
same attribute, or else the one in front needs to have the marker by itself (`Tree.Leads`).

* `mergeClasses_mergeClasses`: adding a marker a second time.
* `HeadingMarkers.exists_mark`: the class in front when the pass is done.
* `HeadingMarkers.borne_of_sorted`: it is the class that is found when the attributes are in order.
* `HeadingMarkers.mark_eq_self`: marked elements are left alone.
-/

namespace Templating.Markup

open Templating.Text

/-! ## Classes -/

/-- Classes that are words are read back. -/
theorem words_intercalate_classes {classes : List String}
    (allWords : ∀ name ∈ classes, IsWord name.toList) :
    (words (" ".intercalate classes).toList).map String.ofList = classes := by
  have allWords' : ∀ part ∈ classes.map String.toList, IsWord part := by
    intro part member
    obtain ⟨name, listed, rfl⟩ := List.mem_map.mp member
    exact allWords name listed
  have read := words_intercalate allWords'
  rw [String.toList_intercalate]
  refine (congrArg (List.map String.ofList) read).trans ?_
  rw [List.map_map]
  exact (List.map_congr_left fun name _ => String.ofList_toList).trans (List.map_id' _)

/-- Classes that were read are words, and so is a marker behind them. -/
theorem isWord_of_mem_classes {existing marker name : String} (isWord : IsWord marker.toList)
    (member : name ∈ (words existing.toList).map String.ofList ++ [marker]) :
    IsWord name.toList := by
  rcases List.mem_append.mp member with old | last
  · obtain ⟨word, read, rfl⟩ := List.mem_map.mp old
    rw [String.toList_ofList]
    exact isWord_of_mem_words read
  · rwa [List.mem_singleton.mp last]

/-- The words of merged classes are the classes. -/
theorem words_mergeClasses {marker : String} (isWord : IsWord marker.toList) (existing : String) :
    (words (mergeClasses existing marker).toList).map String.ofList =
      ((words existing.toList).map String.ofList ++ [marker]).eraseDups :=
  words_intercalate_classes fun _ member =>
    isWord_of_mem_classes isWord (List.mem_eraseDups.mp member)

/-- **Adding a marker a second time** changes nothing. -/
theorem mergeClasses_mergeClasses {marker : String} (isWord : IsWord marker.toList)
    (existing : String) :
    mergeClasses (mergeClasses existing marker) marker = mergeClasses existing marker := by
  have here : marker ∈ ((words existing.toList).map String.ofList ++ [marker]).eraseDups :=
    List.mem_eraseDups.mpr (List.mem_append_right _ List.mem_cons_self)
  conv_lhs => rw [mergeClasses]
  rw [words_mergeClasses isWord, eraseDups_concat_of_mem (nodup_eraseDups _) here]
  rfl

theorem mergeClasses_self {marker : String} (isWord : IsWord marker.toList) :
    mergeClasses marker marker = marker := by
  have single : ([marker] ++ [marker]).eraseDups = [marker] :=
    eraseDups_concat_of_mem (List.nodup_singleton marker) List.mem_cons_self
  rw [mergeClasses, words_word isWord, List.map_singleton, String.ofList_toList, single]
  rfl

/-! ## What a class has -/

namespace Tree

/-- Adding the marker to the value of the attribute leaves it as it is. -/
def Absorbs (tree : Tree) (item : NodeId) (marker : String) : Prop :=
  ∀ existing, classText? (tree.attributeValue? item) = some existing →
    mergeClasses existing marker = existing

/-- There is an attribute, and it has the marker. -/
def Bears (tree : Tree) (item? : Option NodeId) (marker : String) : Prop :=
  ∃ item, item? = some item ∧ tree.Absorbs item marker

/-- The class that comes first in the order is the one that is written first, or has the marker. -/
def Leads (tree : Tree) (rank : Rank) (id : NodeId) (marker : String) : Prop :=
  ∀ front, tree.front? rank id "class" = some front →
    tree.findAttribute id "class" = some front ∨ tree.Absorbs front marker

instance (tree : Tree) (item : NodeId) (marker : String) : Decidable (tree.Absorbs item marker) :=
  inferInstanceAs (Decidable (∀ existing ∈ classText? (tree.attributeValue? item),
    mergeClasses existing marker = existing))

instance (tree : Tree) (rank : Rank) (id : NodeId) (marker : String) :
    Decidable (tree.Leads rank id marker) :=
  inferInstanceAs (Decidable (∀ front ∈ tree.front? rank id "class",
    tree.findAttribute id "class" = some front ∨ tree.Absorbs front marker))

variable {before after : Tree} {id item : NodeId} {marker name : String} {rank : Rank}

theorem Absorbs.congr (absorbs : before.Absorbs item marker)
    (same : after.kind? item = before.kind? item) : after.Absorbs item marker := by
  intro existing text
  rw [attributeValue?, same] at text
  exact absorbs existing text

theorem Bears.congr {item? : Option NodeId} (bears : before.Bears item? marker)
    (same : ∀ item, item? = some item → after.kind? item = before.kind? item) :
    after.Bears item? marker := by
  obtain ⟨item, found, absorbs⟩ := bears
  exact ⟨item, found, absorbs.congr (same item found)⟩

/-- Attributes of another name at the end of the run leave the one in front where it is. -/
theorem Extended.front?_eq (extended : before.Extended after id name)
    (retouched : before.Retouched after) (wf : before.WellFormed) (reach : before.Reachable id)
    {other : String} (different : sameName name other = false) :
    after.front? rank id other = before.front? rank id other := by
  obtain ⟨new, items, -, names⟩ := extended.items
  have inside {item : NodeId} (member : item ∈ before.attributeChildren id) : item < before.size :=
    wf.lt_size_of_mem_attributeChildren reach member
  refine front?_congr ?_ fun item member _ => retouched.rankedAttribute?_eq (inside member)
  have none : new.filter (after.hasLiteralName other) = [] := by
    refine List.filter_eq_nil_iff.mpr fun item member named => ?_
    rw [names item member other named] at different
    cases different
  rw [items, List.filter_append, none, List.append_nil]
  exact List.filter_congr fun item member => retouched.hasLiteralName_eq (inside member) other

namespace SameRun

variable (same : before.SameRun after id) (retouched : before.Retouched after)
  (wf : before.WellFormed) (reach : before.Reachable id)

include same retouched wf reach

theorem front?_eq : after.front? rank id name = before.front? rank id name :=
  retouched.front?_eq wf reach (retouched.sortedAttributes_eq wf reach same.items) name

/-- The class in front of a run that stays has what it had. -/
theorem bears_front? (bears : before.Bears (before.front? rank id name) marker) :
    after.Bears (after.front? rank id name) marker := by
  rw [same.front?_eq retouched wf reach]
  exact bears.congr fun item isFront => same.kinds item (mem_of_front? isFront).1

/-- A class leads in a run that stays if it did. -/
theorem leads (leads : before.Leads rank id marker) : after.Leads rank id marker := by
  intro front isFront
  rw [same.front?_eq retouched wf reach] at isFront
  rw [retouched.findAttribute_eq wf reach same.items]
  exact (leads front isFront).imp_right fun absorbs =>
    absorbs.congr (same.kinds front (mem_of_front? isFront).1)

end SameRun

/-- What a visit leaves that adds a marker. -/
inductive MarkedIn (tree : Tree) (id : NodeId) (marker : String) : Tree → Prop
  | kept {item : NodeId} (found : tree.findAttribute id "class" = some item)
      (absorbs : tree.Absorbs item marker) : MarkedIn tree id marker tree
  | rewritten {item : NodeId} {name : AttrPart} {value : Option AttrPart} {quote : Option Char}
      {existing : String} (found : tree.findAttribute id "class" = some item)
      (known : tree.kind? item = some (.attr name value quote))
      (text : classText? value = some existing) :
    MarkedIn tree id marker (tree.setKind item
      (.attr name (some (.text (mergeClasses existing marker))) (some (quote.getD '"'))))
  | added {run : NodeId} (element : tree.attributeRun? id = some run)
      (missing : tree.findAttribute id "class" = none) :
    MarkedIn tree id marker (tree.withAttribute id run "class" marker)

end Tree

theorem addMarker_markedIn {tree after : Tree} {id run : NodeId} {marker : String}
    (wf : tree.WellFormed) (reach : tree.Reachable id)
    (element : tree.attributeRun? id = some run)
    (outcome : addMarker id marker tree = .ok () after) : tree.MarkedIn id marker after := by
  rw [addMarker, Edit.get_bind] at outcome
  cases found : tree.findAttribute id "class" with
  | none =>
    simp only [found] at outcome
    cases outcome.symm.trans (Edit.bind_of_ok
      (Edit.setAttribute_of_missing element (wf.kind?_attributeRun reach element) found))
    exact .added element found
  | some item =>
    simp only [found] at outcome
    obtain ⟨part, value, quote, known⟩ := Tree.kind?_of_hasLiteralName (List.find?_some found)
    have isValue : tree.attributeValue? item = value := by rw [Tree.attributeValue?, known]
    cases text : classText? (tree.attributeValue? item) with
    | none =>
      simp only [text] at outcome
      cases outcome
      refine .kept found fun existing text' => ?_
      rw [text] at text'
      cases text'
    | some existing =>
      simp only [text] at outcome
      split at outcome
      · rename_i same
        cases outcome
        refine .kept found fun existing' text' => ?_
        cases text.symm.trans text'
        exact same
      · cases outcome.symm.trans (Edit.bind_of_ok
          (Edit.setAttribute_of_found element found known))
        exact .rewritten found known (isValue ▸ text)

/-- A class that has its marker is left alone. -/
theorem addMarker_eq_self {tree : Tree} {id item : NodeId} {marker : String}
    (found : tree.findAttribute id "class" = some item) (absorbs : tree.Absorbs item marker) :
    addMarker id marker tree = .ok () tree := by
  rw [addMarker, Edit.get_bind]
  simp only [found]
  cases text : classText? (tree.attributeValue? item) with
  | none => rfl
  | some existing =>
    simp only [absorbs existing text, if_true]
    rfl

namespace Tree

variable {tree after : Tree} {id run : NodeId} {marker : String} {rank : Rank}

/-- Rewriting an attribute of the run keeps the items of the run. -/
theorem attributeChildren_setKind {item : NodeId} {kind : NodeKind} (wf : tree.WellFormed)
    (reach : tree.Reachable id) (element : tree.attributeRun? id = some run)
    (member : item ∈ tree.attributeChildren id)
    (retouched : tree.Retouched (tree.setKind item kind)) :
    (tree.setKind item kind).attributeChildren id = tree.attributeChildren id := by
  have notRun := ne_of_mem_attributeChildren wf reach element member
  refine retouched.attributeChildren_eq wf reach element ?_
  rw [walkChildren, kind?_setKind_of_ne notRun]
  rfl

namespace MarkedIn

variable (marked : tree.MarkedIn id marker after) (wf : tree.WellFormed)
  (reach : tree.Reachable id) (element : tree.attributeRun? id = some run)
  (touched : tree.Touched id after)

include marked wf reach element touched

theorem extended : tree.Extended after id "class" := by
  cases marked with
  | kept => exact .of_items rfl _
  | rewritten found =>
    exact .of_items (attributeChildren_setKind wf reach element
      (List.mem_of_find?_eq_some found) touched.toRetouched) _
  | added element => exact extended_withAttribute wf reach element _ _

/-- The class in front stays there. -/
theorem front?_eq {front : NodeId} (isFront : tree.front? rank id "class" = some front) :
    after.front? rank id "class" = some front := by
  cases marked with
  | kept => exact isFront
  | rewritten found =>
    have items := attributeChildren_setKind wf reach element
      (List.mem_of_find?_eq_some found) touched.toRetouched
    exact (touched.front?_eq wf reach (touched.sortedAttributes_eq wf reach items) _).trans isFront
  | added _ missing =>
    have some := isSome_front? tree rank id "class"
    rw [isFront, missing] at some
    cases some

/-- The class in front has its marker when it has been added. -/
theorem bears (isWord : IsWord marker.toList) (leads : tree.Leads rank id marker) :
    after.Bears (after.front? rank id "class") marker := by
  have isSome {first : NodeId} (found : tree.findAttribute id "class" = some first) :
      ∃ front, tree.front? rank id "class" = some front := by
    rw [← Option.isSome_iff_exists, isSome_front?, found]
    rfl
  have stays {front : NodeId} (isFront : tree.front? rank id "class" = some front) :
      after.front? rank id "class" = some front := front?_eq marked wf reach element touched isFront
  cases marked with
  | kept found absorbs =>
    obtain ⟨front, isFront⟩ := isSome found
    refine ⟨front, isFront, ?_⟩
    rcases leads front isFront with first | absorbs'
    · obtain rfl := Option.some.inj (found.symm.trans first)
      exact absorbs
    · exact absorbs'
  | @rewritten item name value quote existing found known text =>
    obtain ⟨front, isFront⟩ := isSome found
    refine ⟨front, stays isFront, ?_⟩
    by_cases first : item = front
    · subst first
      intro merged isMerged
      rw [attributeValue?, kind?_setKind_of_kind? known] at isMerged
      cases isMerged
      exact mergeClasses_mergeClasses isWord existing
    · have absorbs := (leads front isFront).resolve_left fun found' =>
        first (Option.some.inj (found.symm.trans found'))
      exact absorbs.congr (kind?_setKind_of_ne first)
  | @added run element missing =>
    obtain ⟨-, last⟩ := kind?_withAttribute wf reach element "class" marker
    have found := findAttribute_withAttribute wf reach element "class" marker missing
    have some := isSome_front? (tree.withAttribute id run "class" marker) rank id "class"
    rw [found] at some
    obtain ⟨front, isFront⟩ := Option.isSome_iff_exists.mp some
    refine ⟨front, isFront, ?_⟩
    obtain ⟨listed, named⟩ := mem_of_front? isFront
    have member := (List.mem_filter.mp listed).1
    rw [attributeChildren_withAttribute wf reach element] at member
    rcases List.mem_append.mp member with old | new
    · rw [touched.hasLiteralName_eq (wf.lt_size_of_mem_attributeChildren reach old)] at named
      exact absurd named (List.find?_eq_none.mp missing front old)
    · obtain ⟨rfl, -⟩ := eq_last_of_hasLiteralName wf reach element "class" marker new named
      intro existing text
      rw [attributeValue?, last] at text
      cases text
      exact mergeClasses_self isWord

end MarkedIn

end Tree

/-! ## Walks -/

namespace HeadingMarkers

variable (markers : HeadingMarkers)

/-- The class of a marked element that comes first in the order has its marker. -/
def Settled (tree : Tree) (rank : Rank) (id : NodeId) : Prop :=
  ∀ marker, markers.marker? tree id = some marker →
    tree.Bears (tree.front? rank id "class") marker

/-- The class of a marked element that is found has its marker. -/
def Borne (tree : Tree) (id : NodeId) : Prop :=
  ∀ marker, markers.marker? tree id = some marker →
    tree.Bears (tree.findAttribute id "class") marker

/-- An element that is marked, or has no marker, is left alone. -/
theorem mark_eq_self {tree : Tree} {id : NodeId} (borne : markers.Borne tree id) :
    markers.mark id tree = .ok () tree := by
  rw [mark, Edit.get_bind]
  cases marked : markers.marker? tree id with
  | none =>
    rw [marker?] at marked
    simp only [marked]
    rfl
  | some marker =>
    obtain ⟨first, found, absorbs⟩ := borne marker marked
    rw [marker?] at marked
    simp only [marked]
    exact addMarker_eq_self found absorbs

theorem mark_cases {tree after : Tree} {id run : NodeId} (wf : tree.WellFormed)
    (reach : tree.Reachable id) (element : tree.attributeRun? id = some run)
    (outcome : markers.mark id tree = .ok () after) :
    (markers.marker? tree id = none ∧ after = tree) ∨
      ∃ marker, markers.marker? tree id = some marker ∧ tree.MarkedIn id marker after := by
  rw [mark, Edit.get_bind] at outcome
  cases marked : markers.marker? tree id with
  | none =>
    rw [marker?] at marked
    simp only [marked] at outcome
    cases outcome
    exact .inl ⟨rfl, rfl⟩
  | some marker =>
    rw [marker?] at marked
    simp only [marked] at outcome
    exact .inr ⟨marker, rfl, addMarker_markedIn wf reach element outcome⟩

/-- What marking makes of an element in view: its run gets a class at most, the class in front stays
there, and has its marker in the end when it leads. -/
structure MarksLeft (start final : Tree) (rank : Rank) (id : NodeId) : Prop
    extends start.Extended final id "class" where
  front : ∀ front, start.front? rank id "class" = some front →
    final.front? rank id "class" = some front
  settled : (∀ marker, markers.marker? start id = some marker → start.Leads rank id marker) →
    markers.Settled final rank id

/-- **Marking** leaves every marked element in view whose class leads with its marker in the class
that comes first in the order. -/
theorem exists_mark (rank : Rank) {start : Tree} (wf : start.WellFormed)
    (isWord : ∀ id marker, markers.marker? start id = some marker → IsWord marker.toList) :
    ∃ final, (Pass.ofEdit headingClassName markers.mark).walk start = .ok () final ∧
      final.WellFormed ∧ start.Preserved final ∧
      ∀ id run, final.Visible id → start.attributeRun? id = some run →
        markers.MarksLeft start final rank id := by
  obtain ⟨log, final, walked, visits, wf', visited⟩ := markers.mark_local.exists_finished wf
  refine ⟨final, walked, wf', visits.preserved, fun id run visible element => ?_⟩
  have inside := Tree.lt_size_of_attributeRun? element
  have reach := (visits.preserved.visible_of_lt id visible inside).reachable
  obtain ⟨before, after, later, moment⟩ := visits.exists_moment wf (visited id visible) element
  have reach' := moment.visible.reachable
  have element' := (moment.preserved.attributeRun?_eq id).trans element
  have frontBefore : before.front? rank id "class" = start.front? rank id "class" :=
    moment.sameRun.front?_eq moment.preserved.toRetouched wf reach
  have frontFinal : final.front? rank id "class" = after.front? rank id "class" :=
    moment.sameRun'.front?_eq moment.rest.preserved.toRetouched moment.wellFormed'
      moment.visible'.reachable
  have marker_eq := markers.marker?_eq visits.preserved.toRetouched inside
  rcases markers.mark_cases moment.wellFormed reach' element'
    (Pass.visit_ofEdit.mp moment.visit).2 with ⟨unmarked, rfl⟩ | ⟨marker, marked, markedIn⟩
  · refine ⟨moment.extended (.of_items rfl _), fun front isFront => ?_, fun _ marker marked => ?_⟩
    · rw [frontFinal, frontBefore, isFront]
    · rw [markers.marker?_eq moment.preserved.toRetouched inside] at unmarked
      rw [marker_eq, unmarked] at marked
      cases marked
  · rw [markers.marker?_eq moment.preserved.toRetouched inside] at marked
    refine ⟨moment.extended (markedIn.extended moment.wellFormed reach' element' moment.touched),
      fun front isFront => ?_, fun leads marker' marked' => ?_⟩
    · rw [frontFinal]
      exact markedIn.front?_eq moment.wellFormed reach' element' moment.touched
        (frontBefore.trans isFront)
    · rw [marker_eq, marked] at marked'
      cases marked'
      have leads' := moment.sameRun.leads moment.preserved.toRetouched wf reach
        (leads marker marked)
      exact moment.sameRun'.bears_front? moment.rest.preserved.toRetouched moment.wellFormed'
        moment.visible'.reachable (markedIn.bears moment.wellFormed reach' element' moment.touched
          (isWord id marker marked) leads')

variable {before after : Tree} {id : NodeId} {rank : Rank}

/-- Attributes of other names at the end of the run change nothing about its classes. -/
theorem settled_of_filled {name : String} (filled : before.Filled after name id)
    (different : sameName name "class" = false) (retouched : before.Retouched after)
    (wf : before.WellFormed) (reach : before.Reachable id) (inside : id < before.size)
    (settled : markers.Settled before rank id) : markers.Settled after rank id := by
  intro marker marked
  rw [markers.marker?_eq retouched inside] at marked
  rw [filled.front?_eq retouched wf reach different]
  exact (settled marker marked).congr fun item isFront =>
    filled.kinds item (Tree.mem_of_front? isFront).1

/-- **The class in front** is found when the attributes have been ordered. -/
theorem borne_of_sorted (sorted : before.Sorted after rank id) (retouched : before.Retouched after)
    (inside : id < before.size) (settled : markers.Settled before rank id) :
    markers.Borne after id := by
  intro marker marked
  rw [markers.marker?_eq retouched inside] at marked
  rw [sorted.found "class"]
  exact (settled marker marked).congr fun item isFront =>
    sorted.kinds item (Tree.mem_of_front? isFront).1

/-- Rewriting texts changes nothing about classes. -/
theorem borne_of_reworded {keeps : String → Prop} (reworded : before.Reworded keeps after)
    (retouched : before.Retouched after) (inside : id < before.size)
    (borne : markers.Borne before id) : markers.Borne after id := by
  intro marker marked
  rw [markers.marker?_eq retouched inside] at marked
  rw [reworded.findAttribute_eq id "class"]
  exact (borne marker marked).congr fun item found => reworded.kind?_eq_of_isAttribute
    (Tree.isAttribute_of_hasLiteralName (List.find?_some found))

end HeadingMarkers

end Templating.Markup
