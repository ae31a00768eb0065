import Templating.Proofs.Markup.Canonical
import Templating.Proofs.Markup.Pass.Marked
import Templating.Proofs.Markup.Pass.Tidied
import Templating.Proofs.Markup.Spacing

/-!
# The canonical pipeline run twice

After one run every pass finds its work done, save for one: a heading may have several class
attributes whose names differ in the case of their letters. The first run marks the one that is
written first, the order may put another one in front, and the second run marks that one.

* `HeadingMarkers.exists_arranged`: what the passes leave that add and order attributes.
* `PipelineConfig.exists_done`: what the whole pipeline leaves of a spaced tree.
* `canonical_run_eq_self_iff`: a second run changes nothing just when all classes lead.
* `canonical_run_idempotent`: the result for parsed sources.
* `canonical_run_unstable`: a heading that is not the same after a second run.
-/

namespace Templating.Markup

open Templating.Text

/-! ## What stays -/

namespace Tree

variable {before after : Tree} {nodes : NodeId → Prop} {id : NodeId} {tag name : String}

theorem Reworded.approach {keeps : String → Prop} (reworded : before.Reworded keeps after)
    (preserved : before.Preserved after) (approach : before.Approach nodes) :
    after.Approach nodes where
  root := approach.root
  closed := by
    intro id held onWay noButton shows
    rw [isElement, preserved.elementName?_eq] at noButton
    rw [Shows, Holds, reworded.isExpression_eq, reworded.walkChildren_eq] at shows
    exact approach.closed id held onWay noButton shows

theorem Sorted.complete {rank : Rank} (sorted : before.Sorted after rank id)
    (retouched : before.Retouched after) (complete : before.Complete tag name id) :
    after.Complete tag name id := by
  refine complete.of_found (retouched.elementName?_eq id) fun found => ?_
  rw [sorted.found name, isSome_front?, found]

theorem Reworded.complete {keeps : String → Prop} (reworded : before.Reworded keeps after)
    (retouched : before.Retouched after) (complete : before.Complete tag name id) :
    after.Complete tag name id := by
  refine complete.of_found (retouched.elementName?_eq id) fun found => ?_
  rw [reworded.findAttribute_eq id name, found]

end Tree

/-! ## Attributes -/

/-- What the passes make of an element that add and order attributes: its run is laid out, or has no
attribute and is as it was; it lacks no attribute; the class that came first in the order is found;
and it has its marker when the class leads. -/
structure HeadingMarkers.Arranged (markers : HeadingMarkers) (rank : Rank) (nodes : NodeId → Prop)
    (start final : Tree) (id : NodeId) : Prop where
  run : (final.sortedAttributes rank id = [] ∧
    final.attributeChildren id = start.attributeChildren id) ∨ final.LaidOut rank id
  image : final.Complete "img" "alt" id
  button : nodes id → final.Complete "button" "type" id
  front : ∀ front, start.front? rank id "class" = some front →
    final.findAttribute id "class" = some front
  borne : (∀ marker, markers.marker? start id = some marker → start.Leads rank id marker) →
    markers.Borne final id

/-- Only elements have markers. -/
theorem HeadingMarkers.exists_attributeRun? {markers : HeadingMarkers} {tree : Tree} {id : NodeId}
    {marker : String} (marked : markers.marker? tree id = some marker) :
    ∃ run, tree.attributeRun? id = some run := by
  obtain ⟨name, named, -⟩ := Option.bind_eq_some_iff.mp marked
  exact Tree.exists_attributeRun? named

/-- The passes that add and order attributes. -/
def HeadingMarkers.arranging (markers : HeadingMarkers) (rank : Rank) : Pipeline :=
  [Pass.ofEdit headingClassName markers.mark, imageAlt, buttonType, attributeSort rank]

/-- **Adding and ordering attributes** leaves every element in view arranged. -/
theorem HeadingMarkers.exists_arranged (markers : HeadingMarkers) (rank : Rank) {start : Tree}
    (wf : start.WellFormed)
    (isWord : ∀ id marker, markers.marker? start id = some marker → IsWord marker.toList) :
    ∃ final nodes, (∀ rest, Pipeline.run (markers.arranging rank ++ rest) start =
        Pipeline.run rest final) ∧
      final.WellFormed ∧ start.Preserved final ∧ final.Approach nodes ∧
      ∀ id run, final.Visible id → start.attributeRun? id = some run →
        markers.Arranged rank nodes start final id := by
  obtain ⟨marked, walkedMarked, wfMarked, toMarked, marks⟩ := markers.exists_mark rank wf isWord
  obtain ⟨imaged, walkedImaged, wfImaged, toImaged, images⟩ := exists_imageAlt wfMarked
  obtain ⟨typed, nodes, walkedTyped, wfTyped, toTyped, approach, types⟩ :=
    exists_buttonType wfImaged
  obtain ⟨final, walked, wfFinal, toFinal, sorts⟩ := exists_attributeSort rank wfTyped
  have whole := ((toMarked.trans toImaged).trans toTyped).trans toFinal
  refine ⟨final, _, fun rest => ?_, wfFinal, whole, approach.of_preserved toFinal wfTyped wfFinal,
    fun id run visible element => ?_⟩
  · exact (Pipeline.run_cons _ walkedMarked).trans ((Pipeline.run_cons _ walkedImaged).trans
      ((Pipeline.run_cons _ walkedTyped).trans (Pipeline.run_cons _ walked)))
  -- The element was there and in view all the time.
  obtain ⟨seenTyped, elementTyped⟩ :=
    toFinal.element visible ((whole.attributeRun?_eq id).trans element)
  obtain ⟨seenImaged, elementImaged⟩ := toTyped.element seenTyped elementTyped
  obtain ⟨seenMarked, elementMarked⟩ := toImaged.element seenImaged elementImaged
  obtain ⟨seen, -⟩ := toMarked.element seenMarked elementMarked
  have mark := marks id run seenMarked element
  obtain ⟨filled, complete⟩ := images id run seenImaged elementMarked
  obtain ⟨filled', complete'⟩ := types id run seenTyped elementImaged
  have sorted := sorts id run visible elementTyped
  have insideTyped := Tree.lt_size_of_attributeRun? elementTyped
  have frontImaged : imaged.front? rank id "class" = marked.front? rank id "class" :=
    filled.front?_eq toImaged.toRetouched wfMarked seenMarked.reachable (by decide)
  have frontTyped : typed.front? rank id "class" = imaged.front? rank id "class" :=
    filled'.front?_eq toTyped.toRetouched wfImaged seenImaged.reachable (by decide)
  refine ⟨?_, ?_, fun onWay => ?_, fun front isFront => ?_, fun leads => ?_⟩
  · rcases sorted.run with ⟨none, items⟩ | laid
    · -- No pass has put an attribute here, so none has touched the run.
      obtain ⟨-, noneTyped⟩ :=
        (Tree.Extended.of_items items "").items_eq toFinal.toRetouched wfTyped
          seenTyped.reachable (Tree.sortedAttributes_eq_nil_iff.mp none)
      obtain ⟨itemsTyped, noneImaged⟩ := filled'.items_eq toTyped.toRetouched wfImaged
        seenImaged.reachable noneTyped
      obtain ⟨itemsImaged, noneMarked⟩ := filled.items_eq toImaged.toRetouched wfMarked
        seenMarked.reachable noneImaged
      obtain ⟨itemsMarked, -⟩ := mark.items_eq toMarked.toRetouched wf seen.reachable noneMarked
      exact .inl ⟨none, by rw [items, itemsTyped, itemsImaged, itemsMarked]⟩
    · exact .inr laid
  · exact sorted.complete toFinal.toRetouched
      (filled'.complete toTyped.toRetouched wfImaged seenImaged.reachable complete)
  · exact sorted.complete toFinal.toRetouched
      (complete' (onWay.2.resolve_right (Nat.not_le_of_lt insideTyped)))
  · rw [sorted.found "class", frontTyped, frontImaged, mark.front front isFront]
  · have settled := markers.settled_of_filled filled (by decide) toImaged.toRetouched wfMarked
      seenMarked.reachable (Tree.lt_size_of_attributeRun? elementMarked) (mark.settled leads)
    have settled' := markers.settled_of_filled filled' (by decide) toTyped.toRetouched wfImaged
      seenImaged.reachable (Tree.lt_size_of_attributeRun? elementImaged) settled
    exact markers.borne_of_sorted sorted toFinal.toRetouched insideTyped settled'

/-! ## Whole runs -/

namespace PipelineConfig

variable (config : PipelineConfig)

/-- The canonical passes are those that arrange attributes and those that rewrite blanks. -/
theorem map_fst_passes : config.passes.map Prod.fst =
    config.markers.arranging (leadingRank defaultLeading) ++
      blankPasses config.normalizeWhitespace config.compress := by
  unfold passes blankPasses
  cases config.compress <;> rfl

/-- There is nothing left to do in the tree but to mark headings. -/
structure Done (tree : Tree) : Prop where
  images : ∀ id, tree.Visible id → tree.Complete "img" "alt" id
  buttons : ∃ nodes, tree.Approach nodes ∧ ∀ id, nodes id → tree.Complete "button" "type" id
  runs : ∀ id run, tree.Visible id → tree.attributeRun? id = some run →
    tree.sortedAttributes (leadingRank defaultLeading) id = [] ∨
      tree.LaidOut (leadingRank defaultLeading) id
  blanks : Pipeline.run (blankPasses config.normalizeWhitespace config.compress) tree = .ok () tree

variable {config} {tree : Tree}

/-- When all is done and every class has its marker, nothing changes. -/
theorem Done.run_eq_self (done : config.Done tree) (wf : tree.WellFormed)
    (borne : ∀ id, tree.Visible id → config.markers.Borne tree id) :
    Pipeline.run (config.passes.map Prod.fst) tree = .ok () tree := by
  obtain ⟨nodes, approach, complete⟩ := done.buttons
  have marked : (Pass.ofEdit headingClassName config.markers.mark).walk tree = .ok () tree :=
    Pass.Local.walk_eq_self_of_visible config.markers.mark_local wf fun id visible =>
      config.markers.mark_eq_self (borne id visible)
  rw [map_fst_passes]
  have imaged := imageAlt_eq_self wf done.images
  have typed := buttonType_eq_self wf approach complete
  have sorted := attributeSort_eq_self wf done.runs
  exact (Pipeline.run_cons _ marked).trans ((Pipeline.run_cons _ imaged).trans
    ((Pipeline.run_cons _ typed).trans ((Pipeline.run_cons _ sorted).trans done.blanks)))

/-- In what is done the class in front is the one that is found. -/
theorem Done.leads (done : config.Done tree) {id : NodeId} (visible : tree.Visible id)
    (marker : String) : tree.Leads (leadingRank defaultLeading) id marker := by
  have found : tree.findAttribute id "class" =
      tree.front? (leadingRank defaultLeading) id "class" := by
    cases element : tree.attributeRun? id with
    | none =>
      exact Tree.findAttribute_of_sortedAttributes_eq_nil (Tree.sortedAttributes_eq_nil element _) _
    | some run =>
      rcases done.runs id run visible element with none | laid
      · exact Tree.findAttribute_of_sortedAttributes_eq_nil none _
      · exact Tree.findAttribute_of_laidOut laid _
  intro front isFront
  exact .inl (found.trans isFront)

/-- Arranged runs are spaced when those that there were are. -/
theorem spaced_of_arranged {markers : HeadingMarkers} {rank : Rank} {nodes : NodeId → Prop}
    {start final : Tree} (preserved : start.Preserved final) (wf : start.WellFormed)
    (spaced : start.Spaced)
    (arranged : ∀ id run, final.Visible id → start.attributeRun? id = some run →
      markers.Arranged rank nodes start final id) : final.Spaced := by
  intro id visible
  cases element : start.attributeRun? id with
  | none =>
    rw [Tree.attributeChildren, preserved.attributeRun?_eq, element]
    exact List.isChain_nil
  | some run =>
    have seen := preserved.visible_of_lt id visible (Tree.lt_size_of_attributeRun? element)
    rcases (arranged id run visible element).run with ⟨-, items⟩ | laid
    · rw [items]
      exact preserved.spacedItems (fun item member =>
        wf.lt_size_of_mem_attributeChildren seen.reachable member) (spaced id seen)
    · exact laid.spacedItems

/-- **A run of the canonical pipeline** over a spaced tree leaves all done. The class that comes
first in the order is the one that is found in the end, and it has its marker when it leads. -/
theorem exists_done (valid : config.markers.fault? = none) {start : Tree} (wf : start.WellFormed)
    (spaced : start.Spaced) :
    ∃ final, Pipeline.run (config.passes.map Prod.fst) start = .ok () final ∧ final.WellFormed ∧
      start.Preserved final ∧ final.Spaced ∧ config.Done final ∧
      ∀ id, final.Visible id →
        (∀ front, start.front? (leadingRank defaultLeading) id "class" = some front →
          final.findAttribute id "class" = some front) ∧
        ((∀ marker, config.markers.marker? start id = some marker →
          start.Leads (leadingRank defaultLeading) id marker) → config.markers.Borne final id) := by
  obtain ⟨middle, nodes, ran, wfMiddle, toMiddle, approach, arranged⟩ :=
    config.markers.exists_arranged (leadingRank defaultLeading) wf fun id marker =>
      HeadingMarkers.isWord_of_marker? valid
  have spacedMiddle := spaced_of_arranged toMiddle wf spaced arranged
  obtain ⟨final, ranBlanks, wfFinal, toFinal, reworded, again⟩ :=
    exists_blankPasses config.normalizeWhitespace config.compress wfMiddle spacedMiddle
  have reworded := reworded _ calm_separator
  have whole := toMiddle.trans toFinal
  have seen {id : NodeId} (visible : final.Visible id) : middle.Visible id :=
    reworded.visible_iff.mp visible
  have element {id run : NodeId} (known : final.attributeRun? id = some run) :
      start.attributeRun? id = some run := (whole.attributeRun?_eq id).symm.trans known
  refine ⟨final, ?_, wfFinal, whole, reworded.spaced spacedMiddle, ⟨?_, ?_, ?_, again⟩, ?_⟩
  · rw [map_fst_passes, ran, ranBlanks]
  · intro id visible
    cases known : final.attributeRun? id with
    | none => exact Tree.complete_of_no_element known _ _
    | some run =>
      exact reworded.complete toFinal.toRetouched
        (arranged id run (seen visible) (element known)).image
  · refine ⟨_, (reworded.approach toFinal approach).visible, fun id ⟨onWay, visible⟩ => ?_⟩
    cases known : final.attributeRun? id with
    | none => exact Tree.complete_of_no_element known _ _
    | some run =>
      exact reworded.complete toFinal.toRetouched
        ((arranged id run (seen visible) (element known)).button onWay)
  · intro id run visible known
    rw [reworded.sortedAttributes_eq]
    exact (arranged id run (seen visible) (element known)).run.imp And.left reworded.laidOut
  · intro id visible
    cases known : final.attributeRun? id with
    | none =>
      have noElement := (whole.attributeRun?_eq id).symm.trans known
      refine ⟨fun front isFront => ?_, fun _ marker marked => ?_⟩
      · rw [Tree.front?, Tree.sortedAttributes_eq_nil noElement] at isFront
        cases isFront
      · obtain ⟨run, element⟩ := HeadingMarkers.exists_attributeRun? marked
        rw [known] at element
        cases element
    | some run =>
      have arranged := arranged id run (seen visible) (element known)
      refine ⟨fun front isFront => ?_, fun leads => ?_⟩
      · rw [reworded.findAttribute_eq]
        exact arranged.front front isFront
      · exact config.markers.borne_of_reworded reworded toFinal.toRetouched
          (Nat.lt_of_lt_of_le (Tree.lt_size_of_attributeRun? (element known)) toMiddle.size_le)
          (arranged.borne leads)

end PipelineConfig

/-! ## A second run -/

/-- In every marked element in view the class that comes first in the canonical order is the one
that is written first, or has the marker already. -/
def PipelineConfig.Led (config : PipelineConfig) (tree : Tree) : Prop :=
  ∀ id, tree.Visible id → ∀ marker, config.markers.marker? tree id = some marker →
    tree.Leads (leadingRank defaultLeading) id marker

/-- **A second run changes nothing** just when all classes lead. -/
theorem canonical_run_eq_self_iff {config : PipelineConfig} {pipeline : Pipeline} {tree : Tree}
    (built : canonical config = .ok pipeline) (wf : tree.WellFormed) (spaced : tree.Spaced) :
    ∃ once, Pipeline.run pipeline tree = .ok () once ∧ once.WellFormed ∧
      (Pipeline.run pipeline once = .ok () once ↔ config.Led tree) := by
  have valid : config.markers.fault? = none := by
    rw [PipelineConfig.canonical_eq] at built
    split at built
    · cases built
    · assumption
  obtain ⟨once, ran, outcome⟩ := exists_canonical_outcome built wf
  obtain rfl := PipelineConfig.eq_passes_of_canonical built
  obtain ⟨final, ran', wfOnce, preserved, spacedOnce, done, each⟩ :=
    PipelineConfig.exists_done valid wf spaced
  cases ran.symm.trans ran'
  refine ⟨once, ran, wfOnce, fun again id visible marker marked front isFront => ?_, fun led => ?_⟩
  · by_cases first : tree.findAttribute id "class" = some front
    · exact .inl first
    -- All classes lead in what is done, so a run over it leaves each of them with its marker.
    obtain ⟨twice, ran'', -, -, -, -, each'⟩ := PipelineConfig.exists_done valid wfOnce spacedOnce
    cases again.symm.trans ran''
    obtain ⟨run, element⟩ := HeadingMarkers.exists_attributeRun? marked
    have inside := Tree.lt_size_of_attributeRun? element
    have noText := Tree.isBlankText_eq_false (Tree.holds_attributeRun? element).2
    have seen := preserved.visible id inside visible noText
    have marked' := (config.markers.marker?_eq preserved.toRetouched inside).trans marked
    obtain ⟨item, found, absorbs⟩ := (each' id seen).2 (fun _ _ => done.leads seen _) marker marked'
    obtain rfl := Option.some.inj (((each id seen).1 front isFront).symm.trans found)
    have notRewritten : front ∉ config.markers.rewritten tree id := by
      rw [HeadingMarkers.rewritten, marked]
      exact first
    have same := (outcome.runKept id run visible element).kind?_eq front
      (Tree.mem_of_front? isFront).1 notRewritten
    exact .inr (absorbs.congr same.symm)
  · refine done.run_eq_self wfOnce fun id visible => (each id visible).2 fun marker marked => ?_
    obtain ⟨run, element⟩ := HeadingMarkers.exists_attributeRun? marked
    have seen := preserved.visible_of_lt id visible (Tree.lt_size_of_attributeRun? element)
    exact led id seen marker marked

/-- **The canonical pipeline is idempotent** on every source whose marked elements have their class
in front: run once more over what it leaves, with the same settings, it gives the same markup. It
gives the same tree on no other source. -/
theorem canonical_run_idempotent (config : PipelineConfig) (pipeline : Pipeline)
    (built : canonical config = .ok pipeline) (source : String) (tree : Tree)
    (parsed : parseMarkup source = .ok tree) :
    ∃ once twice, Pipeline.run pipeline tree = .ok () once ∧
      Pipeline.run pipeline once = .ok () twice ∧
      (config.Led tree → twice.markup = once.markup) ∧ (twice = once ↔ config.Led tree) := by
  obtain ⟨wf, spaced⟩ := parseMarkup_spaced parsed
  obtain ⟨once, ran, wfOnce, iff⟩ := canonical_run_eq_self_iff built wf spaced
  obtain ⟨twice, ran', -⟩ := exists_canonical_outcome built wfOnce
  have same : twice = once ↔ config.Led tree := by
    rw [← iff, ran']
    exact ⟨fun same => same ▸ rfl, fun same => (EStateM.Result.ok.inj same).2⟩
  exact ⟨once, twice, ran, ran', fun led => congrArg Tree.markup (same.mpr led), same⟩

/-- A heading with two classes, of which the second comes first in the order and has its
marker; in it a secondary heading without a class, and behind it an image and a button that
lack an attribute. -/
def sampleHeading : String :=
  "<h1 class='a'  CLASS=\"b heading\"><small>\n\nc</small></h1><img><button \x7bd\x7d></button>"

/-- The tree of the sample. -/
def sampleHeadingTree : Tree :=
  match parseMarkup sampleHeading with
  | .ok tree => tree
  | .error _ => .empty

theorem canonical_run_idempotent_sample : ∃ pipeline, canonical {} = .ok pipeline ∧
    parseMarkup sampleHeading = .ok sampleHeadingTree ∧
    ({} : PipelineConfig).Led sampleHeadingTree ∧
    ∃ once twice, Pipeline.run pipeline sampleHeadingTree = .ok () once ∧
      Pipeline.run pipeline once = .ok () twice ∧ twice.markup = once.markup := by
  have parsed : parseMarkup sampleHeading = .ok sampleHeadingTree := by decide +kernel
  have led : ({} : PipelineConfig).Led sampleHeadingTree := by
    intro id visible
    have inside : id ∈ List.range sampleHeadingTree.size :=
      visible.reachable.mem_of_closed _ (by decide +kernel) (by decide +kernel)
    have all : ∀ id ∈ List.range sampleHeadingTree.size,
        ∀ marker ∈ ({} : PipelineConfig).markers.marker? sampleHeadingTree id,
          sampleHeadingTree.Leads (leadingRank defaultLeading) id marker := by
      unfold Tree.Leads Tree.front?
      rw [Tree.sortedAttributes_eq_foldr]
      decide +kernel
    exact all id inside
  obtain ⟨once, twice, ran, ran', same, -⟩ := canonical_run_idempotent {} _ rfl _ _ parsed
  exact ⟨_, rfl, parsed, led, once, twice, ran, ran', same led⟩

/-- The tree that a run leaves. -/
def Pipeline.result (pipeline : Pipeline) (tree : Tree) : Tree :=
  match Pipeline.run pipeline tree with
  | .ok _ after => after
  | .error _ after => after

/-- The tree of a heading with two classes, of which the second comes first in the order. -/
def doubleClassTree : Tree :=
  match parseMarkup "<h1 class=\"a\" CLASS=\"b\"></h1>" with
  | .ok tree => tree
  | .error _ => .empty

/-- The first run marks the class that is written first, and the second run marks the other one. -/
theorem canonical_run_unstable : ∃ pipeline once twice, canonical {} = .ok pipeline ∧
    parseMarkup "<h1 class=\"a\" CLASS=\"b\"></h1>" = .ok doubleClassTree ∧
    Pipeline.run pipeline doubleClassTree = .ok () once ∧
    Pipeline.run pipeline once = .ok () twice ∧
    once.markup = "<h1 CLASS=\"b\" class=\"a heading\"></h1>" ∧
    twice.markup = "<h1 CLASS=\"b heading\" class=\"a heading\"></h1>" := by
  have parsed : parseMarkup "<h1 class=\"a\" CLASS=\"b\"></h1>" = .ok doubleClassTree := by
    decide +kernel
  have built : canonical {} = .ok (({} : PipelineConfig).passes.map Prod.fst) := rfl
  obtain ⟨once, ran, outcome⟩ := exists_canonical_outcome built (parseMarkup_spaced parsed).1
  obtain ⟨twice, ran', -⟩ := exists_canonical_outcome built outcome.wellFormed
  have isOnce :
      Pipeline.result (({} : PipelineConfig).passes.map Prod.fst) doubleClassTree = once := by
    rw [Pipeline.result, ran]
  have isTwice : Pipeline.result (({} : PipelineConfig).passes.map Prod.fst) once = twice := by
    rw [Pipeline.result, ran']
  refine ⟨_, once, twice, built, parsed, ran, ran', ?_, ?_⟩
  · rw [← isOnce]
    unfold PipelineConfig.passes attributeSort sortRun
    rw [Tree.sortedAttributes_eq_foldr]
    decide +kernel
  · rw [← isTwice, ← isOnce]
    unfold PipelineConfig.passes attributeSort sortRun
    rw [Tree.sortedAttributes_eq_foldr]
    decide +kernel

end Templating.Markup
