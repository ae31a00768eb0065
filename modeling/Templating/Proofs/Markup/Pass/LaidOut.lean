import Templating.Proofs.Markup.Moment
import Templating.Proofs.Markup.Pass.Ranking
import Templating.Proofs.Markup.Pass.Rewording

/-!
# Runs in canonical order

A run is laid out when each attribute stands in its order behind a single space and what is left
follows. The pass that orders attributes leaves every run laid out, or one without attributes as it
was, and does not touch a run that is laid out.

* `Tree.findAttribute_of_laidOut`: in a laid out run the attribute in front is found.
* `Tree.laidOut_ordered`: what is brought in order is laid out, with the same order.
* `exists_attributeSort`, `attributeSort_eq_self`: what the pass leaves, and what it leaves alone.
-/

namespace Templating.Markup

open Templating.Text

/-! ## Laid out runs -/

namespace Tree

variable {tree : Tree} {rank : Rank} {id : NodeId}

/-- The run of the element is laid out. -/
def LaidOut (tree : Tree) (rank : Rank) (id : NodeId) : Prop :=
  tree.isLaidOut (tree.sortedAttributes rank id) (tree.otherRunChildren id)
    (tree.attributeChildren id) = true

section

variable {sorted others run : List NodeId}

/-- A laid out run with an attribute begins with a separator and the attribute. -/
theorem exists_of_isLaidOut {first : NodeId}
    (laid : tree.isLaidOut (first :: sorted) others run = true) :
    ∃ gap rest, run = gap :: first :: rest ∧ tree.kind? gap = some (.text separator) ∧
      tree.isLaidOut sorted others rest = true := by
  unfold isLaidOut at laid
  split at laid
  · cases ‹_ :: _ = []›
  · rename_i same
    cases same
    simp only [Bool.and_eq_true, beq_iff_eq] at laid
    obtain ⟨⟨isGap, rfl⟩, rest⟩ := laid
    exact ⟨_, _, rfl, kind?_of_textContent? isGap, rest⟩
  · cases laid

theorem isLaidOut_cons {gap first : NodeId} (isGap : tree.kind? gap = some (.text separator)) :
    tree.isLaidOut (first :: sorted) others (gap :: first :: run) =
      tree.isLaidOut sorted others run := by
  rw [isLaidOut, textContent?, isGap]
  simp

/-- What no separator is picked for is picked from the attributes and the rest. -/
theorem filterMap_of_isLaidOut {α : Type} {pick : NodeId → Option α}
    (gaps : ∀ gap, tree.kind? gap = some (.text separator) → pick gap = none)
    (laid : tree.isLaidOut sorted others run = true) :
    run.filterMap pick = (sorted ++ others).filterMap pick := by
  induction sorted generalizing run with
  | nil => rw [eq_of_beq laid, List.nil_append]
  | cons first sorted ih =>
    obtain ⟨gap, rest, rfl, isGap, laid⟩ := exists_of_isLaidOut laid
    rw [List.filterMap_cons_none (gaps gap isGap), List.cons_append, List.filterMap_cons,
      List.filterMap_cons, ih laid]

theorem filter_of_isLaidOut {test : NodeId → Bool}
    (gaps : ∀ gap, tree.kind? gap = some (.text separator) → test gap = false)
    (laid : tree.isLaidOut sorted others run = true) :
    run.filter test = (sorted ++ others).filter test := by
  rw [← List.filterMap_eq_filter]
  refine filterMap_of_isLaidOut (fun gap isGap => ?_) laid
  rw [Option.guard, gaps gap isGap]
  rfl

/-- A laid out run stays so as long as its separators do. -/
theorem isLaidOut_of_separators {after : Tree}
    (kept : ∀ gap, tree.kind? gap = some (.text separator) →
      after.kind? gap = some (.text separator))
    (laid : tree.isLaidOut sorted others run = true) :
    after.isLaidOut sorted others run = true := by
  induction sorted generalizing run with
  | nil => exact laid
  | cons first sorted ih =>
    obtain ⟨gap, rest, rfl, isGap, laid⟩ := exists_of_isLaidOut laid
    rw [isLaidOut_cons (kept gap isGap)]
    exact ih laid

/-- A run that is put together from separators and what they separate is laid out. -/
theorem isLaidOut_gapped {next : Nat}
    (gaps : ∀ gap : Nat, next ≤ gap → gap < next + sorted.length →
      tree.kind? gap = some (.text separator)) :
    tree.isLaidOut sorted others (gapped next sorted ++ others) = true := by
  induction sorted generalizing next with
  | nil => exact beq_self_eq_true others
  | cons first sorted ih =>
    rw [List.length_cons] at gaps
    rw [gapped, List.cons_append, List.cons_append, isLaidOut_cons (gaps next (Nat.le_refl _)
      (by omega))]
    exact ih fun gap beyond bounded => gaps gap (Nat.le_of_succ_le beyond) (by omega)

/-- A laid out run is spaced. -/
theorem spacedItems_of_isLaidOut (attributes : ∀ item ∈ sorted, tree.isAttribute item = true)
    (dense : ∀ item ∈ others, tree.isBlankText item = false)
    (laid : tree.isLaidOut sorted others run = true) : tree.SpacedItems run := by
  have noText {item : NodeId} (isAttr : tree.isAttribute item = true) :
      tree.textContent? item = none := by
    cases text : tree.textContent? item with
    | none => rfl
    | some content =>
      rw [isAttribute_of_text (kind?_of_textContent? text)] at isAttr
      cases isAttr
  induction sorted generalizing run with
  | nil =>
    obtain rfl := eq_of_beq laid
    refine List.Pairwise.isChain (List.pairwise_of_forall_mem_list ?_)
    intro left _ right member blank
    rw [dense right member] at blank
    cases blank
  | cons first sorted ih =>
    obtain ⟨gap, rest, rfl, isGap, laid⟩ := exists_of_isLaidOut laid
    have isAttr := noText (attributes first List.mem_cons_self)
    refine List.isChain_cons_cons.mpr ⟨fun blank => ?_, List.isChain_cons.mpr ⟨fun _ _ _ => ?_, ?_⟩⟩
    · rw [isBlankText, isAttr] at blank
      cases blank
    · rw [isAttr]
      rfl
    · exact ih (fun item member => attributes item (List.mem_cons_of_mem _ member)) laid

end

theorem of_mem_otherRunChildren {item : NodeId} (member : item ∈ tree.otherRunChildren id) :
    tree.isAttribute item = false ∧ tree.isBlankText item = false := by
  have other := (List.mem_filter.mp member).2
  rw [isOtherRunChild, Bool.and_eq_true, Bool.not_eq_true', Bool.not_eq_true'] at other
  exact other

theorem hasLiteralName_eq_false {item : NodeId} (noAttr : tree.isAttribute item = false)
    (name : String) : tree.hasLiteralName name item = false := by
  by_contra named
  rw [Bool.not_eq_false] at named
  rw [isAttribute_of_hasLiteralName named] at noAttr
  cases noAttr

/-- In a laid out run attributes are found in their order. -/
theorem findAttribute_of_laidOut (laid : tree.LaidOut rank id) (name : String) :
    tree.findAttribute id name = tree.front? rank id name := by
  have others : (tree.otherRunChildren id).filter (tree.hasLiteralName name) = [] := by
    refine List.filter_eq_nil_iff.mpr fun item member => Bool.eq_false_iff.mp ?_
    exact hasLiteralName_eq_false (of_mem_otherRunChildren member).1 name
  rw [findAttribute, front?, ← List.head?_filter, ← List.head?_filter, filter_of_isLaidOut
    (fun gap isGap => hasLiteralName_eq_false (isAttribute_of_text isGap) name) laid,
    List.filter_append, others, List.append_nil]

theorem LaidOut.spacedItems (laid : tree.LaidOut rank id) :
    tree.SpacedItems (tree.attributeChildren id) :=
  spacedItems_of_isLaidOut (fun _ member => isAttribute_of_mem_sortedAttributes member)
    (fun _ member => (of_mem_otherRunChildren member).2) laid

/-! ## The edit -/

section

variable {run : NodeId} (wf : tree.WellFormed) (reach : tree.Reachable id)
  (element : tree.attributeRun? id = some run) (rank : Rank)

include wf reach element

theorem attributeChildren_ordered :
    (tree.ordered rank id run).attributeChildren id = tree.orderedItems rank id :=
  attributeChildren_rerun element (wf.kind?_attributeRun reach element)

/-- What is brought in order is laid out, with the same attributes in the same order. -/
theorem laidOut_ordered : (tree.ordered rank id run).LaidOut rank id ∧
    (tree.ordered rank id run).sortedAttributes rank id = tree.sortedAttributes rank id := by
  have kept := runKept_ordered wf reach element rank
  have items := attributeChildren_ordered wf reach element rank
  have laid : (tree.ordered rank id run).isLaidOut (tree.sortedAttributes rank id)
      (tree.otherRunChildren id) ((tree.ordered rank id run).attributeChildren id) = true := by
    rw [items]
    exact isLaidOut_gapped (kind?_ordered_gap wf reach element rank)
  rw [← kept.others] at laid
  have others : ((tree.ordered rank id run).otherRunChildren id).filterMap
      ((tree.ordered rank id run).rankedAttribute? rank) = [] :=
    List.filterMap_eq_nil_iff.mpr fun item member =>
      rankedAttribute?_eq_none (of_mem_otherRunChildren member).1
  have sorted : (tree.ordered rank id run).sortedAttributes rank id =
      tree.sortedAttributes rank id := by
    refine sortedAttributes_of_sorted ?_
    rw [rankedRun, filterMap_of_isLaidOut
      (fun gap isGap => rankedAttribute?_eq_none (isAttribute_of_text isGap)) laid,
      List.filterMap_append, others, List.append_nil]
    refine List.filterMap_congr fun item member => ?_
    have listed := (tree.sortedAttributes_perm rank id).subset member
    rw [rankedAttribute?, rankedAttribute?, kept.kind?_eq item listed (Option.not_mem_none item)]
  rw [LaidOut, sorted]
  exact ⟨laid, rfl⟩

/-- Texts are kept. -/
theorem kind?_ordered_of_text {item : NodeId} {content : String}
    (known : tree.kind? item = some (.text content)) :
    (tree.ordered rank id run).kind? item = some (.text content) := by
  obtain ⟨node, slot, -⟩ := exists_of_kind? known
  have notRun : item ≠ run := by
    rintro rfl
    rw [wf.kind?_attributeRun reach element] at known
    cases known
  rw [ordered, kind?, get?_rerun_of_lt _ _ (lt_size slot) notRun]
  exact known

end

end Tree

/-- A run without attributes and one that is laid out are left alone. -/
theorem sortRun_eq_self {tree : Tree} {rank : Rank} {id : NodeId}
    (done : tree.sortedAttributes rank id = [] ∨ tree.LaidOut rank id) :
    sortRun rank id tree = .ok () tree := by
  rw [sortRun, Edit.get_bind]
  cases tree.elementName? id with
  | none => rfl
  | some name =>
    have isDone : ((tree.sortedAttributes rank id).isEmpty || tree.isLaidOut
        (tree.sortedAttributes rank id) (tree.otherRunChildren id)
        (tree.attributeChildren id)) = true := by
      rcases done with none | laid
      · rw [none]
        rfl
      · rw [laid, Bool.or_true]
    simp only [isDone]
    rfl

/-- Any other run is brought in order. -/
theorem sortRun_cases {tree after : Tree} {rank : Rank} {id : NodeId} (wf : tree.WellFormed)
    (reach : tree.Reachable id) (outcome : sortRun rank id tree = .ok () after) :
    (after = tree ∧ (tree.sortedAttributes rank id = [] ∨ tree.LaidOut rank id)) ∨
      ∃ run, tree.attributeRun? id = some run ∧ after = tree.ordered rank id run := by
  by_cases done : tree.sortedAttributes rank id = [] ∨ tree.LaidOut rank id
  · rw [sortRun_eq_self done] at outcome
    cases outcome
    exact .inl ⟨rfl, done⟩
  · right
    cases element : tree.attributeRun? id with
    | none => exact absurd (.inl (Tree.sortedAttributes_eq_nil element rank)) done
    | some run =>
      obtain ⟨name, children, known⟩ := Tree.kind?_of_attributeRun? element
      have isElement : (tree.elementName? id).isSome = true := by
        rw [Tree.elementName?, known]
        rfl
      refine ⟨run, rfl, ?_⟩
      have undone : ((tree.sortedAttributes rank id).isEmpty || tree.isLaidOut
          (tree.sortedAttributes rank id) (tree.otherRunChildren id)
          (tree.attributeChildren id)) = false := by
        rw [Bool.or_eq_false_iff, ← Bool.not_eq_true, ← Bool.not_eq_true, List.isEmpty_iff]
        exact not_or.mp done
      rw [sortRun, Edit.get_bind, isElement] at outcome
      simp only [undone] at outcome
      cases outcome.symm.trans ((Edit.bind_of_ok (separated_eq _ _)).trans
        (Tree.replaceAttributeChildren_ordered wf reach element rank))
      rfl

/-! ## The walk -/

namespace Tree

/-- Texts are not changed. -/
def TextsKept (before after : Tree) : Prop :=
  ∀ id content, before.kind? id = some (.text content) → after.kind? id = some (.text content)

/-- A laid out run stays so as long as texts do. -/
theorem Retouched.laidOut {before after : Tree} {id : NodeId} {rank : Rank}
    (retouched : before.Retouched after) (wf : before.WellFormed) (reach : before.Reachable id)
    (items : after.attributeChildren id = before.attributeChildren id)
    (texts : before.TextsKept after) (laid : before.LaidOut rank id) : after.LaidOut rank id := by
  have others : after.otherRunChildren id = before.otherRunChildren id := by
    rw [otherRunChildren, items]
    exact retouched.filter_isOtherRunChild_eq wf reach
  rw [LaidOut, retouched.sortedAttributes_eq wf reach items, others, items]
  exact isLaidOut_of_separators (fun gap isGap => texts gap separator isGap) laid

/-- What ordering attributes makes of an element: the run is as it was when it has no attribute, and
laid out otherwise; the attributes are those that there were, and are found in their order. -/
structure Sorted (before after : Tree) (rank : Rank) (id : NodeId) : Prop where
  run : (after.sortedAttributes rank id = [] ∧
      after.attributeChildren id = before.attributeChildren id) ∨ after.LaidOut rank id
  found : ∀ name, after.findAttribute id name = before.front? rank id name
  kinds : ∀ item ∈ before.runAttributes id, after.kind? item = before.kind? item

theorem sorted_of_sortRun {before after : Tree} {rank : Rank} {id : NodeId}
    (wf : before.WellFormed) (reach : before.Reachable id) (touched : before.Touched id after)
    (outcome : sortRun rank id before = .ok () after) : before.Sorted after rank id := by
  rcases sortRun_cases wf reach outcome with ⟨rfl, none | laid⟩ | ⟨run, element, rfl⟩
  · exact ⟨.inl ⟨none, rfl⟩, findAttribute_of_sortedAttributes_eq_nil none, fun _ _ => rfl⟩
  · exact ⟨.inr laid, findAttribute_of_laidOut laid, fun _ _ => rfl⟩
  · obtain ⟨laid, sorted⟩ := laidOut_ordered wf reach element rank
    refine ⟨.inr laid, fun name => ?_, fun item member =>
      (runKept_ordered wf reach element rank).kind?_eq item member (Option.not_mem_none item)⟩
    rw [findAttribute_of_laidOut laid, touched.front?_eq wf reach sorted]

end Tree

/-- **Ordering attributes** leaves each run in view laid out, or without attributes as it was. -/
theorem exists_attributeSort (rank : Rank) {start : Tree} (wf : start.WellFormed) :
    ∃ final, (attributeSort rank).walk start = .ok () final ∧ final.WellFormed ∧
      start.Preserved final ∧ ∀ id run, final.Visible id → start.attributeRun? id = some run →
        start.Sorted final rank id := by
  obtain ⟨log, final, walked, visits, wf', visited⟩ :=
    Pass.Local.exists_finished (attributeSort_local rank) wf
  have texts {tree final : Tree} {log : Log}
      (visits : Visits (attributeSort rank) .none tree log final) : tree.TextsKept final := by
    refine visits.rel_of_visit Tree.TextsKept (fun _ _ _ known => known)
      (fun first second id content known => second id content (first id content known)) ?_
    intro before after id descent wf seen outcome _ item content known
    rcases sortRun_cases wf seen.reachable (Pass.visit_ofEdit.mp outcome).2 with
      ⟨rfl, -⟩ | ⟨run, element, rfl⟩
    · exact known
    · exact Tree.kind?_ordered_of_text wf seen.reachable element rank known
  refine ⟨final, walked, wf', visits.preserved, fun id run visible element => ?_⟩
  obtain ⟨before, after, later, moment⟩ := visits.exists_moment wf (visited id visible) element
  have reach := moment.visible.reachable
  have reach' := moment.visible'.reachable
  have seen := visits.preserved.visible_of_lt id visible (Tree.lt_size_of_attributeRun? element)
  have sorted := Tree.sorted_of_sortRun moment.wellFormed reach moment.touched
    (Pass.visit_ofEdit.mp moment.visit).2
  have order : before.sortedAttributes rank id = start.sortedAttributes rank id :=
    moment.preserved.sortedAttributes_eq wf seen.reachable moment.sameRun.items
  have preserved' := moment.rest.preserved
  refine ⟨?_, fun name => ?_, fun item member =>
    (visits.runKept wf seen element).1.kind?_eq item member (Option.not_mem_none item)⟩
  · rcases sorted.run with ⟨none, items⟩ | laid
    · refine .inl ⟨?_, ?_⟩
      · rw [preserved'.sortedAttributes_eq moment.wellFormed' reach' moment.sameRun'.items, none]
      · rw [moment.sameRun'.items, items, moment.sameRun.items]
    · exact .inr (preserved'.laidOut moment.wellFormed' reach' moment.sameRun'.items
        (texts moment.rest) laid)
  · rw [preserved'.findAttribute_eq moment.wellFormed' reach' moment.sameRun'.items, sorted.found,
      moment.preserved.front?_eq wf seen.reachable order]

/-! ## A second walk -/

namespace Tree.Reworded

variable {keeps : String → Prop} {before after : Tree} {id : NodeId}

theorem sortedAttributes_eq (reworded : before.Reworded keeps after) (rank : Rank) (id : NodeId) :
    after.sortedAttributes rank id = before.sortedAttributes rank id := by
  rw [Tree.sortedAttributes_eq, Tree.sortedAttributes_eq, rankedRun, rankedRun,
    reworded.attributeChildren_eq, funext (reworded.rankedAttribute?_eq rank)]

theorem otherRunChildren_eq (reworded : before.Reworded keeps after) (id : NodeId) :
    after.otherRunChildren id = before.otherRunChildren id := by
  rw [otherRunChildren, otherRunChildren, reworded.attributeChildren_eq,
    funext reworded.isOtherRunChild_eq]

theorem findAttribute_eq (reworded : before.Reworded keeps after) (id : NodeId) (name : String) :
    after.findAttribute id name = before.findAttribute id name := by
  rw [findAttribute, findAttribute, reworded.attributeChildren_eq,
    funext (reworded.hasLiteralName_eq name)]

theorem laidOut {rank : Rank} (reworded : before.Reworded (· = separator) after)
    (laid : before.LaidOut rank id) : after.LaidOut rank id := by
  rw [LaidOut, reworded.sortedAttributes_eq, reworded.otherRunChildren_eq,
    reworded.attributeChildren_eq]
  refine isLaidOut_of_separators (fun gap isGap => ?_) laid
  obtain ⟨new, known, kept⟩ := reworded.text isGap
  rw [known, kept rfl]

end Tree.Reworded

/-- Runs that are laid out, or have no attribute, are left alone. -/
theorem attributeSort_eq_self {tree : Tree} {rank : Rank} (wf : tree.WellFormed)
    (done : ∀ id run, tree.Visible id → tree.attributeRun? id = some run →
      tree.sortedAttributes rank id = [] ∨ tree.LaidOut rank id) :
    (attributeSort rank).walk tree = .ok () tree := by
  refine Pass.Local.walk_eq_self_of_visible (attributeSort_local rank) wf fun id visible => ?_
  refine sortRun_eq_self ?_
  cases element : tree.attributeRun? id with
  | none => exact .inl (Tree.sortedAttributes_eq_nil element rank)
  | some run => exact done id run visible element

end Templating.Markup
