import Templating.Proofs.Markup.Pass.Amending
import Templating.Proofs.Markup.Pass.Tidied

/-!
# Tidy runs without their slots

Tidying separators goes over a run from left to right and looks back at the item before, as it has
been left. So what becomes of a run depends on its kinds alone (`tidyKinds`).

* `map_kind?_tidyRun`: the kinds of a tidied run.
* `interiorWhitespace_reruns`: the pass tidies each run that it visits.
-/

namespace Templating.Markup

open Templating.Text

/-- The content of a text. -/
def NodeKind.text? : NodeKind → Option String
  | .text content => some content
  | _ => none

/-- A blank text as it is written behind another item; anything else is kept. -/
def tidyKind (previous : Option NodeKind) (last : Bool) (kind : NodeKind) : NodeKind :=
  match kind with
  | .text content =>
    if allBlank content.toList then
      .text ((tidySeparator content (previous.bind NodeKind.text?) last).getD content)
    else
      kind
  | _ => kind

/-- A run with its separators tidied. -/
def tidyKinds (previous : Option NodeKind) : List NodeKind → List NodeKind
  | [] => []
  | kind :: rest =>
    let tidy := tidyKind previous rest.isEmpty kind
    tidy :: tidyKinds (some tidy) rest

namespace Tree

variable {tree middle : Tree} {previous : Option NodeId} {item : NodeId} {last : Bool}

theorem textContent?_eq_bind (tree : Tree) (id : NodeId) :
    tree.textContent? id = (tree.kind? id).bind NodeKind.text? := by
  rw [textContent?]
  cases tree.kind? id with
  | none => rfl
  | some kind => cases kind <;> rfl

namespace Tidied

variable (tidied : tree.Tidied previous item last middle)

include tidied

/-- Only the item is changed. -/
theorem kind?_eq_of_ne {other : NodeId} (differ : other ≠ item) :
    middle.kind? other = tree.kind? other := by
  cases tidied with
  | kept => rfl
  | rewritten => exact kind?_setKind_of_ne differ.symm

/-- What has become of the item. -/
theorem kind?_eq {kind : NodeKind} (known : tree.kind? item = some kind) :
    middle.kind? item = some (tidyKind (previous.bind tree.kind?) last kind) := by
  have before : previous.bind tree.textContent? =
      (previous.bind tree.kind?).bind NodeKind.text? := by
    rw [Option.bind_assoc, funext tree.textContent?_eq_bind]
  have blank (content : String) (isText : tree.kind? item = some (.text content)) :
      tree.isBlankText item = allBlank content.toList := by
    rw [isBlankText_eq_any, isText]
    rfl
  cases tidied with
  | kept nothing =>
    rw [known]
    cases kind with
    | text content =>
      rw [tidyKind]
      split
      · rename_i isBlank
        have same := nothing content known ((blank content known).trans isBlank)
        rw [before] at same
        rw [same]
        rfl
      · rfl
    | _ => rfl
  | rewritten isText isBlank written =>
    obtain rfl := Option.some.inj (known.symm.trans isText)
    rw [blank _ isText] at isBlank
    rw [before] at written
    rw [kind?_setKind_of_kind? isText, tidyKind, if_pos isBlank, written]
    rfl

end Tidied

end Tree

/-- **Tidying a run** does to its kinds what they call for, and leaves all else alone. -/
theorem map_kind?_tidyRun {items : List NodeId} (previous : Option NodeId) {tree after : Tree}
    {kinds : List NodeKind} (distinct : (previous.toList ++ items).Nodup)
    (known : items.map tree.kind? = kinds.map some)
    (outcome : tidyRun previous items tree = .ok () after) :
    items.map after.kind? = (tidyKinds (previous.bind tree.kind?) kinds).map some ∧
      ∀ other ∉ items, after.kind? other = tree.kind? other := by
  induction items generalizing previous tree kinds with
  | nil =>
    cases outcome
    obtain rfl := List.map_eq_nil_iff.mp known.symm
    exact ⟨rfl, fun _ _ => rfl⟩
  | cons item rest ih =>
    obtain ⟨kind, kinds, rfl⟩ : ∃ kind more, kinds = kind :: more := by
      cases kinds with
      | nil => cases known
      | cons kind more => exact ⟨kind, more, rfl⟩
    rw [List.map_cons, List.map_cons, List.cons.injEq] at known
    obtain ⟨middle, tidied, step⟩ := exists_tidied tree previous item rest
    have distinct' : (item :: rest).Nodup := (List.nodup_append.mp distinct).2.1
    have notIn := (List.nodup_cons.mp distinct').1
    have others : rest.map middle.kind? = kinds.map some := by
      rw [← known.2]
      refine List.map_congr_left fun other member => tidied.kind?_eq_of_ne ?_
      rintro rfl
      exact notIn member
    obtain ⟨tidy, kept⟩ := ih (some item) distinct' others (step ▸ outcome)
    have ends := congrArg List.isEmpty known.2
    rw [List.isEmpty_map, List.isEmpty_map] at ends
    have now := tidied.kind?_eq known.1
    rw [ends] at now
    refine ⟨?_, fun other outside => ?_⟩
    · rw [List.map_cons, kept item notIn, now, tidy, Option.bind_some, now, tidyKinds,
        List.map_cons]
    · obtain ⟨differ, outside⟩ := not_or.mp (mt List.mem_cons.mpr outside)
      rw [kept other outside, tidied.kind?_eq_of_ne differ]

/-- **Tidying separators** does to each visited run what its kinds call for. -/
theorem interiorWhitespace_reruns (start : Tree) :
    interiorWhitespace.Reruns start fun _ => tidyKinds none where
  idle := by
    intro before after id descent noElement outcome
    have edited := (Pass.visit_ofEdit.mp outcome).2
    rw [Edit.get_bind, Tree.attributeChildren, noElement] at edited
    cases edited
    rfl
  run := by
    intro before after id run descent _ wf visible element touched outcome
    have reach := visible.reachable
    have edited := (Pass.visit_ofEdit.mp outcome).2
    rw [Edit.get_bind] at edited
    obtain ⟨tidy, kept⟩ := map_kind?_tidyRun none
      (Tree.nodup_attributeChildren wf reach element) (wf.map_kind?_attributeChildren reach) edited
    have notRun : run ∉ before.attributeChildren id := fun member =>
      Tree.ne_of_mem_attributeChildren wf reach element member rfl
    have items : after.attributeChildren id = before.attributeChildren id := by
      refine touched.attributeChildren_eq wf reach element ?_
      rw [Tree.walkChildren, Tree.walkChildren, kept run notRun]
    have kinds := congrArg (List.filterMap fun kind => kind) tidy
    rw [List.filterMap_map, List.filterMap_map] at kinds
    rw [Tree.runKinds, items]
    exact kinds.trans List.filterMap_some

end Templating.Markup
