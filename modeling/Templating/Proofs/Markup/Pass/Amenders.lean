import Templating.Proofs.Markup.Pass.Offering
import Templating.Proofs.Markup.Pipeline

/-!
# Amending passes one after the other

What an amending pass does to a run is fixed by the tree from which a pipeline starts, as long as no
pass before it has amended attributes of its own name (`Amender`). So passes of different names make
of every run what their amendments make of it one after the other, in whatever order they run.

* `HeadingMarkers.amender`, `imageAmender`, `buttonAmender`: the passes that add attributes.
* `Amender.exists_run`: a pipeline of amending passes of different names.
* `Amender.isSome_findAttribute`: the names that are found behind it.
-/

namespace Templating.Markup

open Templating.Text

/-- The elements in view have an attribute of the name when they had one. -/
def Tree.SameNamed (before after : Tree) (name : String) : Prop :=
  ∀ id run, before.Visible id → before.attributeRun? id = some run →
    (after.runKinds id).any (NodeKind.isNamed name) =
      (before.runKinds id).any (NodeKind.isNamed name)

/-- A pass that amends the runs of a tree that was made from `start`: what it does to each is fixed
by `start`, unless attributes of its name have been added since. -/
structure Amender (start : Tree) where
  pass : Pass
  name : String
  due : NodeId → Option Amendment
  named : ∀ id, ∀ amendment ∈ due id, amendment.name = name
  walks : ∀ tree, start.Preserved tree → tree.WellFormed → start.SameNamed tree name →
    ∃ after, pass.walk tree = .ok () after ∧ tree.Remade (fun id => amended (due id)) after

section

variable {start : Tree}

/-- What completes elements is fixed by their names. -/
theorem Tree.Preserved.filling?_eq {tree : Tree} (preserved : start.Preserved tree)
    (tag name value : String) :
    tree.filling? tag name value = start.filling? tag name value := by
  funext id
  rw [filling?, filling?, isElement, isElement, preserved.elementName?_eq]

theorem Tree.name_of_mem_filling? {tree : Tree} {tag name value : String} {id : NodeId}
    {amendment : Amendment} (member : amendment ∈ tree.filling? tag name value id) :
    amendment.name = name := by
  rw [filling?] at member
  split at member
  · cases member
    rfl
  · cases member

/-- Buttons declare their types as before as long as none has got one. -/
theorem Tree.Preserved.typed_iff {tree : Tree} {id : NodeId} (wf : start.WellFormed)
    (preserved : start.Preserved tree) (wf' : tree.WellFormed) (same : start.SameNamed tree "type")
    (visible : start.Visible id) : tree.Typed id ↔ start.Typed id := by
  cases element : start.attributeRun? id with
  | none =>
    have noElement := (preserved.attributeRun?_eq id).trans element
    exact iff_of_false (not_typed_of_no_element noElement) (not_typed_of_no_element element)
  | some run =>
    have seen := (preserved.element_after visible element).1
    rw [Typed, Typed, isElement, isElement, preserved.elementName?_eq,
      isSome_findAttribute wf' seen.reachable, isSome_findAttribute wf visible.reachable,
      same id run visible element]

variable (wf : start.WellFormed)

include wf

/-- The same buttons are come to as long as none has got a type. -/
theorem Tree.Preserved.typing?_eq {tree : Tree} {id run : NodeId} (preserved : start.Preserved tree)
    (wf' : tree.WellFormed) (same : start.SameNamed tree "type")
    (element : start.attributeRun? id = some run) : tree.typing? id = start.typing? id := by
  have offered := preserved.offered_iff wf wf'
    (fun id visible => preserved.typed_iff wf wf' same visible) (lt_size_of_attributeRun? element)
    (isBlankText_eq_false (holds_attributeRun? element).2)
  by_cases come : start.Offered id
  · rw [typing?, typing?, if_pos (offered.mpr come), if_pos come, preserved.filling?_eq]
  · rw [typing?, typing?, if_neg fun come' => come (offered.mp come'), if_neg come]

end

/-! ## The passes that add attributes -/

/-- The pass that marks headings. -/
def HeadingMarkers.amender (markers : HeadingMarkers) (start : Tree) : Amender start where
  pass := Pass.ofEdit headingClassName markers.mark
  name := "class"
  due := markers.amendment? start
  named := by
    intro id amendment member
    obtain ⟨marker, -, rfl⟩ := Option.map_eq_some_iff.mp member
    rfl
  walks := by
    intro tree preserved wf' _
    obtain ⟨after, walked, remade⟩ :=
      Pass.Local.exists_remade markers.mark_local (markers.mark_reruns tree) wf'
    refine ⟨after, walked, remade.congr fun id run _ element => ?_⟩
    rw [preserved.attributeRun?_eq] at element
    rw [amendment?, amendment?,
      markers.marker?_eq preserved.toRetouched (Tree.lt_size_of_attributeRun? element)]

/-- The pass that completes images. -/
def imageAmender (start : Tree) : Amender start where
  pass := imageAlt
  name := "alt"
  due := start.filling? "img" "alt" ""
  named := fun _ _ member => Tree.name_of_mem_filling? member
  walks := by
    intro tree preserved wf' _
    obtain ⟨after, walked, remade⟩ :=
      Pass.Local.exists_remade imageAlt_local (imageAlt_reruns tree) wf'
    rw [preserved.filling?_eq] at remade
    exact ⟨after, walked, remade⟩

/-- The pass that completes buttons. -/
noncomputable def buttonAmender {start : Tree} (wf : start.WellFormed) : Amender start where
  pass := buttonType
  name := "type"
  due := start.typing?
  named := by
    intro id amendment member
    rw [Tree.typing?] at member
    split at member
    · exact Tree.name_of_mem_filling? member
    · cases member
  walks := by
    intro tree preserved wf' same
    obtain ⟨after, walked, remade⟩ := exists_buttonType_remade wf'
    refine ⟨after, walked, remade.congr fun id run _ element => ?_⟩
    rw [preserved.attributeRun?_eq] at element
    rw [preserved.typing?_eq wf wf' same element]

/-! ## Pipelines -/

/-- What is due has the name of its pass. -/
theorem Amender.any_due {start : Tree} (amender : Amender start) (id : NodeId) (name : String) :
    (amender.due id).any (fun amendment => sameName amendment.name name) =
      (sameName amender.name name && (amender.due id).isSome) := by
  cases due : amender.due id with
  | none => exact (Bool.and_false _).symm
  | some amendment =>
    rw [Option.any_some, Option.isSome_some, Bool.and_true, amender.named id amendment due]

/-- **Amending passes of different names** make of each run what their amendments make of it. -/
theorem Amender.exists_run {start : Tree} (amenders : List (Amender start))
    (differ : amenders.Pairwise fun first second => sameName first.name second.name = false)
    {tree : Tree} (preserved : start.Preserved tree) (wf : tree.WellFormed)
    (same : ∀ amender ∈ amenders, start.SameNamed tree amender.name) :
    ∃ after, Pipeline.run (amenders.map Amender.pass) tree = .ok () after ∧
      tree.Remade (fun id => amendedAll (amenders.map fun amender => amender.due id)) after := by
  induction amenders generalizing tree with
  | nil => exact ⟨tree, rfl, .refl wf⟩
  | cons amender rest ih =>
    obtain ⟨differs, differ⟩ := List.pairwise_cons.mp differ
    obtain ⟨middle, walked, remade⟩ :=
      amender.walks tree preserved wf (same amender List.mem_cons_self)
    have same' : ∀ other ∈ rest, start.SameNamed middle other.name := by
      intro other member id run visible element
      obtain ⟨seen, isElement⟩ := preserved.element_after visible element
      rw [remade.runs id run seen isElement, any_isNamed_amended, amender.any_due,
        differs other member, Bool.false_and, Bool.or_false]
      exact same other (List.mem_cons_of_mem _ member) id run visible element
    obtain ⟨after, ran, remade'⟩ :=
      ih differ (preserved.trans remade.toPreserved) remade.wellFormed same'
    have whole := remade.trans wf remade'
    exact ⟨after, (Pipeline.run_cons _ walked).trans ran, whole⟩

/-- An attribute is found behind amending passes when it was there or was due. -/
theorem Amender.isSome_findAttribute {start after : Tree} {amenders : List (Amender start)}
    (remade : start.Remade
      (fun id => amendedAll (amenders.map fun amender => amender.due id)) after)
    (wf : start.WellFormed) {id run : NodeId} (visible : start.Visible id)
    (element : start.attributeRun? id = some run) (name : String) :
    (after.findAttribute id name).isSome = ((start.findAttribute id name).isSome ||
      amenders.any fun amender => sameName amender.name name && (amender.due id).isSome) := by
  have seen := (remade.element_after visible element).1
  rw [Tree.isSome_findAttribute remade.wellFormed seen.reachable,
    Tree.isSome_findAttribute wf visible.reachable, remade.runs id run visible element,
    any_isNamed_amendedAll, List.any_map]
  exact congrArg (_ || List.any amenders ·) (funext fun amender => amender.any_due id name)

end Templating.Markup
