import Templating.Proofs.Markup.Alike
import Templating.Proofs.Markup.Canonical
import Templating.Proofs.Markup.Pass.Amenders
import Templating.Proofs.Markup.Pass.Arrangement
import Templating.Proofs.Markup.Pass.Separators

/-!
# The passes that add attributes commute

Marking headings and completing images and buttons take new slots in the order in which they run,
put separators where the run before them calls for one, and may meet on one element. None of this is
seen in the markup once the attributes have been ordered.

* `Amender.exists_ordered`: amending passes, the ordering of attributes and the tidying of
  separators make of each run something that is fixed by the run.
* `Amender.exists_alike`: amending passes in two orders make trees that are then alike, and the
  passes over single texts leave them alike.
* `adding_passes_commute`: the markup in the end does not depend on their order.
-/

namespace Templating.Markup

open Templating.Text

/-! ## Passes over alike trees -/

namespace Tree.Alike

variable {start left right : Tree}

/-- A pass that takes a step in each text in view leaves alike trees alike. -/
theorem exists_walk {pass : Pass} {allowance : Allowance} {all : Bool}
    {step : List Char → List Char} (isLocal : pass.Local allowance)
    (steps : ∀ {tree : Tree}, tree.WellFormed → ∃ final, pass.walk tree = .ok () final ∧
      final.WellFormed ∧ tree.SteppedAt tree.Visible all step final)
    (alike : start.Alike left right) : ∃ left' right', pass.walk left = .ok () left' ∧
      pass.walk right = .ok () right' ∧ start.Alike left' right' := by
  have walks {tree : Tree} (wf : tree.WellFormed) : ∃ final, pass.walk tree = .ok () final ∧
      final.WellFormed ∧ tree.Preserved final ∧ tree.SteppedAt tree.Visible all step final := by
    obtain ⟨final, walked, wf', stepped⟩ := steps wf
    obtain ⟨final', walked', outcome⟩ := isLocal.exists_outcome wf
    cases walked.symm.trans walked'
    exact ⟨final, walked, wf', outcome.toPreserved, stepped⟩
  obtain ⟨left', walked, wf, preserved, stepped⟩ := walks alike.wellFormed
  obtain ⟨right', walked', wf', preserved', stepped'⟩ := walks alike.wellFormed'
  exact ⟨left', right', walked, walked', alike.stepped stepped stepped' preserved preserved' wf wf'⟩

/-- Passes that leave alike trees alike, one after the other. -/
theorem exists_run (passes : Pipeline)
    (each : ∀ pass ∈ passes, ∀ {left right : Tree}, start.Alike left right →
      ∃ left' right', pass.walk left = .ok () left' ∧ pass.walk right = .ok () right' ∧
        start.Alike left' right')
    (alike : start.Alike left right) : ∃ left' right', Pipeline.run passes left = .ok () left' ∧
      Pipeline.run passes right = .ok () right' ∧ start.Alike left' right' := by
  induction passes generalizing left right with
  | nil => exact ⟨left, right, rfl, rfl, alike⟩
  | cons pass rest ih =>
    obtain ⟨left', right', walked, walked', alike'⟩ := each pass List.mem_cons_self alike
    obtain ⟨left'', right'', ran, ran', alike''⟩ :=
      ih (fun other member => each other (List.mem_cons_of_mem _ member)) alike'
    exact ⟨left'', right'', (Pipeline.run_cons _ walked).trans ran,
      (Pipeline.run_cons _ walked').trans ran', alike''⟩

end Tree.Alike

/-! ## Parts of the pipeline -/

namespace PipelineConfig

/-- The canonical passes over single texts. -/
def texting (config : PipelineConfig) : Pipeline :=
  verticalWhitespace config.normalizeWhitespace :: if config.compress then [Markup.compress] else []

/-- The canonical passes that run when attributes have been added. -/
def finishing (config : PipelineConfig) : Pipeline :=
  [attributeSort (leadingRank defaultLeading), interiorWhitespace] ++ config.texting

variable (config : PipelineConfig) {start left right : Tree}

/-- The passes over single texts leave alike trees alike. -/
theorem exists_texted (alike : start.Alike left right) :
    ∃ left' right', Pipeline.run config.texting left = .ok () left' ∧
      Pipeline.run config.texting right = .ok () right' ∧ start.Alike left' right' := by
  refine alike.exists_run config.texting fun pass member {_ _} alike => ?_
  rcases List.mem_cons.mp member with rfl | last
  · exact alike.exists_walk (verticalWhitespace_local _) (exists_verticalWhitespace_steppedAt _)
  · split at last
    · obtain rfl := List.mem_singleton.mp last
      exact alike.exists_walk compress_local exists_compress_steppedAt
    · cases last

end PipelineConfig

/-- Ordering attributes and tidying separators changes each run in a way that is
fixed by the run. -/
theorem exists_tidy_remade {start : Tree} (wf : start.WellFormed) : ∃ final,
    Pipeline.run [attributeSort (leadingRank defaultLeading), interiorWhitespace] start =
      .ok () final ∧
    start.Remade (fun _ kinds => tidyKinds none (arranged (leadingRank defaultLeading) kinds))
      final := by
  obtain ⟨sorted, walked, remade⟩ := Pass.Local.exists_remade (attributeSort_local _)
    (attributeSort_reruns (leadingRank defaultLeading) start) wf
  obtain ⟨final, walked', remade'⟩ := Pass.Local.exists_remade interiorWhitespace_local
    (interiorWhitespace_reruns sorted) remade.wellFormed
  have whole := remade.trans wf remade'
  exact ⟨final, (Pipeline.run_cons _ walked).trans (Pipeline.run_cons [] walked'), whole⟩

/-! ## Passes in any order -/

namespace Amender

variable {start : Tree} {amenders amenders' : List (Amender start)}

/-- Ordering and tidying behind amending passes of different names. -/
theorem exists_ordered (wf : start.WellFormed)
    (differ : amenders.Pairwise fun first second => sameName first.name second.name = false) :
    ∃ ordered, Pipeline.run (amenders.map Amender.pass ++
        [attributeSort (leadingRank defaultLeading), interiorWhitespace]) start = .ok () ordered ∧
      start.Remade (fun id kinds => tidyKinds none (arranged (leadingRank defaultLeading)
        (amendedAll (amenders.map fun amender => amender.due id) kinds))) ordered := by
  obtain ⟨middle, ran, remade⟩ :=
    Amender.exists_run amenders differ (.refl start) wf fun _ _ _ _ _ _ => rfl
  obtain ⟨ordered, ran', remade'⟩ := exists_tidy_remade remade.wellFormed
  have whole := remade.trans wf remade'
  exact ⟨ordered, (Pipeline.run_append _ ran).trans ran', whole⟩

/-- What amending passes of different names have for an element has different names. -/
theorem pairwise_due
    (differ : amenders.Pairwise fun first second => sameName first.name second.name = false)
    (id : NodeId) : (amenders.map fun amender => amender.due id).Pairwise DifferentNames := by
  refine List.pairwise_map.mpr (differ.imp fun {first second} apart => ?_)
  intro amendment member amendment' member'
  rw [first.named id amendment member, second.named id amendment' member']
  exact apart

/-- **Amending passes of different names** in two orders make alike trees when the passes that
finish the pipeline have run. -/
theorem exists_alike (wf : start.WellFormed) (perm : amenders.Perm amenders')
    (differ : amenders.Pairwise fun first second => sameName first.name second.name = false)
    (config : PipelineConfig) : ∃ after after',
      Pipeline.run (amenders.map Amender.pass ++ config.finishing) start = .ok () after ∧
      Pipeline.run (amenders'.map Amender.pass ++ config.finishing) start = .ok () after' ∧
      start.Alike after after' := by
  have differ' : amenders'.Pairwise fun first second => sameName first.name second.name = false :=
    perm.pairwise differ fun apart => (sameName_comm _ _).trans apart
  obtain ⟨ordered, ran, remade⟩ := exists_ordered wf differ
  obtain ⟨ordered', ran', remade'⟩ := exists_ordered wf differ'
  have alike : start.Alike ordered ordered' := by
    refine remade.alike remade' fun id kinds => ?_
    have akin :=
      akin_amendedAll (perm.map fun amender => amender.due id) (pairwise_due differ id) kinds
    rw [arranged_of_akin _ akin]
  obtain ⟨after, after', texted, texted', alike'⟩ := config.exists_texted alike
  rw [PipelineConfig.finishing, ← List.append_assoc, ← List.append_assoc]
  exact ⟨after, after', (Pipeline.run_append _ ran).trans texted,
    (Pipeline.run_append _ ran').trans texted', alike'⟩

end Amender

/-- A permutation of the values of a function has permuted arguments. -/
theorem exists_perm_of_perm_map {α β : Type} {f : α → β} {images : List β} {items : List α}
    (perm : images.Perm (items.map f)) :
    ∃ items' : List α, items'.Perm items ∧ images = items'.map f := by
  have related : List.Forall₂ (fun image item => image = f item) (items.map f) items :=
    List.forall₂_map_left_iff.mpr (List.forall₂_same.mpr fun _ _ => rfl)
  obtain ⟨items', related', perm'⟩ := List.perm_comp_forall₂ perm related
  refine ⟨items', perm', ?_⟩
  rw [← List.forall₂_eq_eq_eq, List.forall₂_map_right_iff]
  exact related'

/-! ## The passes that add attributes -/

namespace PipelineConfig

variable (config : PipelineConfig) {start : Tree} (wf : start.WellFormed)

/-- The passes that add attributes to a tree, in their canonical order. -/
noncomputable def amenders : List (Amender start) :=
  [config.markers.amender start, imageAmender start, buttonAmender wf]

theorem pairwise_amenders : (config.amenders wf).Pairwise
    fun first second => sameName first.name second.name = false := by
  have classAlt : sameName "class" "alt" = false := by decide
  have classType : sameName "class" "type" = false := by decide
  have altType : sameName "alt" "type" = false := by decide
  simp only [amenders, List.pairwise_cons, List.mem_cons, List.not_mem_nil, or_false,
    forall_eq_or_imp, forall_eq, List.Pairwise.nil, and_true, false_imp_iff, implies_true]
  exact ⟨⟨classAlt, classType⟩, altType⟩

variable {config}

theorem eq_mark_of_headingClass {heading : Pass}
    (built : Markup.headingClass config.markers = .ok heading) :
    heading = Pass.ofEdit headingClassName config.markers.mark :=
  (HeadingMarkers.of_headingClass built).2

theorem eq_finishing_of_canonical {pipeline : Pipeline} (built : canonical config = .ok pipeline) :
    pipeline = (config.amenders wf).map Amender.pass ++ config.finishing := by
  rw [eq_passes_of_canonical built, passes, finishing, texting]
  cases config.compress <;> rfl

end PipelineConfig

/-- **The passes that add attributes commute.** Marking headings, completing images and completing
buttons may run in any order in front of the other canonical passes: over a well-formed tree the run
ends without an error and with the markup that the canonical pipeline gives. -/
theorem adding_passes_commute (config : PipelineConfig) (pipeline : Pipeline)
    (built : canonical config = .ok pipeline) (heading : Pass)
    (isHeading : headingClass config.markers = .ok heading) (order : Pipeline)
    (perm : order.Perm [heading, imageAlt, buttonType]) (tree : Tree) (wf : tree.WellFormed) :
    ∃ after after', Pipeline.run pipeline tree = .ok () after ∧
      Pipeline.run (order ++ config.finishing) tree = .ok () after' ∧
      after'.markup = after.markup := by
  rw [PipelineConfig.eq_mark_of_headingClass isHeading] at perm
  have listed : (config.amenders wf).map Amender.pass =
      [Pass.ofEdit headingClassName config.markers.mark, imageAlt, buttonType] := rfl
  rw [← listed] at perm
  obtain ⟨amenders, perm', rfl⟩ := exists_perm_of_perm_map perm
  obtain ⟨after, after', ran, ran', alike⟩ :=
    Amender.exists_alike wf perm'.symm (config.pairwise_amenders wf) config
  rw [← PipelineConfig.eq_finishing_of_canonical wf built] at ran
  exact ⟨after, after', ran, ran', (alike.markup_eq wf).symm⟩

/-- A heading with an image in it, which both get attributes when secondary headings are images, and
a button with another one in it. -/
def markedTree : Tree :=
  ⟨#[⟨.fragment [1, 5], none⟩, ⟨.element "h2" 2 [3], some 0⟩, ⟨.fragment [], some 1⟩,
    ⟨.element "img" 4 [], some 1⟩, ⟨.fragment [], some 3⟩, ⟨.element "button" 6 [7], some 0⟩,
    ⟨.fragment [], some 5⟩, ⟨.element "button" 8 [], some 5⟩, ⟨.fragment [], some 7⟩]⟩

theorem markedTree_wellFormed : markedTree.WellFormed :=
  .of_closed [0, 1, 2, 3, 4, 5, 6, 7, 8] (by decide) (by decide) (by decide) (by decide)

theorem adding_passes_commute_marked : ∃ pipeline heading,
    canonical { subheadingTag := "img" } = .ok pipeline ∧
    headingClass ({ subheadingTag := "img" } : PipelineConfig).markers = .ok heading ∧
    markedTree.WellFormed ∧ ∃ after after',
      Pipeline.run pipeline markedTree = .ok () after ∧
      Pipeline.run ([buttonType, imageAlt, heading] ++
        ({ subheadingTag := "img" } : PipelineConfig).finishing) markedTree = .ok () after' ∧
      after'.markup = after.markup :=
  ⟨_, _, rfl, rfl, markedTree_wellFormed,
    adding_passes_commute { subheadingTag := "img" } _ rfl _ rfl _ (List.reverse_perm _) markedTree
      markedTree_wellFormed⟩

end Templating.Markup
