import Mathlib.Data.List.TakeDrop
import Templating.Proofs.Markup.Canonical
import Templating.Proofs.Markup.Pass.Stepping

/-!
# Compression absorbs the collapse of line breaks

A text of which the blanks are collapsed is the same whether or not its line breaks were collapsed
before: `collapseBlanks_keepLastBreak`. As both passes take their steps in all texts that are in
view, the same holds of whole trees, and a compressed pipeline leaves one tree for both settings of
the collapse of line breaks: `compress_absorbs_line_breaks`.
-/

namespace Templating.Markup

open Templating.Text

/-! ## Texts -/

/-- Collapsing blanks gives the same when line breaks have been collapsed before. -/
theorem collapseAfter_keepLastBreak (afterBlank : Bool) (text : List Char) :
    collapseAfter afterBlank (keepLastBreak text) = collapseAfter afterBlank text := by
  induction text generalizing afterBlank with
  | nil => rfl
  | cons c rest ih =>
    rw [keepLastBreak]
    split
    · -- The break that is dropped stands before another one, which is a blank of the same run.
      rename_i repeated
      obtain ⟨isBreak, follows⟩ := Bool.and_eq_true_iff.mp repeated
      obtain ⟨d, begins, isBreak'⟩ := (Option.any_eq_true ..).mp follows
      obtain ⟨tail, rfl⟩ := List.head?_eq_some_iff.mp begins
      have blank := isBlank_of_isLineBreak isBreak
      have blank' := isBlank_of_isLineBreak isBreak'
      rw [ih, collapseAfter, if_pos blank', collapseAfter, if_pos blank, collapseAfter,
        if_pos blank', if_pos rfl]
    · rw [collapseAfter, collapseAfter, ih, ih]

theorem collapseBlanks_keepLastBreak (text : List Char) :
    collapseBlanks (keepLastBreak text) = collapseBlanks text :=
  collapseAfter_keepLastBreak false text

/-! ## Trees -/

/-- Collapsing all blanks undoes the traces of any collapse of line breaks. -/
theorem NodeKind.stepped_stepped (all : Bool) (kind : NodeKind) :
    (kind.stepped all keepLastBreak).stepped true collapseBlanks =
      kind.stepped true collapseBlanks := by
  cases kind with
  | text content =>
    simp only [stepped, Bool.true_or, if_true]
    split
    · rw [String.toList_ofList, collapseBlanks_keepLastBreak]
    · rfl
  | _ => rfl

/-- The two passes over texts leave what compression alone leaves. -/
theorem exists_compressed (all : Bool) {start : Tree} (wf : start.WellFormed) :
    ∃ final, Pipeline.run [verticalWhitespace all, compress] start = .ok () final ∧
      start.SteppedAt start.Visible true collapseBlanks final := by
  obtain ⟨broken, walked, wf', stepped⟩ := exists_verticalWhitespace_steppedAt all wf
  obtain ⟨final, walked', -, stepped'⟩ := exists_compress_steppedAt wf'
  refine ⟨final, ?_, stepped.absorb (stepped'.congr fun id => stepped.visible_iff)
    (NodeKind.stepped_stepped all)⟩
  exact (Pipeline.run_cons _ walked).trans (Pipeline.run_cons _ walked')

/-- The passes that bring runs of attributes into their form, which no setting of blanks changes. -/
def PipelineConfig.runPasses (config : PipelineConfig) : Pipeline :=
  (config.passes.take 5).map Prod.fst

theorem PipelineConfig.exists_runPasses (config : PipelineConfig) {start : Tree}
    (wf : start.WellFormed) : ∃ middle, Pipeline.run config.runPasses start = .ok () middle ∧
      middle.WellFormed := by
  have tail : (config.passes.take 5).tail ⊆ config.passes.tail := by
    rw [List.tail_take_eq_take_tail]
    exact List.take_subset 4 config.passes.tail
  obtain ⟨middle, ran, outcome⟩ := Pipeline.exists_outcome (config.passes.take 5)
    (fun _ member => local_of_mem_passes (List.mem_of_mem_take member))
    (fun _ member => additive_of_mem_tail (tail member)) wf
  exact ⟨middle, ran, outcome.wellFormed⟩

theorem PipelineConfig.passes_of_compress {config : PipelineConfig}
    (squeezes : config.compress = true) : config.passes.map Prod.fst =
      config.runPasses ++ [verticalWhitespace config.normalizeWhitespace, Markup.compress] := by
  rw [runPasses, passes, if_pos squeezes]
  rfl

/-- **Compression absorbs the collapse of line breaks.** Of two settings with compression that
differ only in whether line breaks are collapsed in every text or only in blank text, both pipelines
leave the same tree of a well-formed one. No text in view there has a blank other than the plain
space, or two spaces side by side. -/
theorem compress_absorbs_line_breaks (config : PipelineConfig) (all : Bool)
    (squeezes : config.compress = true) (pipeline pipeline' : Pipeline)
    (built : canonical config = .ok pipeline)
    (built' : canonical { config with normalizeWhitespace := all } = .ok pipeline')
    (tree : Tree) (wf : tree.WellFormed) :
    ∃ after, Pipeline.run pipeline tree = .ok () after ∧
      Pipeline.run pipeline' tree = .ok () after ∧
      ∀ id content, after.Visible id → after.kind? id = some (.text content) →
        (∀ c ∈ content.toList, isBlank c = true → c = ' ') ∧
          ¬ [' ', ' '] <:+: content.toList := by
  obtain ⟨middle, ran, wf'⟩ := config.exists_runPasses wf
  obtain ⟨after, walked, stepped⟩ := exists_compressed config.normalizeWhitespace wf'
  obtain ⟨after', walked', stepped'⟩ := exists_compressed all wf'
  obtain rfl := stepped.unique stepped'
  refine ⟨after, ?_, ?_, fun id content visible known => ?_⟩
  · rw [PipelineConfig.eq_passes_of_canonical built, PipelineConfig.passes_of_compress squeezes]
    exact (Pipeline.run_append _ ran).trans walked
  · have passes :
        ({ config with normalizeWhitespace := all } : PipelineConfig).passes.map Prod.fst =
          config.runPasses ++ [verticalWhitespace all, compress] :=
      PipelineConfig.passes_of_compress squeezes
    rw [PipelineConfig.eq_passes_of_canonical built', passes]
    exact (Pipeline.run_append _ ran).trans walked'
  · rw [stepped.kind?_inside (stepped.visible_iff.mp visible)] at known
    obtain ⟨kind, -, isText⟩ := Option.map_eq_some_iff.mp known
    cases kind with
    | text old =>
      obtain rfl : String.ofList (collapseBlanks old.toList) = content := NodeKind.text.inj isText
      rw [String.toList_ofList]
      exact ⟨fun c member blank => eq_space_of_mem_collapseAfter member blank,
        not_infix_collapseBlanks old.toList⟩
    | _ => cases isText

theorem compress_absorbs_line_breaks_sample : ∃ pipeline pipeline',
    canonical { compress := true } = .ok pipeline ∧
    canonical { compress := true, normalizeWhitespace := true } = .ok pipeline' ∧
    sampleTree.WellFormed ∧
    ∃ after, Pipeline.run pipeline sampleTree = .ok () after ∧
      Pipeline.run pipeline' sampleTree = .ok () after := by
  obtain ⟨after, ran, ran', -⟩ := compress_absorbs_line_breaks { compress := true } true rfl _ _ rfl
    rfl sampleTree sampleTree_wellFormed
  exact ⟨_, _, rfl, rfl, sampleTree_wellFormed, after, ran, ran'⟩

end Templating.Markup
