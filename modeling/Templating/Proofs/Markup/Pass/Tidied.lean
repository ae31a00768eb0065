import Templating.Proofs.Markup.Moment
import Templating.Proofs.Markup.Pass.Rewording
import Templating.Proofs.Markup.Pipeline

/-!
# Blanks that are left alone

What the passes leave that rewrite blanks, and that it rests: over a spaced tree, a second run of
them leaves every text as it is.

* `tidyRun_leaves`, `tidyRun_eq_self`: the separators of a run.
* `exists_interiorWhitespace`, `exists_textPass`: the walks, over separators and over single texts.
* `exists_blankPasses`: the passes one after the other, and once more on what they leave.
-/

namespace Templating.Markup

open Templating.Text

/-! ## Separators -/

namespace Tree

/-- The node is tidy if it is blank text. -/
def TidyItem (tree : Tree) (item : NodeId) : Prop :=
  ∀ content, tree.kind? item = some (.text content) → tree.isBlankText item = true → IsTidy content

theorem Reworded.tidyItem {before after : Tree} {item : NodeId}
    (reworded : before.Reworded IsTidy after)
    (tidy : before.TidyItem item) : after.TidyItem item := by
  intro content known blank
  rw [reworded.isBlankText_eq] at blank
  rcases reworded item with same | ⟨old, new, was, now, -, kept⟩
  · exact tidy content (same ▸ known) blank
  · cases known.symm.trans now
    exact kept (tidy old was blank)

/-- What tidying a run does to one of its items. -/
inductive Tidied (tree : Tree) (previous : Option NodeId) (item : NodeId) (last : Bool) :
    Tree → Prop
  | kept (nothing : ∀ content, tree.kind? item = some (.text content) →
      tree.isBlankText item = true →
      tidySeparator content (previous.bind tree.textContent?) last = none) :
    Tidied tree previous item last tree
  | rewritten {content tidy : String} (known : tree.kind? item = some (.text content))
      (blank : tree.isBlankText item = true)
      (written : tidySeparator content (previous.bind tree.textContent?) last = some tidy) :
    Tidied tree previous item last (tree.setKind item (.text tidy))

end Tree

/-- Tidying goes over the items from left to right. -/
theorem exists_tidied (tree : Tree) (previous : Option NodeId) (item : NodeId)
    (rest : List NodeId) : ∃ middle, tree.Tidied previous item rest.isEmpty middle ∧
      tidyRun previous (item :: rest) tree = tidyRun (some item) rest middle := by
  rw [tidyRun, Edit.get_bind]
  cases text : tree.textContent? item with
  | none =>
    refine ⟨tree, .kept fun content known => ?_, rfl⟩
    rw [Tree.textContent?, known] at text
    cases text
  | some content =>
    have known := Tree.kind?_of_textContent? text
    cases blank : tree.isBlankText item with
    | false =>
      refine ⟨tree, .kept fun _ _ blank' => ?_, rfl⟩
      rw [blank] at blank'
      cases blank'
    | true =>
      cases written : tidySeparator content (previous.bind tree.textContent?) rest.isEmpty with
      | none =>
        refine ⟨tree, .kept fun content' known' _ => ?_, ?_⟩
        · cases known.symm.trans known'
          exact written
        · simp only [if_true, written]
      | some tidy =>
        refine ⟨_, .rewritten known blank written, ?_⟩
        simp only [if_true, written]
        exact Edit.bind_of_ok (Edit.setText_of_text known tidy)

namespace Tree.SpacedItems

variable {tree : Tree} {previous : Option NodeId} {item : NodeId} {rest : List NodeId}

/-- A blank text stands behind no space. -/
theorem noSpace (spaced : tree.SpacedItems (previous.toList ++ item :: rest))
    (blank : tree.isBlankText item = true) :
    previous.bind tree.textContent? ≠ some separator := by
  cases previous with
  | none => exact nofun
  | some left =>
    have none := (List.isChain_cons_cons.mp spaced).1 blank
    rw [Option.bind_some, Option.isNone_iff_eq_none.mp none]
    exact nofun

theorem tail (spaced : tree.SpacedItems (previous.toList ++ item :: rest)) :
    tree.SpacedItems ((some item).toList ++ rest) := by
  cases previous with
  | none => exact spaced
  | some left => exact (List.isChain_cons_cons.mp spaced).2

end Tree.SpacedItems

namespace Tree.Tidied

variable {tree middle : Tree} {previous : Option NodeId} {item : NodeId} {last : Bool}

theorem reworded {keeps : String → Prop} (calm : Calm keeps)
    (tidied : tree.Tidied previous item last middle)
    (noSpace : tree.isBlankText item = true → previous.bind tree.textContent? ≠ some separator) :
    tree.Reworded keeps middle := by
  cases tidied with
  | kept => exact .refl tree
  | rewritten known blank written =>
    refine .setKind known ?_ fun holds => calm.tidied holds (noSpace blank) written
    rw [isBlankText, textContent?, known, Option.any_some, allBlank_iff] at blank
    rw [blank, solid_tidySeparator written]

theorem tidyItem (tidied : tree.Tidied previous item last middle) : middle.TidyItem item := by
  intro content known blank
  cases tidied with
  | kept nothing =>
    have isBlank := blank
    rw [isBlankText, textContent?, known, Option.any_some] at isBlank
    exact isTidy_of_kept isBlank (nothing content known blank)
  | rewritten was _ written =>
    rw [kind?_setKind_of_kind? was] at known
    cases known
    exact isTidy_tidySeparator written

theorem eq_self (tidied : tree.Tidied previous item last middle) (tidy : tree.TidyItem item)
    (noSpace : tree.isBlankText item = true → previous.bind tree.textContent? ≠ some separator) :
    middle = tree := by
  cases tidied with
  | kept => rfl
  | @rewritten content tidy' known blank written =>
    rcases tidySeparator_of_isTidy (tidy content known blank) (noSpace blank) last with same | none
    · rw [written] at same
      cases same
      exact setKind_self known
    · rw [written] at none
      cases none

end Tree.Tidied

/-- Tidying a spaced run keeps what is true of its texts, and leaves it tidy. -/
theorem tidyRun_leaves {items : List NodeId} (previous : Option NodeId) {tree after : Tree}
    (spaced : tree.SpacedItems (previous.toList ++ items))
    (outcome : tidyRun previous items tree = .ok () after) :
    (∀ keeps, Calm keeps → tree.Reworded keeps after) ∧ ∀ item ∈ items, after.TidyItem item := by
  induction items generalizing previous tree with
  | nil =>
    cases outcome
    exact ⟨fun keeps _ => .refl _, nofun⟩
  | cons item rest ih =>
    obtain ⟨middle, tidied, step⟩ := exists_tidied tree previous item rest
    have reworded : ∀ keeps, Calm keeps → tree.Reworded keeps middle := fun keeps calm =>
      tidied.reworded calm spaced.noSpace
    have spaced' := (reworded _ calm_isTidy).spacedItems spaced.tail
    obtain ⟨reworded', tidy⟩ := ih (some item) spaced' (step ▸ outcome)
    refine ⟨fun keeps calm => (reworded keeps calm).trans (reworded' keeps calm), ?_⟩
    intro other member
    rcases List.mem_cons.mp member with rfl | member
    · exact (reworded' _ calm_isTidy).tidyItem tidied.tidyItem
    · exact tidy other member

/-- Tidying a run that is spaced and tidy changes nothing. -/
theorem tidyRun_eq_self {items : List NodeId} (previous : Option NodeId) {tree : Tree}
    (spaced : tree.SpacedItems (previous.toList ++ items))
    (tidy : ∀ item ∈ items, tree.TidyItem item) :
    tidyRun previous items tree = .ok () tree := by
  induction items generalizing previous with
  | nil => rfl
  | cons item rest ih =>
    obtain ⟨middle, tidied, step⟩ := exists_tidied tree previous item rest
    obtain rfl := tidied.eq_self (tidy item List.mem_cons_self) spaced.noSpace
    rw [step]
    exact ih (some item) spaced.tail fun other member => tidy other (List.mem_cons_of_mem _ member)

/-! ## Single texts -/

section

variable {step : List Char → List Char} {tree after : Tree} {id : NodeId}

/-- Changing a text keeps what is true of texts when the step does, and leaves the text changed. -/
theorem changeText_leaves (solids : ∀ text, solid (step text) = solid text)
    (outcome : changeText step id tree = .ok () after) :
    (∀ keeps : String → Prop,
      (∀ content, keeps content → keeps (String.ofList (step content.toList))) →
      tree.Reworded keeps after) ∧
    ∀ content, after.kind? id = some (.text content) →
      ∃ old : String, content = String.ofList (step old.toList) := by
  rw [changeText, Edit.get_bind] at outcome
  cases text : tree.textContent? id with
  | none =>
    rw [text] at outcome
    cases outcome
    refine ⟨fun keeps _ => .refl tree, fun content known => ?_⟩
    rw [Tree.textContent?, known] at text
    cases text
  | some old =>
    have known := Tree.kind?_of_textContent? text
    rw [text] at outcome
    cases outcome.symm.trans (Edit.setText_of_text known _)
    refine ⟨fun keeps kept => ?_, fun content now => ?_⟩
    · refine .setKind known ?_ (kept old)
      rw [String.toList_ofList, solids]
    · rw [Tree.kind?_setKind_of_kind? known] at now
      cases now
      exact ⟨old, rfl⟩

/-- Changing a text that the step keeps changes nothing. -/
theorem changeText_eq_self
    (fixed : ∀ content, tree.kind? id = some (.text content) →
      step content.toList = content.toList) :
    changeText step id tree = .ok () tree := by
  rw [changeText, Edit.get_bind]
  cases text : tree.textContent? id with
  | none => rfl
  | some content =>
    have known := Tree.kind?_of_textContent? text
    refine (Edit.setText_of_text known _).trans ?_
    rw [fixed content known, String.ofList_toList, Tree.setKind_self known]

end

/-! ## Walks -/

/-- All blank texts of the attribute runs in view are tidy. -/
def Tree.TidyRuns (tree : Tree) : Prop :=
  ∀ id, tree.Visible id → ∀ item ∈ tree.attributeChildren id, tree.TidyItem item

/-- The texts in view, or the blank ones of them, are not changed by the step. -/
def Tree.Stepped (tree : Tree) (all : Bool) (step : List Char → List Char) : Prop :=
  ∀ id, tree.Visible id → ∀ content, tree.kind? id = some (.text content) →
    (all || tree.isBlankText id) = true → step content.toList = content.toList

theorem Tree.Reworded.tidyRuns {before after : Tree} (reworded : before.Reworded IsTidy after)
    (tidy : before.TidyRuns) : after.TidyRuns := by
  intro id visible item member
  rw [reworded.attributeChildren_eq] at member
  exact reworded.tidyItem (tidy id (reworded.visible_iff.mp visible) item member)

/-- **Tidying separators** keeps spaced runs spaced and leaves them tidy. -/
theorem exists_interiorWhitespace {start : Tree} (wf : start.WellFormed) (spaced : start.Spaced) :
    ∃ final, interiorWhitespace.walk start = .ok () final ∧ final.WellFormed ∧
      start.Preserved final ∧ (∀ keeps, Calm keeps → start.Reworded keeps final) ∧
      final.TidyRuns := by
  obtain ⟨log, final, walked, visits, wf', visited⟩ :=
    Pass.Local.exists_finished interiorWhitespace_local wf
  have leaves {tree final : Tree} {log : Log} (spaced : tree.Spaced)
      (visits : Visits interiorWhitespace .none tree log final) :
      ∀ keeps, Calm keeps → tree.Reworded keeps final := by
    refine visits.rel_of_visit
      (fun before after => before.Spaced → ∀ keeps, Calm keeps → before.Reworded keeps after)
      (fun _ _ _ _ => .refl _) ?_ ?_ spaced
    · intro before middle after first second spaced keeps calm
      have spaced' := (first spaced _ calm_isTidy).spaced spaced
      exact (first spaced keeps calm).trans (second spaced' keeps calm)
    · intro before after id descent _ seen outcome _ spaced
      exact (tidyRun_leaves none (spaced id seen) (Pass.visit_ofEdit.mp outcome).2).1
  refine ⟨final, walked, wf', visits.preserved, leaves spaced visits, ?_⟩
  intro id visible item member
  obtain ⟨earlier, later, before, after, -, made, -, seen, outcome, -, rest⟩ :=
    visits.split (visited id visible)
  have spaced' := (leaves spaced made _ calm_isTidy).spaced spaced
  obtain ⟨reworded, tidy⟩ := tidyRun_leaves none (spaced' id seen)
    (Pass.visit_ofEdit.mp outcome).2
  have spaced'' := (reworded _ calm_isTidy).spaced spaced'
  have later' := leaves spaced'' rest _ calm_isTidy
  rw [later'.attributeChildren_eq, (reworded _ calm_isTidy).attributeChildren_eq] at member
  exact later'.tidyItem (tidy item member)

/-- Tidy separators are left alone. -/
theorem interiorWhitespace_eq_self {tree : Tree} (wf : tree.WellFormed) (spaced : tree.Spaced)
    (tidy : tree.TidyRuns) : interiorWhitespace.walk tree = .ok () tree :=
  Pass.Local.walk_eq_self_of_visible interiorWhitespace_local wf fun id visible =>
    tidyRun_eq_self none (spaced id visible) (tidy id visible)

section

variable {name : String} {edit : NodeId → Edit Unit} (all : Bool) {step : List Char → List Char}
  (edits : ∀ id tree, edit id tree =
    if all || tree.isBlankText id then changeText step id tree else .ok () tree)
  (isLocal : (Pass.ofEdit name edit).Local .none)

include edits isLocal

/-- **A pass that takes the same step in every text**, or in every blank one, keeps what the step
keeps, and leaves texts that the step keeps when a second step changes nothing. -/
theorem exists_textPass (solids : ∀ text, solid (step text) = solid text)
    (twice : ∀ text, step (step text) = step text) {start : Tree} (wf : start.WellFormed) :
    ∃ final, (Pass.ofEdit name edit).walk start = .ok () final ∧ final.WellFormed ∧
      start.Preserved final ∧
      (∀ keeps : String → Prop,
        (∀ content, keeps content → keeps (String.ofList (step content.toList))) →
        start.Reworded keeps final) ∧ final.Stepped all step := by
  obtain ⟨log, final, walked, visits, wf', visited⟩ := isLocal.exists_finished wf
  have leaves {tree final : Tree} {log : Log} (keeps : String → Prop)
      (kept : ∀ content, keeps content → keeps (String.ofList (step content.toList)))
      (visits : Visits (Pass.ofEdit name edit) .none tree log final) :
      tree.Reworded keeps final := by
    refine visits.rel_of_visit _ .refl .trans fun {before after id descent} _ _ outcome _ => ?_
    have edited := (Pass.visit_ofEdit.mp outcome).2
    rw [edits] at edited
    split at edited
    · exact (changeText_leaves solids edited).1 keeps kept
    · cases edited
      exact .refl _
  refine ⟨final, walked, wf', visits.preserved, fun keeps kept => leaves keeps kept visits, ?_⟩
  intro id visible content known chosen
  obtain ⟨earlier, later, before, after, -, made, -, seen, outcome, -, rest⟩ :=
    visits.split (visited id visible)
  have edited := (Pass.visit_ofEdit.mp outcome).2
  have blank : final.isBlankText id = before.isBlankText id := by
    rw [(leaves (fun _ => True) (fun _ _ => trivial) visits).isBlankText_eq,
      (leaves (fun _ => True) (fun _ _ => trivial) made).isBlankText_eq]
  rw [edits, ← blank, if_pos chosen] at edited
  -- The text is fixed when it has been visited, and no later step unfixes it.
  have later' : after.Reworded (fun content => step content.toList = content.toList) final := by
    refine leaves _ (fun old fixed => ?_) rest
    rw [String.toList_ofList, twice]
  rcases later' id with same | ⟨old, new, was, now, -, kept⟩
  · obtain ⟨old, rfl⟩ := (changeText_leaves solids edited).2 content (same ▸ known)
    rw [String.toList_ofList, twice]
  · cases known.symm.trans now
    refine kept ?_
    obtain ⟨first, rfl⟩ := (changeText_leaves solids edited).2 old was
    rw [String.toList_ofList, twice]

/-- Texts that the step keeps are left alone. -/
theorem textPass_eq_self {tree : Tree} (wf : tree.WellFormed) (stepped : tree.Stepped all step) :
    (Pass.ofEdit name edit).walk tree = .ok () tree := by
  refine isLocal.walk_eq_self_of_visible wf fun id visible => ?_
  rw [edits]
  split
  · rename_i chosen
    exact changeText_eq_self fun content known => stepped id visible content known chosen
  · rfl

end

/-! ## The passes one after the other -/

/-- The passes that rewrite blanks, in their order. -/
def blankPasses (all squeeze : Bool) : Pipeline :=
  [interiorWhitespace, verticalWhitespace all] ++ if squeeze then [compress] else []

section

variable {start : Tree} (all : Bool)

theorem exists_verticalWhitespace (wf : start.WellFormed) :
    ∃ final, (verticalWhitespace all).walk start = .ok () final ∧ final.WellFormed ∧
      start.Preserved final ∧ (∀ keeps, Calm keeps → start.Reworded keeps final) ∧
      final.Stepped all keepLastBreak := by
  obtain ⟨final, walked, wf', preserved, leaves, stepped⟩ := exists_textPass all
    (fun id tree => by
      rw [Edit.get_bind]
      split <;> rfl)
    (verticalWhitespace_local all) solid_keepLastBreak keepLastBreak_keepLastBreak wf
  exact ⟨final, walked, wf', preserved, fun keeps calm => leaves keeps fun _ => calm.broken,
    stepped⟩

theorem exists_compress (wf : start.WellFormed) :
    ∃ final, compress.walk start = .ok () final ∧ final.WellFormed ∧
      start.Preserved final ∧ (∀ keeps, Calm keeps → start.Reworded keeps final) ∧
      final.Stepped true collapseBlanks := by
  obtain ⟨final, walked, wf', preserved, leaves, stepped⟩ := exists_textPass true
    (fun id tree => rfl) compress_local (solid_collapseAfter false)
    (collapseAfter_collapseAfter false) wf
  exact ⟨final, walked, wf', preserved, fun keeps calm => leaves keeps fun _ => calm.collapsed,
    stepped⟩

end

/-- What the passes leave alone. -/
theorem blankPasses_eq_self {tree : Tree} {all squeeze : Bool} (wf : tree.WellFormed)
    (spaced : tree.Spaced) (tidy : tree.TidyRuns) (broken : tree.Stepped all keepLastBreak)
    (squeezed : squeeze = true → tree.Stepped true collapseBlanks) :
    Pipeline.run (blankPasses all squeeze) tree = .ok () tree := by
  have vertical : (verticalWhitespace all).walk tree = .ok () tree :=
    textPass_eq_self all (fun id tree => by
      rw [Edit.get_bind]
      split <;> rfl) (verticalWhitespace_local all) wf broken
  refine (Pipeline.run_cons _ (interiorWhitespace_eq_self wf spaced tidy)).trans ?_
  refine (Pipeline.run_cons _ vertical).trans ?_
  cases squeeze with
  | false => rfl
  | true =>
    exact Pipeline.run_cons [] (textPass_eq_self true (fun id tree => rfl) compress_local wf
      (squeezed rfl))

/-- **The passes that rewrite blanks** keep what is true of texts and are done after one run: a
second one leaves the tree as it is. -/
theorem exists_blankPasses (all squeeze : Bool) {start : Tree} (wf : start.WellFormed)
    (spaced : start.Spaced) :
    ∃ final, Pipeline.run (blankPasses all squeeze) start = .ok () final ∧ final.WellFormed ∧
      start.Preserved final ∧ (∀ keeps, Calm keeps → start.Reworded keeps final) ∧
      Pipeline.run (blankPasses all squeeze) final = .ok () final := by
  obtain ⟨tidied, walkedTidy, wfTidy, preserved, reworded, tidy⟩ :=
    exists_interiorWhitespace wf spaced
  obtain ⟨broken, walkedBroken, wfBroken, preserved', reworded', stepped⟩ :=
    exists_verticalWhitespace all wfTidy
  have rewordedBroken : ∀ keeps, Calm keeps → start.Reworded keeps broken := fun keeps calm =>
    (reworded keeps calm).trans (reworded' keeps calm)
  have spacedBroken := (rewordedBroken _ calm_isTidy).spaced spaced
  have tidyBroken := (reworded' _ calm_isTidy).tidyRuns tidy
  have ran (rest : Pipeline) : Pipeline.run (interiorWhitespace :: verticalWhitespace all :: rest)
      start = Pipeline.run rest broken :=
    (Pipeline.run_cons _ walkedTidy).trans (Pipeline.run_cons _ walkedBroken)
  cases squeeze with
  | false =>
    exact ⟨broken, ran [], wfBroken, preserved.trans preserved', rewordedBroken,
      blankPasses_eq_self wfBroken spacedBroken tidyBroken stepped nofun⟩
  | true =>
    obtain ⟨final, walked, wfFinal, preserved'', reworded'', squeezed⟩ := exists_compress wfBroken
    have brokenFinal : final.Stepped all keepLastBreak := fun id visible content known _ =>
      keepLastBreak_of_collapsed (squeezed id visible content known rfl)
    exact ⟨final, (ran [compress]).trans (Pipeline.run_cons [] walked), wfFinal,
      (preserved.trans preserved').trans preserved'',
      fun keeps calm => (rewordedBroken keeps calm).trans (reworded'' keeps calm),
      blankPasses_eq_self wfFinal ((reworded'' _ calm_isTidy).spaced spacedBroken)
        ((reworded'' _ calm_isTidy).tidyRuns tidyBroken) brokenFinal fun _ => squeezed⟩

end Templating.Markup
