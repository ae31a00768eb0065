import Templating.Markup.Pass.Whitespace
import Templating.Proofs.Markup.RunEdit
import Templating.Proofs.Markup.Visits

/-!
# Passes that rewrite blanks

Separators are tidied, line breaks collapsed and blanks compressed. Each of these rewrites texts in
place and keeps what is solid in them, which `Tree.Retexted` says of the slots of the tree.

* `solid_keepLastBreak`, `solid_tidySeparator`: what is written keeps the solid characters.
* `Tree.Retexted.effect`: rewriting texts of the footprint is within what a visit may do.
* `interiorWhitespace_local`, `verticalWhitespace_local`, `compress_local`.
-/

namespace Templating.Markup

open Templating.Text

/-! ## Texts -/

theorem isBlank_of_isLineBreak {c : Char} (lineBreak : isLineBreak c = true) :
    isBlank c = true := by
  simp only [isLineBreak, Bool.or_eq_true, decide_eq_true_eq] at lineBreak
  rcases lineBreak with (((((rfl | rfl) | rfl) | rfl) | rfl) | rfl) | rfl <;> decide

theorem solid_keepLastBreak (text : List Char) : solid (keepLastBreak text) = solid text := by
  induction text with
  | nil => rfl
  | cons c rest ih =>
    rw [keepLastBreak]
    split
    · rename_i repeated
      rw [solid_cons_of_blank (isBlank_of_isLineBreak (Bool.and_eq_true_iff.mp repeated).1), ih]
    · simp only [solid, List.filter_cons] at ih ⊢
      rw [ih]

/-- What stands for a separator is blank. -/
theorem solid_tidySeparator {content tidy : String} {previous : Option String} {last : Bool}
    (written : tidySeparator content previous last = some tidy) : solid tidy.toList = [] := by
  unfold tidySeparator at written
  split at written
  · obtain rfl := Option.some.inj written
    cases last <;> decide
  · split at written
    · obtain rfl := Option.some.inj written
      split <;> decide
    · cases written

namespace Tree

theorem kind?_of_textContent? {tree : Tree} {id : NodeId} {content : String}
    (text : tree.textContent? id = some content) : tree.kind? id = some (.text content) := by
  unfold textContent? at text
  split at text
  · cases text
    assumption
  · cases text

/-- `after` is `before` with texts among `items` rewritten, but for what is solid in them. -/
structure Retexted (before : Tree) (items : List NodeId) (after : Tree) : Prop where
  size_eq : after.size = before.size
  slot : ∀ id node, before.get? id = some node → ∃ kind, after.get? id = some ⟨kind, node.parent⟩ ∧
    (kind = node.kind ∨
      (id ∈ items ∧ node.kind.shape = .text ∧ NodeKind.Retouch node.kind kind))

namespace Retexted

variable {before middle after : Tree} {items more : List NodeId} {id : NodeId}

theorem refl (tree : Tree) (items : List NodeId) : tree.Retexted items tree :=
  ⟨rfl, fun _ node slot => ⟨node.kind, slot, .inl rfl⟩⟩

theorem mono (retexted : before.Retexted items after) (subset : items ⊆ more) :
    before.Retexted more after where
  size_eq := retexted.size_eq
  slot := by
    intro id node slot
    obtain ⟨kind, changed, same | ⟨member, rewrite⟩⟩ := retexted.slot id node slot
    · exact ⟨kind, changed, .inl same⟩
    · exact ⟨kind, changed, .inr ⟨subset member, rewrite⟩⟩

theorem trans (first : before.Retexted items middle) (second : middle.Retexted items after) :
    before.Retexted items after where
  size_eq := second.size_eq.trans first.size_eq
  slot := by
    intro id node slot
    obtain ⟨kind, changed, rewrite⟩ := first.slot id node slot
    obtain ⟨kind', changed', rewrite'⟩ := second.slot id _ changed
    refine ⟨kind', changed', ?_⟩
    rcases rewrite' with rfl | ⟨member, isText, retouch'⟩
    · exact rewrite
    · rcases rewrite with rfl | ⟨-, isText', retouch⟩
      · exact .inr ⟨member, isText, retouch'⟩
      · exact .inr ⟨member, isText', retouch.trans retouch'⟩

/-- Writing one text. -/
theorem setText {old new : String} (known : before.kind? id = some (.text old))
    (solids : solid old.toList = solid new.toList) (member : id ∈ items) :
    before.Retexted items (before.setKind id (.text new)) where
  size_eq := size_setKind ..
  slot := by
    intro other node slot
    rw [get?_setKind, slot]
    split
    · rename_i same
      subst same
      have isText : node.kind = .text old :=
        Option.some.inj ((kind?_of_get? slot).symm.trans known)
      exact ⟨_, rfl, .inr ⟨member, isText ▸ rfl, isText ▸ .text solids⟩⟩
    · exact ⟨node.kind, rfl, .inl rfl⟩

/-- What is no text is kept. -/
theorem kind?_eq (retexted : before.Retexted items after) {kind : NodeKind}
    (known : before.kind? id = some kind) (noText : kind.shape ≠ .text) :
    after.kind? id = some kind := by
  obtain ⟨node, slot, rfl⟩ := exists_of_kind? known
  obtain ⟨kind', changed, rfl | ⟨-, isText, -⟩⟩ := retexted.slot id node slot
  · exact kind?_of_get? changed
  · exact absurd isText noText

/-- **Rewriting texts** of the footprint is within what a visit may do. -/
theorem effect (retexted : before.Retexted items after) (wf : before.WellFormed)
    (reach : before.Reachable id) (within : items ⊆ before.footprint id) :
    before.Effect id [] none after := by
  have touched : before.Touched id after := by
    refine touched_of_slots wf reach retexted.size_eq fun other node slot => ?_
    obtain ⟨kind, changed, same | ⟨member, isText, retouch⟩⟩ := retexted.slot other node slot
    · exact ⟨kind, changed, .inl same⟩
    · exact ⟨kind, changed, .inr ⟨within member, .inl isText, retouch⟩⟩
  refine ⟨touched, ?_, fun run element => ?_⟩
  · rw [retexted.size_eq]
    exact Nat.le_add_right _ _
  · have fragment := wf.kind?_attributeRun reach element
    have items := touched.attributeChildren_eq wf reach element
      (by rw [walkChildren, retexted.kind?_eq fragment (by simp [NodeKind.shape]), ← fragment]; rfl)
    refine .of_attributeChildren_eq touched.toRetouched wf reach items fun item member _ => ?_
    obtain ⟨kind, known, isAttr⟩ := (Option.any_eq_true ..).mp (List.mem_filter.mp member).2
    have shape : kind.shape = .attr := of_decide_eq_true isAttr
    rw [known, retexted.kind?_eq known (by rw [shape]; decide)]

end Retexted

end Tree

/-! ## Passes -/

/-- Tidying a run rewrites blank texts of the run. -/
theorem exists_tidyRun (items : List NodeId) :
    ∀ (previous : Option NodeId) (tree : Tree), ∃ after,
      tidyRun previous items tree = .ok () after ∧ tree.Retexted items after := by
  induction items with
  | nil => exact fun _ tree => ⟨tree, rfl, .refl tree _⟩
  | cons child rest ih =>
    intro previous tree
    have skip : ∃ after, tidyRun (some child) rest tree = .ok () after ∧
        tree.Retexted (child :: rest) after := by
      obtain ⟨after, outcome, retexted⟩ := ih (some child) tree
      exact ⟨after, outcome, retexted.mono (List.subset_cons_self child rest)⟩
    rw [tidyRun, Edit.get_bind]
    cases text : tree.textContent? child with
    | none => exact skip
    | some content =>
      cases blank : tree.isBlankText child with
      | false => exact skip
      | true =>
        cases written : tidySeparator content (previous.bind tree.textContent?) rest.isEmpty with
        | none => simpa only [if_true, written] using skip
        | some tidy =>
          have known := Tree.kind?_of_textContent? text
          have solids : solid content.toList = solid tidy.toList := by
            rw [Tree.isBlankText, text, Option.any_some, allBlank_iff] at blank
            rw [blank, solid_tidySeparator written]
          obtain ⟨after, outcome, retexted⟩ := ih (some child) (tree.setKind child (.text tidy))
          refine ⟨after, ?_, (Tree.Retexted.setText known solids List.mem_cons_self).trans
            (retexted.mono (List.subset_cons_self child rest))⟩
          simp only [if_true, written]
          exact (Edit.bind_of_ok (Edit.setText_of_text known tidy)).trans outcome

theorem interiorWhitespace_local : interiorWhitespace.Local .none := by
  refine .of_edit fun tree id wf visible => ?_
  obtain ⟨after, outcome, retexted⟩ := exists_tidyRun (tree.attributeChildren id) none tree
  refine ⟨after, outcome, retexted.effect wf visible.reachable ?_⟩
  cases element : tree.attributeRun? id with
  | none =>
    rw [Tree.attributeChildren, element]
    exact List.nil_subset _
  | some run =>
    obtain ⟨name, children, known⟩ := Tree.kind?_of_attributeRun? element
    rw [wf.attributeChildren_eq visible.reachable element, Tree.footprint, known]
    exact List.subset_cons_self _ _

/-- Changing a text in its blanks is within what a visit may do. -/
theorem exists_changeText {step : List Char → List Char}
    (solids : ∀ text, solid (step text) = solid text) {tree : Tree} {id : NodeId}
    (wf : tree.WellFormed) (reach : tree.Reachable id) :
    ∃ after, changeText step id tree = .ok () after ∧ tree.Effect id [] none after := by
  cases text : tree.textContent? id with
  | none =>
    refine ⟨tree, ?_, .unchanged wf reach _ _⟩
    rw [changeText, Edit.get_bind, text]
    rfl
  | some content =>
    have known := Tree.kind?_of_textContent? text
    have retexted : tree.Retexted [id]
        (tree.setKind id (.text (String.ofList (step content.toList)))) :=
      .setText known (by rw [String.toList_ofList, solids]) (List.mem_singleton_self id)
    refine ⟨_, ?_, retexted.effect wf reach ?_⟩
    · rw [changeText, Edit.get_bind, text]
      exact Edit.setText_of_text known _
    · rw [Tree.footprint, known]
      exact List.Subset.refl _

theorem verticalWhitespace_local (all : Bool) : (verticalWhitespace all).Local .none := by
  refine .of_edit fun tree id wf visible => ?_
  cases chosen : all || tree.isBlankText id with
  | false =>
    refine ⟨tree, ?_, .unchanged wf visible.reachable _ _⟩
    rw [Edit.get_bind, chosen]
    rfl
  | true =>
    obtain ⟨after, outcome, effect⟩ := exists_changeText solid_keepLastBreak wf visible.reachable
    refine ⟨after, ?_, effect⟩
    rw [Edit.get_bind, chosen]
    exact outcome

theorem compress_local : compress.Local .none :=
  .of_edit fun _ _ wf visible => exists_changeText (solid_collapseAfter false) wf visible.reachable

end Templating.Markup
