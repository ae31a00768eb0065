import Mathlib.Data.List.Chain
import Templating.Proofs.Markup.Pass.Blanks

/-!
# Rewording blanks

The passes that rewrite blanks leave texts that they do not rewrite again. A separator is tidy when
it is a single space or nothing but carriage returns; a text has its line breaks collapsed, or its
blanks, when doing so once more changes nothing.

`Tree.Reworded` says of a tree that texts of it were rewritten in their blanks, and that what was
true of them before is still so. Each of the steps keeps a predicate of texts that is `Calm`, and so
none undoes what those before it have done.

* `breaks_or_inline_or_returns`: the three kinds of blank text, and what is written for each.
* `keepLastBreak_keepLastBreak`, `tidySeparator_of_isTidy`: the steps on one text.
* `calm_separator`, `calm_isTidy`: what all steps keep.
* `Tree.Spaced`: no blank text of a run stands behind a text, so that it never matters to a
  separator what was in front of it.
-/

namespace Templating.Markup

open Templating.Text

/-! ## Kinds of blank text -/

/-- The text holds a line feed. -/
def BreaksLine (text : String) : Prop :=
  '\n' ∈ text.toList

/-- The text holds no line feed, and a blank that does not end a line. -/
def IsInline (text : String) : Prop :=
  ¬ BreaksLine text ∧ text.toList.any isInlineBlank = true

instance (text : String) : Decidable (BreaksLine text) :=
  inferInstanceAs (Decidable ('\n' ∈ text.toList))

instance (text : String) : Decidable (IsInline text) :=
  inferInstanceAs (Decidable (¬ BreaksLine text ∧ text.toList.any isInlineBlank = true))

section

variable {text : String}

theorem tidySeparator_of_breaks (breaks : BreaksLine text) (previous : Option String)
    (last : Bool) :
    tidySeparator text previous last = some (if last then "" else separator) :=
  if_pos (List.contains_iff_mem.mpr breaks)

theorem tidySeparator_of_inline (inline : IsInline text) (previous : Option String) (last : Bool) :
    tidySeparator text previous last =
      some (if previous = some separator then "" else separator) := by
  have noFeed : ¬ text.toList.contains '\n' = true := mt List.contains_iff_mem.mp inline.1
  rw [tidySeparator, if_neg noFeed, if_pos inline.2]

theorem not_inline_of_returns (returns : ∀ c ∈ text.toList, c = '\r') :
    ¬ text.toList.any isInlineBlank = true := by
  intro inline
  obtain ⟨c, member, isInline⟩ := List.any_eq_true.mp inline
  rw [returns c member] at isInline
  exact absurd isInline (by decide)

/-- Carriage returns are kept, and so is the empty text. -/
theorem tidySeparator_of_returns (returns : ∀ c ∈ text.toList, c = '\r') (previous : Option String)
    (last : Bool) : tidySeparator text previous last = none := by
  have noFeed : ¬ text.toList.contains '\n' = true := fun feed =>
    absurd (returns '\n' (List.contains_iff_mem.mp feed)) (by decide)
  rw [tidySeparator, if_neg noFeed, if_neg (not_inline_of_returns returns)]

theorem breaks_or_inline_or_returns (blank : allBlank text.toList = true) :
    BreaksLine text ∨ IsInline text ∨ ∀ c ∈ text.toList, c = '\r' := by
  by_cases breaks : BreaksLine text
  · exact .inl breaks
  by_cases inline : text.toList.any isInlineBlank = true
  · exact .inr (.inl ⟨breaks, inline⟩)
  refine .inr (.inr fun c member => ?_)
  have isBlank : isBlank c = true := List.all_eq_true.mp blank c member
  by_contra noReturn
  refine inline (List.any_eq_true.mpr ⟨c, member, ?_⟩)
  have noFeed : c ≠ '\n' := by
    rintro rfl
    exact breaks member
  simp [isInlineBlank, isBlank, noFeed, noReturn]

end

/-! ## Texts -/

/-- A separator that is left alone: a single space, or nothing but carriage returns. -/
def IsTidy (content : String) : Prop :=
  content = separator ∨ ∀ c ∈ content.toList, c = '\r'

theorem isTidy_separator : IsTidy separator := .inl rfl

/-- What is written for a separator is tidy. -/
theorem isTidy_tidySeparator {content tidy : String} {previous : Option String} {last : Bool}
    (written : tidySeparator content previous last = some tidy) : IsTidy tidy := by
  have empty : IsTidy "" := .inr fun c member => by cases member
  unfold tidySeparator at written
  split at written
  · obtain rfl := Option.some.inj written
    cases last
    · exact isTidy_separator
    · exact empty
  · split at written
    · obtain rfl := Option.some.inj written
      split
      · exact empty
      · exact isTidy_separator
    · cases written

/-- A blank text for which nothing is written is tidy. -/
theorem isTidy_of_kept {content : String} {previous : Option String} {last : Bool}
    (blank : allBlank content.toList = true)
    (kept : tidySeparator content previous last = none) : IsTidy content := by
  rcases breaks_or_inline_or_returns blank with breaks | inline | returns
  · rw [tidySeparator_of_breaks breaks] at kept
    cases kept
  · rw [tidySeparator_of_inline inline] at kept
    cases kept
  · exact .inr returns

/-- What is tidy is written as it is, or kept, unless it stands behind a space. -/
theorem tidySeparator_of_isTidy {content : String} {previous : Option String}
    (tidy : IsTidy content) (noSpace : previous ≠ some separator) (last : Bool) :
    tidySeparator content previous last = some content ∨
      tidySeparator content previous last = none := by
  rcases tidy with rfl | returns
  · left
    have inline : IsInline separator := by decide
    rw [tidySeparator_of_inline inline, if_neg noSpace]
  · exact .inr (tidySeparator_of_returns returns previous last)

theorem mem_of_mem_keepLastBreak {text : List Char} {c : Char} (member : c ∈ keepLastBreak text) :
    c ∈ text := by
  induction text with
  | nil => exact member
  | cons d rest ih =>
    rw [keepLastBreak] at member
    split at member
    · exact List.mem_cons_of_mem _ (ih member)
    · rcases List.mem_cons.mp member with rfl | member
      · exact List.mem_cons_self
      · exact List.mem_cons_of_mem _ (ih member)

/-- A text begins with a line break as it did. -/
theorem head?_keepLastBreak (text : List Char) :
    (keepLastBreak text).head?.any isLineBreak = text.head?.any isLineBreak := by
  induction text with
  | nil => rfl
  | cons c rest ih =>
    rw [keepLastBreak]
    split
    · rename_i repeated
      obtain ⟨first, second⟩ := Bool.and_eq_true_iff.mp repeated
      rw [ih, second, List.head?_cons, Option.any_some, first]
    · rfl

/-- Collapsing line breaks a second time changes nothing. -/
theorem keepLastBreak_keepLastBreak (text : List Char) :
    keepLastBreak (keepLastBreak text) = keepLastBreak text := by
  induction text with
  | nil => rfl
  | cons c rest ih =>
    rw [keepLastBreak]
    split
    · exact ih
    · rename_i single
      rw [keepLastBreak, head?_keepLastBreak, if_neg single, ih]

theorem keepLastBreak_of_no_break {text : List Char}
    (noBreak : ∀ c ∈ text, isLineBreak c = false) : keepLastBreak text = text := by
  induction text with
  | nil => rfl
  | cons c rest ih =>
    have single : ¬ (isLineBreak c && rest.head?.any isLineBreak) = true := by
      rw [noBreak c List.mem_cons_self]
      exact Bool.false_ne_true
    rw [keepLastBreak, if_neg single, ih fun d member => noBreak d (List.mem_cons_of_mem _ member)]

/-- A text in which blanks have been collapsed has no line break. -/
theorem keepLastBreak_of_collapsed {text : List Char} (collapsed : collapseBlanks text = text) :
    keepLastBreak text = text := by
  refine keepLastBreak_of_no_break fun c member => ?_
  rw [← collapsed] at member
  by_contra lineBreak
  rw [Bool.not_eq_false] at lineBreak
  obtain rfl := eq_space_of_mem_collapseAfter member (isBlank_of_isLineBreak lineBreak)
  cases lineBreak

/-- What is true of a text is still so when blanks of it have been rewritten. A separator stands
behind no space here. -/
structure Calm (keeps : String → Prop) : Prop where
  tidied : ∀ {content previous last tidy}, keeps content → previous ≠ some separator →
    tidySeparator content previous last = some tidy → keeps tidy
  broken : ∀ {content : String}, keeps content →
    keeps (String.ofList (keepLastBreak content.toList))
  collapsed : ∀ {content : String}, keeps content →
    keeps (String.ofList (collapseBlanks content.toList))

theorem calm_separator : Calm (· = separator) where
  tidied := by
    rintro content previous last tidy rfl noSpace written
    rcases tidySeparator_of_isTidy isTidy_separator noSpace last with same | none
    · exact Option.some.inj (written.symm.trans same)
    · rw [none] at written
      cases written
  broken := by
    rintro content rfl
    rfl
  collapsed := by
    rintro content rfl
    rfl

theorem calm_isTidy : Calm IsTidy where
  tidied := fun _ _ written => isTidy_tidySeparator written
  broken := by
    intro content tidy
    rcases tidy with rfl | returns
    · exact isTidy_separator
    · refine .inr fun c member => returns c ?_
      rw [String.toList_ofList] at member
      exact mem_of_mem_keepLastBreak member
  collapsed := by
    intro content tidy
    rcases tidy with rfl | returns
    · exact isTidy_separator
    · have blank : ∀ c ∈ content.toList, isBlank c = true := by
        intro c member
        rw [returns c member]
        decide
      rcases (collapseAfter_of_allBlank blank).2 with none | space
      · rw [collapseBlanks, none]
        exact .inr fun c member => by cases member
      · rw [collapseBlanks, space]
        exact isTidy_separator

/-! ## Trees -/

namespace Tree

/-- A node that gets the kind which it has is kept. -/
theorem setKind_self {tree : Tree} {id : NodeId} {kind : NodeKind}
    (known : tree.kind? id = some kind) : tree.setKind id kind = tree := by
  refine ext_get? fun other => ?_
  rw [get?_setKind]
  split
  · rename_i same
    subst same
    obtain ⟨node, slot, rfl⟩ := exists_of_kind? known
    rw [slot]
    rfl
  · rfl

theorem kind?_setKind_of_kind? {tree : Tree} {id : NodeId} {old new : NodeKind}
    (known : tree.kind? id = some old) : (tree.setKind id new).kind? id = some new := by
  obtain ⟨node, slot, -⟩ := exists_of_kind? known
  rw [kind?, get?_setKind, if_pos rfl, slot]
  rfl

/-- Texts of `before` are rewritten in their blanks, and what `keeps` says of one stays true. -/
def Reworded (keeps : String → Prop) (before after : Tree) : Prop :=
  ∀ id, after.kind? id = before.kind? id ∨
    ∃ old new, before.kind? id = some (.text old) ∧ after.kind? id = some (.text new) ∧
      solid old.toList = solid new.toList ∧ (keeps old → keeps new)

namespace Reworded

variable {keeps : String → Prop} {before middle after : Tree} {id : NodeId}

theorem refl (tree : Tree) : tree.Reworded keeps tree := fun _ => .inl rfl

theorem trans (first : before.Reworded keeps middle) (second : middle.Reworded keeps after) :
    before.Reworded keeps after := by
  intro id
  rcases second id with same | ⟨old, new, was, now, solids, kept⟩
  · rw [same]
    exact first id
  · rcases first id with same | ⟨first, old', was', now', solids', kept'⟩
    · exact .inr ⟨old, new, same ▸ was, now, solids, kept⟩
    · cases was.symm.trans now'
      exact .inr ⟨first, new, was', now, solids'.trans solids, fun holds => kept (kept' holds)⟩

theorem setKind {old new : String} (known : before.kind? id = some (.text old))
    (solids : solid old.toList = solid new.toList) (kept : keeps old → keeps new) :
    before.Reworded keeps (before.setKind id (.text new)) := by
  intro other
  by_cases same : id = other
  · subst same
    exact .inr ⟨old, new, known, kind?_setKind_of_kind? known, solids, kept⟩
  · exact .inl (kind?_setKind_of_ne same)

/-- A text stays a text. -/
theorem text (reworded : before.Reworded keeps after) {old : String}
    (known : before.kind? id = some (.text old)) :
    ∃ new, after.kind? id = some (.text new) ∧ (keeps old → keeps new) := by
  rcases reworded id with same | ⟨old', new, was, now, -, kept⟩
  · exact ⟨old, same.trans known, fun holds => holds⟩
  · cases known.symm.trans was
    exact ⟨new, now, kept⟩

/-- What does not look into texts is not changed. -/
theorem congr {α : Type} (reworded : before.Reworded keeps after) (view : Option NodeKind → α)
    (blind : ∀ old new, view (some (.text old)) = view (some (.text new))) (id : NodeId) :
    view (after.kind? id) = view (before.kind? id) := by
  rcases reworded id with same | ⟨old, new, was, now, -⟩
  · rw [same]
  · rw [was, now, blind old new]

theorem attributeRun?_eq (reworded : before.Reworded keeps after) (id : NodeId) :
    after.attributeRun? id = before.attributeRun? id := by
  rcases reworded id with same | ⟨old, new, was, now, -⟩
  · rw [attributeRun?, attributeRun?, same]
  · rw [attributeRun?, attributeRun?, was, now]

theorem isExpression_eq (reworded : before.Reworded keeps after) (id : NodeId) :
    after.isExpression id = before.isExpression id := by
  rcases reworded id with same | ⟨old, new, was, now, -⟩
  · rw [isExpression, isExpression, same]
  · rw [isExpression, isExpression, was, now]
    rfl

theorem walkChildren_eq (reworded : before.Reworded keeps after) (id : NodeId) :
    after.walkChildren id = before.walkChildren id :=
  reworded.congr (fun kind => (kind.map NodeKind.walkChildren).getD []) (fun _ _ => rfl) id

theorem content_eq (reworded : before.Reworded keeps after) (id : NodeId) :
    after.content id = before.content id :=
  reworded.congr (fun kind => (kind.bind NodeKind.content?).getD []) (fun _ _ => rfl) id

theorem attributeChildren_eq (reworded : before.Reworded keeps after) (id : NodeId) :
    after.attributeChildren id = before.attributeChildren id := by
  rw [attributeChildren, attributeChildren, reworded.attributeRun?_eq]
  cases before.attributeRun? id with
  | none => rfl
  | some run => exact reworded.content_eq run

theorem isAttribute_eq (reworded : before.Reworded keeps after) (id : NodeId) :
    after.isAttribute id = before.isAttribute id := by
  rcases reworded id with same | ⟨old, new, was, now, -⟩
  · rw [isAttribute, isAttribute, same]
  · rw [isAttribute, isAttribute, was, now]
    rfl

/-- Attributes are not changed. -/
theorem kind?_eq_of_isAttribute (reworded : before.Reworded keeps after)
    (isAttr : before.isAttribute id = true) : after.kind? id = before.kind? id := by
  rcases reworded id with same | ⟨old, -, was, -⟩
  · exact same
  · rw [isAttribute_of_text was] at isAttr
    cases isAttr

theorem rankedAttribute?_eq (reworded : before.Reworded keeps after) (rank : Rank) (id : NodeId) :
    after.rankedAttribute? rank id = before.rankedAttribute? rank id := by
  rcases reworded id with same | ⟨old, new, was, now, -⟩
  · rw [rankedAttribute?, rankedAttribute?, same]
  · rw [rankedAttribute?, rankedAttribute?, was, now]

theorem hasLiteralName_eq (reworded : before.Reworded keeps after) (name : String) (id : NodeId) :
    after.hasLiteralName name id = before.hasLiteralName name id :=
  reworded.congr (fun kind => (kind.bind NodeKind.literalName?).any (sameName · name))
    (fun _ _ => rfl) id

theorem isBlankText_eq (reworded : before.Reworded keeps after) (id : NodeId) :
    after.isBlankText id = before.isBlankText id := by
  rcases reworded id with same | ⟨old, new, was, now, solids, -⟩
  · rw [isBlankText, isBlankText, textContent?, textContent?, same]
  · rw [isBlankText, isBlankText, textContent?, textContent?, was, now, Option.any_some,
      Option.any_some, Bool.eq_iff_iff, allBlank_iff, allBlank_iff, solids]

theorem isText_eq (reworded : before.Reworded keeps after) (id : NodeId) :
    (after.textContent? id).isNone = (before.textContent? id).isNone := by
  rcases reworded id with same | ⟨old, new, was, now, -⟩
  · rw [textContent?, textContent?, same]
  · rw [textContent?, textContent?, was, now]
    rfl

theorem isOtherRunChild_eq (reworded : before.Reworded keeps after) (id : NodeId) :
    after.isOtherRunChild id = before.isOtherRunChild id := by
  have isAttr := reworded.isAttribute_eq id
  rw [isAttribute, isAttribute] at isAttr
  rw [isOtherRunChild, isOtherRunChild, isAttr, reworded.isBlankText_eq]

/-- The same nodes are in view. -/
theorem visible_iff (reworded : before.Reworded keeps after) :
    after.Visible id ↔ before.Visible id := by
  have shows : after.Shows = before.Shows := by
    funext holder held
    rw [Shows, Shows, Holds, Holds, reworded.isExpression_eq, reworded.walkChildren_eq]
  rw [Visible, Visible, shows]

end Reworded

/-! ## Runs -/

/-- No blank text of the list stands behind a text. -/
def SpacedItems (tree : Tree) (items : List NodeId) : Prop :=
  items.IsChain fun left right =>
    tree.isBlankText right = true → (tree.textContent? left).isNone = true

/-- Items stay spaced that are texts and blank as they were. -/
theorem SpacedItems.congr {before after : Tree} {items : List NodeId}
    (spaced : before.SpacedItems items)
    (blank : ∀ item ∈ items, after.isBlankText item = before.isBlankText item)
    (text : ∀ item ∈ items,
      (after.textContent? item).isNone = (before.textContent? item).isNone) :
    after.SpacedItems items := by
  refine spaced.imp_of_mem_imp fun left right inLeft inRight behind => ?_
  rw [blank right inRight, text left inLeft]
  exact behind

/-- Old items stay spaced. -/
theorem Retouched.spacedItems {before after : Tree} {items : List NodeId}
    (retouched : before.Retouched after) (inside : ∀ item ∈ items, item < before.size)
    (spaced : before.SpacedItems items) : after.SpacedItems items := by
  refine spaced.congr (fun item member => retouched.isBlankText_eq (inside item member)) ?_
  intro item member
  obtain ⟨node, known⟩ := exists_get? (inside item member)
  obtain ⟨kind, changed, retouch⟩ := retouched.slot item node known
  rw [textContent?, textContent?, kind?_of_get? known, kind?_of_get? changed]
  generalize node.kind = old at retouch
  cases retouch <;> rfl

/-- In no attribute run in view does a blank text stand behind a text. -/
def Spaced (tree : Tree) : Prop :=
  ∀ id, tree.Visible id → tree.SpacedItems (tree.attributeChildren id)

namespace Reworded

variable {keeps : String → Prop} {before after : Tree} {items : List NodeId}

theorem spacedItems (reworded : before.Reworded keeps after) (spaced : before.SpacedItems items) :
    after.SpacedItems items :=
  spaced.congr (fun item _ => reworded.isBlankText_eq item) fun item _ => reworded.isText_eq item

theorem spaced (reworded : before.Reworded keeps after) (spaced : before.Spaced) :
    after.Spaced := by
  intro id visible
  rw [reworded.attributeChildren_eq]
  exact reworded.spacedItems (spaced id (reworded.visible_iff.mp visible))

end Reworded

end Tree

end Templating.Markup
