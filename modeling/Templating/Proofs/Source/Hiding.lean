import Templating.Proofs.Source.Arrow
import Templating.Proofs.Source.Normalizing

/-!
# Tag values while the arrows are hidden

Protecting a text disguises it twice. Normalising keeps both disguises, and restoring takes them off
in whatever places normalising has left them. So normalising with the arrows hidden is normalising,
`normalizeTags_hidden`, unless taking out an empty attribute puts a stem together that the source
held in two parts: no escape is between them (`normalizeTags_hidden_joined`).
-/

namespace Templating.Source

open Templating.Text

/-- A mark, by computing with its letters. -/
theorem isMark_of_letters {c : Char} {rest : List Char} (inert : (c :: rest).all isInert = true)
    (starts : isTagChar c = false) (ends : (c :: rest).getLast?.any isSeparator = true) :
    IsMark (c :: rest) :=
  ⟨List.all_eq_true.mp inert, ⟨c, rest, rfl, starts⟩, (Option.any_eq_true _ _).mp ends⟩

theorem escapeDisguise_inert : escapeDisguise.Inert where
  written := by
    rintro sign piece (⟨rfl, -⟩ | ⟨rfl, -⟩) <;>
      exact isMark_of_letters (by decide) (by decide +kernel) (by decide +kernel)
  meant := by
    rintro sign piece (⟨-, rfl⟩ | ⟨-, rfl⟩) <;>
      exact isMark_of_letters (by decide) (by decide +kernel) (by decide +kernel)
  space := by
    show ' ' ≠ escapeChar
    decide

theorem arrowDisguise_inert : arrowDisguise.Inert where
  written := by
    rintro sign piece ⟨rfl, -⟩
    exact isMark_of_letters (by decide) (by decide +kernel) (by decide +kernel)
  meant := by
    rintro sign piece ⟨-, rfl⟩
    exact isMark_of_letters (by decide) (by decide +kernel) (by decide +kernel)
  space := trivial

/-- Normalising puts no stem together. The stems that the text holds do not count: each has an
escape in it when the escaped text is normalised. -/
def JoinsNoStem (tags : List String) (text : List Char) : Prop :=
  StemFree (normalizeTags tags (substitute escapeRule text))

instance decidableJoinsNoStem (tags : List String) (text : List Char) :
    Decidable (JoinsNoStem tags text) :=
  decidableStemFree _

/-- **Hiding the arrows does not change what normalising does**, as long as normalising puts no
stem together. -/
theorem normalizeTags_hidden {tags : List String} {text : List Char}
    (areTags : ∀ tag ∈ tags, IsAttributeTag tag.toList) (apart : JoinsNoStem tags text) :
    restoreArrows (normalizeTags tags (protectArrows text)) = normalizeTags tags text := by
  have hidden := (writes_arrows (substitute escapeRule text)).normalizeTags arrowDisguise_inert
    areTags
  have escaped := (writes_escape text).normalizeTags escapeDisguise_inert areTags
  rw [restoreArrows, protectArrows, restore_disguised hidden apart,
    (unescape_disguised escaped).1]

/-- The hypothesis holds of a text with both a written placeholder and arrows, in and behind tags
of which one is taken out. -/
theorem normalizeTags_hidden_sample :
    let tags := ["n:if", "n:href"]
    let text := ("<a n:if=\"\" n:href = \"\x7b $u->x  %%Object_Operator%% \x7d\">" ++
      "%%OBJECT_OPERATOR->y").toList
    (∀ tag ∈ tags, IsAttributeTag tag.toList) ∧ JoinsNoStem tags text ∧
      restoreArrows (normalizeTags tags (protectArrows text)) = normalizeTags tags text := by
  intro tags text
  have areTags : ∀ tag ∈ tags, IsAttributeTag tag.toList := by
    intro tag member
    simp only [tags, List.mem_cons, List.not_mem_nil, or_false] at member
    rcases member with rfl | rfl
    · exact ⟨"if".toList, rfl, List.all_eq_true.mp rfl⟩
    · exact ⟨"href".toList, rfl, List.all_eq_true.mp rfl⟩
  have apart : JoinsNoStem tags text := by decide +kernel
  exact ⟨areTags, apart, normalizeTags_hidden areTags apart⟩

/-- Without the hypothesis it fails: behind an empty attribute between two parts of a stem, a
written placeholder is left when the arrows are not hidden, and an arrow when they are. -/
theorem normalizeTags_hidden_joined :
    ¬ ∀ (tags : List String) (text : List Char), (∀ tag ∈ tags, IsAttributeTag tag.toList) →
      restoreArrows (normalizeTags tags (protectArrows text)) = normalizeTags tags text := by
  intro hidden
  let text := "%n:if=\"\"%OBJECT_OPERATOR%%".toList
  have areTags : ∀ tag ∈ ["n:if"], IsAttributeTag tag.toList := by
    intro tag member
    rw [List.mem_singleton.mp member]
    exact ⟨"if".toList, rfl, List.all_eq_true.mp rfl⟩
  have kept : normalizeTags ["n:if"] text = "%%OBJECT_OPERATOR%%".toList := by decide +kernel
  have restored : restoreArrows (normalizeTags ["n:if"] (protectArrows text)) = "->".toList := by
    decide +kernel
  have same := hidden ["n:if"] text areTags
  rw [kept, restored] at same
  exact absurd same (by decide)

end Templating.Source
