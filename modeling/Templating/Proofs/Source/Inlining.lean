import Templating.Proofs.Source.OpeningTag

/-!
# Opening tags stay where they are

Putting tags on one line only collapses blanks, and where opening tags are does not depend on those.
So the tags that are found afterwards are those that were found before, each on one line, however
the text is malformed.

* `openingTagLength_inlineTags`: a tag that begins the text begins it afterwards, on one line.
* `inlineTags_settled`.
-/

namespace Templating.Source

open Templating.Text

/-! ## One tag -/

theorem collapseAfter_flattenTag (afterBlank : Bool) (tag : List Char) :
    collapseAfter afterBlank (flattenTag tag) = collapseAfter afterBlank tag := by
  rw [flattenTag]
  split
  · exact collapseAfter_collapseBlanks afterBlank tag
  · rfl

theorem flattenTag_flattenTag (tag : List Char) : flattenTag (flattenTag tag) = flattenTag tag :=
  if_neg (Bool.eq_false_iff.mp (spansLines_flattenTag tag))

theorem getLast?_flattenTag {tag : List Char} (ends : tag.getLast? = some '>') :
    (flattenTag tag).getLast? = some '>' := by
  rw [flattenTag]
  split
  · obtain ⟨front, rfl⟩ := List.getLast?_eq_some_iff.mp ends
    have begins : ∀ c ∈ ['>'].head?, isBlank c = false := by
      rintro c ⟨⟩
      decide
    rw [collapseBlanks, collapseAfter_append_of_begins begins]
    exact getLast?_append_of_ends rfl _
  · exact ends

/-! ## All tags -/

/-- Putting tags on one line collapses blanks, and does nothing else. -/
theorem collapseAfter_inlineTags (afterBlank : Bool) (text : List Char) :
    collapseAfter afterBlank (inlineTags text) = collapseAfter afterBlank text := by
  induction text using openingTag_induction generalizing afterBlank with
  | nil => rfl
  | kept c rest noTag ih =>
    rw [inlineTags_of_none noTag, collapseAfter, collapseAfter, ih, ih]
  | tag text length tag ih =>
    have ends := getLast?_take_openingTagLength tag
    have dense : isBlank '>' = false := by decide
    rw [inlineTags_of_tag tag, collapseAfter_append_of_ends (getLast?_flattenTag ends) dense, ih,
      collapseAfter_flattenTag, ← collapseAfter_append_of_ends ends dense, List.take_append_drop]

/-- No tag begins where none began. -/
theorem openingTagLength_inlineTags_of_none {text : List Char}
    (noTag : openingTagLength text = none) : openingTagLength (inlineTags text) = none := by
  have alike := openingTagLength_collapseBlanks (inlineTags text)
  rw [collapseBlanks, collapseAfter_inlineTags, ← collapseBlanks, openingTagLength_collapseBlanks,
    noTag] at alike
  exact Option.map_eq_none_iff.mp alike.symm

/-- **A tag is found where it was**, on one line, with the same text behind it. -/
theorem openingTagLength_inlineTags {text : List Char} {length : Nat}
    (tag : openingTagLength text = some length) :
    ∃ length', openingTagLength (inlineTags text) = some length' ∧
      (inlineTags text).take length' = flattenTag (text.take length) ∧
      (inlineTags text).drop length' = inlineTags (text.drop length) := by
  have alike := openingTagLength_collapseBlanks (inlineTags text)
  rw [collapseBlanks, collapseAfter_inlineTags, ← collapseBlanks, openingTagLength_collapseBlanks,
    tag] at alike
  obtain ⟨length', tag', lengths⟩ := Option.map_eq_some_iff.mp alike.symm
  have parts : (inlineTags text).take length' ++ (inlineTags text).drop length' =
      flattenTag (text.take length) ++ inlineTags (text.drop length) := by
    rw [List.take_append_drop, inlineTags_of_tag tag]
  have dense : isBlank '>' = false := by decide
  have taken : (inlineTags text).take length' = flattenTag (text.take length) := by
    refine eq_of_length_collapseBlanks parts (getLast?_take_openingTagLength tag') dense
      (getLast?_flattenTag (getLast?_take_openingTagLength tag)) dense ?_
    rw [lengths]
    exact congrArg List.length (collapseAfter_flattenTag false (text.take length)).symm
  rw [taken] at parts
  exact ⟨length', tag', taken, List.append_cancel_left parts⟩

/-- The tags of a text on one line are those of the text, each on one line. -/
theorem found_inlineTags (text : List Char) : found openingTagRule (inlineTags text) =
    (found openingTagRule text).map flattenTag := by
  induction text using openingTag_induction with
  | nil => rfl
  | kept c rest noTag ih =>
    have noTag' := openingTagLength_inlineTags_of_none noTag
    rw [inlineTags_of_none noTag] at noTag' ⊢
    rw [found_of_none noTag', found_of_none noTag, ih]
  | tag text length tag ih =>
    obtain ⟨length', tag', taken, behind⟩ := openingTagLength_inlineTags tag
    rw [found_of_tag tag', found_of_tag tag, taken, behind, ih, List.map_cons]

theorem inlineTags_inlineTags (text : List Char) :
    inlineTags (inlineTags text) = inlineTags text := by
  induction text using openingTag_induction with
  | nil => rfl
  | kept c rest noTag ih =>
    have noTag' := openingTagLength_inlineTags_of_none noTag
    rw [inlineTags_of_none noTag] at noTag' ⊢
    rw [inlineTags_of_none noTag', ih]
  | tag text length tag ih =>
    obtain ⟨length', tag', taken, behind⟩ := openingTagLength_inlineTags tag
    rw [inlineTags_of_tag tag', taken, behind, flattenTag_flattenTag, ih, inlineTags_of_tag tag]

/-- **No opening tag spans lines any more**, and doing it again changes nothing, whatever the text:
the tags that are found are those that were found in it, each on one line. -/
theorem inlineTags_settled (text : List Char) :
    found openingTagRule (inlineTags text) = (found openingTagRule text).map flattenTag ∧
      (∀ tag ∈ found openingTagRule (inlineTags text), '\n' ∉ tag ∧ '\r' ∉ tag) ∧
      inlineTags (inlineTags text) = inlineTags text := by
  refine ⟨found_inlineTags text, fun tag member => ?_, inlineTags_inlineTags text⟩
  rw [found_inlineTags] at member
  obtain ⟨written, -, rfl⟩ := List.mem_map.mp member
  have single := Bool.eq_false_iff.mp (spansLines_flattenTag written)
  exact not_or.mp fun lines => single ((spansLines_iff _).mpr lines)

end Templating.Source
