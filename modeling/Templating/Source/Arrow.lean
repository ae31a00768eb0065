import Templating.Text.Letter
import Templating.Text.Substitution
import Templating.Text.Word

/-!
# Member-access arrows

The arrow `->` before a word character is member access of the host language. While the other
stages work on a text it is written as a placeholder that no stage takes for the end of a tag.

`protectArrows` puts the placeholder in, `restoreArrows` takes it out again. Text that looks like
a placeholder before that, in any case of its letters, is kept apart by an escape character:
protecting writes the escape into it and doubles every escape that the text already holds, and
restoring undoes both.
-/

namespace Templating.Source

open Templating.Text

/-- Stands for `->` between protecting and restoring. -/
def placeholder : String := "%%OBJECT_OPERATOR%%"

/-- The start of a placeholder, up to the point where it could be completed by other text. -/
def placeholderStem : String := "%%OBJECT_OPERATOR"

/-- The private-use character that keeps written placeholders apart from inserted ones. -/
def escapeChar : Char := '\uE000'

/-- Doubles the escape and writes it behind the first character of a written stem. -/
def escapeRule : Rule
  | [] => none
  | c :: rest =>
    if c = escapeChar then
      some ⟨0, [escapeChar, escapeChar]⟩
    else if startsWithName placeholderStem.toList (c :: rest) then
      let stem := rest.take (placeholderStem.toList.length - 1)
      some ⟨stem.length, c :: escapeChar :: stem⟩
    else
      none

/-- Writes the placeholder for an arrow that a word character follows. -/
def arrowRule : Rule
  | '-' :: '>' :: c :: _ => if isWord c then some ⟨2, placeholder.toList ++ [c]⟩ else none
  | _ => none

/-- Writes the arrow for a placeholder in any case of its letters. -/
def placeholderRule : Rule := fun text =>
  if startsWithName placeholder.toList text then
    some ⟨placeholder.toList.length - 1, ['-', '>']⟩
  else
    none

/-- Writes a doubled escape once and drops a single one. -/
def unescapeRule : Rule
  | [] => none
  | c :: rest =>
    if c = escapeChar then
      if rest.head? = some escapeChar then some ⟨1, [escapeChar]⟩ else some ⟨0, []⟩
    else
      none

/-- Replaces each arrow before a word character by the placeholder. -/
def protectArrows (text : List Char) : List Char :=
  substitute arrowRule (substitute escapeRule text)

/-- Turns every placeholder back into an arrow and undoes the escaping. -/
def restoreArrows (text : List Char) : List Char :=
  substitute unescapeRule (substitute placeholderRule text)

end Templating.Source
