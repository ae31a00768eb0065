import Templating.Text.Blank
import Templating.Text.Substitution

/-!
# Opening tags on one line

An opening tag is `<`, optional blanks, an ASCII letter, more ASCII letters, digits and colons,
at least one blank, then tokens, then `>`. A token is a double-quoted or single-quoted string,
the arrow `->`, or any single character other than `>` and the two quotes. The tag ends at the
first `>` that is no part of a token; when a quote is left open or the text ends before that,
the last arrow before the fault is read as `-` and `>`, and the tag ends there.

`inlineTags` writes every opening tag that spans several lines on one line, with each run of
blanks in it as one space. A tag that is written on one line is kept as it is.
-/

namespace Templating.Source

open Templating.Text

/-- The characters of a tag name behind its first letter. -/
def isTagNameChar (c : Char) : Bool :=
  c.isAlphanum || c = ':'

/-- How many characters the tokens of a tag and its closing `>` take.

`quote` is the quote that is open, `taken` counts the characters read so far, and `lastArrow` is
the count just behind the last arrow, where the tag ends when its tokens cannot be completed. -/
def tokensEnd : Option Char → Nat → Option Nat → List Char → Option Nat
  | _, _, lastArrow, [] => lastArrow
  | some quote, taken, lastArrow, c :: rest =>
    tokensEnd (if c = quote then none else some quote) (taken + 1) lastArrow rest
  | none, taken, _, '-' :: '>' :: rest => tokensEnd none (taken + 2) (some (taken + 2)) rest
  | none, taken, _, '>' :: _ => some (taken + 1)
  | none, taken, lastArrow, c :: rest =>
    tokensEnd (if c = '"' ∨ c = '\'' then some c else none) (taken + 1) lastArrow rest

/-- How many characters the opening tag takes that starts where the text starts. -/
def openingTagLength : List Char → Option Nat
  | '<' :: rest =>
    let blanks := rest.takeWhile isBlank
    match rest.dropWhile isBlank with
    | [] => none
    | letter :: named =>
      if letter.isAlpha then
        let name := named.takeWhile isTagNameChar
        match named.dropWhile isTagNameChar with
        | [] => none
        | gap :: tokens =>
          if isBlank gap then
            (tokensEnd none 0 none tokens).map (blanks.length + name.length + 3 + ·)
          else
            none
      else
        none
  | _ => none

/-- Whether a piece of text goes over a line end. -/
def spansLines (text : List Char) : Bool :=
  text.any fun c => c = '\n' || c = '\r'

/-- Writes a tag on one line; a tag that is on one line keeps its spacing. -/
def flattenTag (tag : List Char) : List Char :=
  if spansLines tag then collapseBlanks tag else tag

/-- Finds an opening tag and writes it on one line. -/
def openingTagRule : Rule := fun text =>
  (openingTagLength text).map fun length => ⟨length - 1, flattenTag (text.take length)⟩

/-- Puts every opening tag that spans several lines on a single line. -/
def inlineTags (text : List Char) : List Char :=
  substitute openingTagRule text

/-! ## First facts -/

/-- An opening tag takes more than three characters. -/
theorem three_le_openingTagLength {text : List Char} {length : Nat}
    (tag : openingTagLength text = some length) : 3 ≤ length := by
  unfold openingTagLength at tag
  split at tag
  · simp only at tag
    split at tag
    · exact absurd tag (by simp)
    · split at tag
      · split at tag
        · exact absurd tag (by simp)
        · split at tag
          · obtain ⟨taken, _, rfl⟩ := Option.map_eq_some_iff.mp tag
            omega
          · exact absurd tag (by simp)
      · exact absurd tag (by simp)
  · exact absurd tag (by simp)

/-- What a flattened tag holds of line ends is nothing. -/
theorem spansLines_flattenTag (tag : List Char) : spansLines (flattenTag tag) = false := by
  unfold flattenTag
  split
  · rw [spansLines, List.any_eq_false]
    intro c member
    simp only [Bool.or_eq_true, decide_eq_true_eq, not_or]
    constructor <;> rintro rfl <;>
      exact absurd (eq_space_of_mem_collapseAfter member (by decide)) (by decide)
  · rename_i single
    simpa using single

end Templating.Source
