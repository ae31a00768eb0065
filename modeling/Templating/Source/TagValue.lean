import Templating.Text.Blank
import Templating.Text.Substitution
import Templating.Text.Word

/-!
# Values of attribute-tags

An occurrence of a tag is its name, optional blanks, `=`, optional blanks and a double-quoted
value, which runs to the next `"`. It stands at the start of the text or behind a separator: a
character that can be no part of a tag name. A separator belongs to one occurrence only, so of
two occurrences of which one ends where the other begins only the first is found.

`normalizeValue` strips blanks and braces from the ends of a value and writes each run of blanks
in it as one space. `normalizeTag` writes every occurrence as `tag="value"` with the normal value
and removes those whose value is empty.
-/

namespace Templating.Source

open Templating.Text

/-- A character behind which a tag name may start. -/
def isSeparator (c : Char) : Bool :=
  !(isWord c || c = ':' || c = '.' || c = '-')

/-- What is stripped from the ends of a value: blanks and braces. -/
def isPadding (c : Char) : Bool :=
  isBlank c || c = '\x7b' || c = '\x7d'

/-- Strips blanks and braces at both ends and writes each run of blanks as one space. -/
def normalizeValue (value : List Char) : List Char :=
  collapseBlanks (trimBy isPadding value)

/-- The written form of a tag; nothing when the value is empty. -/
def writeTag (tag value : List Char) : List Char :=
  if value.isEmpty then [] else tag ++ '=' :: '"' :: value ++ ['"']

/-- Reads an occurrence of `tag` without the separator in front of it: its length and value. -/
def readTag (tag text : List Char) : Option (Nat × List Char) :=
  if tag.isPrefixOf text then
    let behind := text.drop tag.length
    let gap := behind.takeWhile isBlank
    match behind.dropWhile isBlank with
    | '=' :: assigned =>
      let inner := assigned.takeWhile isBlank
      match assigned.dropWhile isBlank with
      | '"' :: quoted =>
        let value := quoted.takeWhile (· ≠ '"')
        match quoted.dropWhile (· ≠ '"') with
        | [] => none
        | _ :: _ => some (tag.length + gap.length + inner.length + value.length + 3, value)
      | _ => none
    | _ => none
  else
    none

/-- Finds a separator with an occurrence of `tag` behind it and writes the normal form. -/
def separatedTagRule (tag : List Char) : Rule
  | [] => none
  | c :: rest =>
    if isSeparator c then
      (readTag tag rest).map fun (length, value) =>
        ⟨length, c :: writeTag tag (normalizeValue value)⟩
    else
      none

/-- Writes every occurrence of `tag` in its normal form and removes the empty ones. -/
def normalizeTag (tag text : List Char) : List Char :=
  match readTag tag text with
  | some (length, value) =>
    writeTag tag (normalizeValue value) ++ substitute (separatedTagRule tag) (text.drop length)
  | none => substitute (separatedTagRule tag) text

/-- Normalises the occurrences of each tag, one tag after the other. -/
def normalizeTags (tags : List String) (text : List Char) : List Char :=
  tags.foldl (fun current tag => normalizeTag tag.toList current) text

/-! ## First facts -/

@[simp] theorem normalizeTags_nil (text : List Char) : normalizeTags [] text = text := rfl

/-- The tags of two lists are normalised one list after the other. -/
theorem normalizeTags_append (first second : List String) (text : List Char) :
    normalizeTags (first ++ second) text = normalizeTags second (normalizeTags first text) := by
  simp [normalizeTags]

/-- An empty value leaves nothing of its tag. -/
@[simp] theorem writeTag_nil (tag : List Char) : writeTag tag [] = [] := rfl

end Templating.Source
