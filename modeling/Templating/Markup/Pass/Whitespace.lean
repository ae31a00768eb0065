import Templating.Markup.Walk

/-!
# Blanks in a tree

`interiorWhitespace` normalises the separators in attribute runs, `verticalWhitespace` writes each
run of line breaks in text as its last one, and `compress` writes each run of blanks in text as
one space, which loses what was written.
-/

namespace Templating.Markup

open Templating.Text

/-! ## Separators -/

/-- A blank that does not end a line. -/
def isInlineBlank (c : Char) : Bool :=
  isBlank c && c ≠ '\n' && c ≠ '\r'

/-- What stands for a separator of an attribute run, given the text of the node before it and
whether it is the last node; nothing when it is kept.

One that holds a line feed becomes a space, or nothing at the end of the run. Any other that holds
an inline blank becomes a space, or nothing behind text that is a single space. -/
def tidySeparator (content : String) (previous : Option String) (last : Bool) : Option String :=
  if content.toList.contains '\n' then
    some (if last then "" else separator)
  else if content.toList.any isInlineBlank then
    some (if previous = some separator then "" else separator)
  else
    none

/-- Tidies the separators of a run from left to right, `previous` being the node before. -/
def tidyRun (previous : Option NodeId) : List NodeId → Edit Unit
  | [] => pure ()
  | child :: rest => do
    let tree ← get
    match tree.textContent? child with
    | some content =>
      if tree.isBlankText child then
        match tidySeparator content (previous.bind tree.textContent?) rest.isEmpty with
        | some tidy => Edit.setText child tidy
        | none => pure ()
    | none => pure ()
    tidyRun (some child) rest

/-- The pass that normalises the separators of attribute runs. -/
def interiorWhitespace : Pass :=
  Pass.ofEdit "interior-whitespace" fun id => do
    tidyRun none ((← get).attributeChildren id)

/-! ## Line breaks -/

/-- A character that ends a line. -/
def isLineBreak (c : Char) : Bool :=
  c = '\n' || c = '\r' || c = '\x0b' || c = '\x0c' || c = '\u0085' || c = '\u2028' || c = '\u2029'

/-- Writes each run of line breaks as its last one. -/
def keepLastBreak : List Char → List Char
  | [] => []
  | c :: rest =>
    if isLineBreak c && rest.head?.any isLineBreak then keepLastBreak rest
    else c :: keepLastBreak rest

/-- Changes the content of a text node and keeps any other node. -/
def changeText (step : List Char → List Char) (id : NodeId) : Edit Unit := do
  match (← get).textContent? id with
  | some content => Edit.setText id (String.ofList (step content.toList))
  | none => pure ()

/-- The pass that collapses line breaks in blank text, or in every text when `all` is set. -/
def verticalWhitespace (all : Bool) : Pass :=
  Pass.ofEdit "vertical-whitespace" fun id => do
    if all || (← get).isBlankText id then
      changeText keepLastBreak id

/-! ## Compression -/

/-- The pass that writes each run of blanks in text as one space. -/
def compress : Pass :=
  Pass.ofEdit "compress" (changeText collapseBlanks)

end Templating.Markup
