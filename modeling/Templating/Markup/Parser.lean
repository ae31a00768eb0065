import Templating.Markup.Printer
import Templating.Markup.Token

/-!
# Parsing markup

`parseMarkup` builds the tree of a source from its tokens. Nodes take their slots in the order in
which they are written, an element's attribute run just before the element. An end tag has to
name the element that is open, and a void element is never open.
-/

namespace Templating.Markup

open Templating.Text Edit

/-- Appends the parts of an attribute run to an element. -/
def addRun (element : NodeId) : List RunItem → Edit Unit
  | [] => pure ()
  | .gap blanks :: rest => do
    appendAttribute element (← newText blanks)
    addRun element rest
  | .attr name value :: rest => do
    let added ← newAttributeOf (.text name) (value.map Prod.fst) (value.map Prod.snd)
    appendAttribute element added
    addRun element rest

/-- The node that a token other than an end tag stands for, appended to `holder`. -/
def addToken (holder : NodeId) : Token → Edit NodeId
  | .text content => do
    let added ← newText content
    appendChild holder added
    return added
  | .expression source => do
    let added ← newExpression source
    appendChild holder added
    return added
  | .startTag name run => do
    let added ← newElement name
    addRun added run
    appendChild holder added
    return added
  | .endTag _ => return holder

/-- Runs a change that fails on no tree that the parser builds. -/
def edited (action : Edit NodeId) (tree : Tree) : NodeId × Tree :=
  match action tree with
  | .ok id changed => (id, changed)
  | .error _ changed => (Tree.root, changed)

/-- Builds the tree of what was scanned. `current` is the element that is open, and `outer` are
those around it, the innermost first, with the root at the end. -/
def buildTree (tree : Tree) (current : NodeId) (outer : List NodeId) :
    Scanned → Except MarkupError Tree
  | [] => if outer.isEmpty then .ok tree else .error .unclosedElement
  | .error fault :: _ => .error fault
  | .ok (.endTag written) :: rest =>
    let name := String.ofList (trim written.toList)
    match outer with
    | [] => .error (.unexpectedEndTag name)
    | holder :: further =>
      if tree.isElement current name then buildTree tree holder further rest
      else .error (.unexpectedEndTag name)
  | .ok (.startTag name run) :: rest =>
    let (added, grown) := edited (addToken current (.startTag name run)) tree
    if isVoid name then buildTree grown current outer rest
    else buildTree grown added (current :: outer) rest
  | .ok token :: rest => buildTree (edited (addToken current token) tree).2 current outer rest

/-- The tree of a source, or why it is not markup. -/
def parseMarkup (source : String) : Except MarkupError Tree :=
  buildTree .empty Tree.root [] (scanTokens source.toList)

/-- The tree that holds a source as one piece of text. -/
def textTree (source : String) : Tree :=
  (edited (addToken Tree.root (.text source)) .empty).2

end Templating.Markup
