import Templating.Markup.Tree

/-!
# Printing a tree

Every node prints as it was written: an expression inside braces, an attribute with its own
quotes, an element with its attribute run. A void element without content gets no end tag.
-/

namespace Templating.Markup

open Templating.Text

/-- The elements that never have an end tag. -/
def voidElements : List String :=
  ["area", "base", "br", "col", "embed", "hr", "img", "input", "link", "meta", "source", "track",
    "wbr"]

/-- Whether an element of this name never has an end tag, in any case of its letters. -/
def isVoid (name : String) : Bool :=
  voidElements.any (sameName name)

/-- The written form of a name or value. -/
def AttrPart.render : AttrPart → String
  | .text content => content
  | .expression source => "\x7b" ++ source ++ "\x7d"

/-- The written form of an attribute. -/
def renderAttribute (name : AttrPart) (value : Option AttrPart) (quote : Option Char) : String :=
  match value with
  | none => name.render
  | some value =>
    let mark := String.ofList quote.toList
    name.render ++ "=" ++ mark ++ value.render ++ mark

namespace Tree

/-- The markup of a node, down to `depth` levels of nodes. -/
def renderNode (tree : Tree) : Nat → NodeId → String
  | 0, _ => ""
  | depth + 1, id =>
    match tree.kind? id with
    | none => ""
    | some (.text content) => content
    | some (.attr name value quote) => renderAttribute name value quote
    | some (.fragment children) => String.join (children.map (tree.renderNode depth))
    | some (.expression source children) =>
      "\x7b" ++ source ++ "\x7d" ++ String.join (children.map (tree.renderNode depth))
    | some (.element name attributes children) =>
      let opening := "<" ++ name ++ tree.renderNode depth attributes ++ ">"
      if isVoid name && children.isEmpty then
        opening
      else
        opening ++ String.join (children.map (tree.renderNode depth)) ++ "</" ++ name ++ ">"

/-- The markup of one node. No branch of a tree is deeper than its number of slots. -/
def markupOf (tree : Tree) (id : NodeId) : String :=
  tree.renderNode tree.size id

/-- The markup of the whole tree. -/
def markup (tree : Tree) : String :=
  tree.markupOf root

end Tree

end Templating.Markup
