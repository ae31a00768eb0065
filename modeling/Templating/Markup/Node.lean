/-!
# Nodes

The kinds of nodes that a markup tree holds. A node never holds another node itself, only its
handle, so an element's attributes can be read while one of them is changed.

Handles are numbers without an upper bound here. An arena has 2 ^ 32 slots at most, and the program
halts when a slot past the last one is taken; this halt is not modelled, so what is said about
changes is said of trees that have room for the nodes they add.
-/

namespace Templating.Markup

/-- The handle of a node: its slot in the arena of its tree. -/
abbrev NodeId := Nat

/-- The name or the value of an attribute. -/
inductive AttrPart where
  /-- Literal markup text. -/
  | text (content : String)
  /-- An expression of the host language, which no pass looks into. -/
  | expression (source : String)
  deriving DecidableEq, Repr, Inhabited

namespace AttrPart

/-- The literal text; nothing for an expression. -/
def text? : AttrPart → Option String
  | .text content => some content
  | .expression _ => none

/-- The text of either form, as attributes are ordered by it. -/
def source : AttrPart → String
  | .text content => content
  | .expression source => source

end AttrPart

/-- What a node is and what it holds. -/
inductive NodeKind where
  /-- A markup element with the fragment of its attributes and separators. -/
  | element (name : String) (attributes : NodeId) (children : List NodeId)
  /-- An attribute; a bare one has no value, an unquoted value no quote. -/
  | attr (name : AttrPart) (value : Option AttrPart) (quote : Option Char)
  /-- Literal text. -/
  | text (content : String)
  /-- Siblings without an element around them. -/
  | fragment (children : List NodeId)
  /-- An expression of the host language, which no pass goes into. -/
  | expression (source : String) (children : List NodeId)
  deriving DecidableEq, Repr, Inhabited

/-- The kind of a node without what it holds. -/
inductive Shape where
  | element
  | attr
  | text
  | fragment
  | expression
  deriving DecidableEq, Repr

/-- The word for a shape in messages. -/
def Shape.label : Shape → String
  | .element => "element"
  | .attr => "attribute"
  | .text => "text"
  | .fragment => "fragment"
  | .expression => "expression"

namespace NodeKind

def shape : NodeKind → Shape
  | .element .. => .element
  | .attr .. => .attr
  | .text .. => .text
  | .fragment .. => .fragment
  | .expression .. => .expression

/-- The content children; only elements, fragments and expressions can have some. -/
def content? : NodeKind → Option (List NodeId)
  | .element _ _ children => some children
  | .fragment children => some children
  | .expression _ children => some children
  | .attr .. => none
  | .text _ => none

/-- The node with other content children; a node that cannot have any is kept. -/
def withContent (children : List NodeId) : NodeKind → NodeKind
  | .element name attributes _ => .element name attributes children
  | .fragment _ => .fragment children
  | .expression source _ => .expression source children
  | other => other

/-- The children in the order of a walk: an element's attribute run comes before its content. -/
def walkChildren : NodeKind → List NodeId
  | .element _ attributes children => attributes :: children
  | .fragment children => children
  | .expression _ children => children
  | .attr .. => []
  | .text _ => []

/-- The literal name when the node is an attribute with one. -/
def literalName? : NodeKind → Option String
  | .attr (.text name) _ _ => some name
  | _ => none

end NodeKind

/-- One slot of an arena: a node and the node that holds it. -/
structure Node where
  kind : NodeKind
  parent : Option NodeId := none
  deriving DecidableEq, Repr, Inhabited

end Templating.Markup
