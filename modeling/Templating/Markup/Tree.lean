import Templating.Markup.Node
import Templating.Text.Blank
import Templating.Text.Letter

/-!
# The node arena

A tree owns all nodes of one template. Slot zero is the root, a fragment. Slots are never freed:
a node that no child list holds any more stays in the arena, but no walk and no printer meets it.

Queries are plain functions of the tree. Changes are actions in `Edit`, which carries the tree
through failures as well, so that what a failed action has changed can be stated.
-/

namespace Templating.Markup

open Templating.Text

/-- What an operation expected of a node. -/
inductive Expected where
  | container
  | element
  | text
  deriving DecidableEq, Repr

/-- The word for an expectation in messages. -/
def Expected.label : Expected → String
  | .container => "container"
  | .element => "element"
  | .text => "text"

/-- Why an operation on a tree failed. -/
inductive TreeError where
  /-- The operation needs a node of another kind. -/
  | wrongKind (id : NodeId) (expected : Expected) (actual : Shape)
  /-- The tree has no such node. -/
  | missing (id : NodeId)
  deriving DecidableEq, Repr

/-- The text that is shown to the user. -/
def TreeError.message : TreeError → String
  | .wrongKind id expected actual =>
    s!"node #{id} is {actual.label}, expected {expected.label}"
  | .missing id => s!"node #{id} does not exist"

/-- The nodes of one template. -/
structure Tree where
  nodes : Array Node
  deriving DecidableEq, Repr

/-- Changes of a tree, each of which leaves a tree also when it fails. -/
abbrev Edit := EStateM TreeError Tree

/-- What is written in front of an attribute that a pass adds. -/
def separator : String := " "

namespace Tree

/-- The tree that holds only an empty root fragment. -/
def empty : Tree := ⟨#[⟨.fragment [], none⟩]⟩

instance : Inhabited Tree := ⟨empty⟩

/-- The root fragment. -/
def root : NodeId := 0

/-- The number of slots, those of unreachable nodes included. -/
def size (tree : Tree) : Nat := tree.nodes.size

/-- Whether there is nothing beside the root. -/
def isEmpty (tree : Tree) : Bool := tree.size ≤ 1

/-! ## Queries -/

def get? (tree : Tree) (id : NodeId) : Option Node := tree.nodes[id]?

def kind? (tree : Tree) (id : NodeId) : Option NodeKind := (tree.get? id).map Node.kind

def parent? (tree : Tree) (id : NodeId) : Option NodeId := (tree.get? id).bind Node.parent

/-- The children in the order of a walk. -/
def walkChildren (tree : Tree) (id : NodeId) : List NodeId :=
  ((tree.kind? id).map NodeKind.walkChildren).getD []

/-- The content children of an element, fragment or expression. -/
def content (tree : Tree) (id : NodeId) : List NodeId :=
  ((tree.kind? id).bind NodeKind.content?).getD []

/-- The name of an element. -/
def elementName? (tree : Tree) (id : NodeId) : Option String :=
  match tree.kind? id with
  | some (.element name _ _) => some name
  | _ => none

/-- Whether the node is an element with this name, in any case of its letters. -/
def isElement (tree : Tree) (id : NodeId) (name : String) : Bool :=
  (tree.elementName? id).any (sameName · name)

def isExpression (tree : Tree) (id : NodeId) : Bool :=
  (tree.kind? id).any (·.shape = .expression)

/-- The content of a text node. -/
def textContent? (tree : Tree) (id : NodeId) : Option String :=
  match tree.kind? id with
  | some (.text content) => some content
  | _ => none

/-- Whether the node is text that is empty or blank. -/
def isBlankText (tree : Tree) (id : NodeId) : Bool :=
  (tree.textContent? id).any fun content => allBlank content.toList

/-- The fragment of an element's attributes. -/
def attributeRun? (tree : Tree) (id : NodeId) : Option NodeId :=
  match tree.kind? id with
  | some (.element _ attributes _) => some attributes
  | _ => none

/-- The attribute run of an element: its attributes and separators. -/
def attributeChildren (tree : Tree) (element : NodeId) : List NodeId :=
  ((tree.attributeRun? element).map tree.content).getD []

/-- Whether the node is an attribute with this literal name, in any case of its letters. -/
def hasLiteralName (tree : Tree) (name : String) (id : NodeId) : Bool :=
  ((tree.kind? id).bind NodeKind.literalName?).any (sameName · name)

/-- The first attribute of the element with this literal name. -/
def findAttribute (tree : Tree) (element : NodeId) (name : String) : Option NodeId :=
  (tree.attributeChildren element).find? (tree.hasLiteralName name)

/-- The value of an attribute. -/
def attributeValue? (tree : Tree) (id : NodeId) : Option AttrPart :=
  match tree.kind? id with
  | some (.attr _ value _) => value
  | _ => none

/-- The literal value of the attribute with this name; nothing when the attribute is missing or
bare, or when its value is an expression. -/
def attributeText? (tree : Tree) (element : NodeId) (name : String) : Option String :=
  ((tree.findAttribute element name).bind tree.attributeValue?).bind AttrPart.text?

/-- Whether the attribute run of the element ends in blank text. -/
def runEndsBlank (tree : Tree) (element : NodeId) : Bool :=
  (tree.attributeChildren element).getLast?.any tree.isBlankText

/-! ## Slots -/

/-- The tree with one more slot at its end. -/
def push (tree : Tree) (kind : NodeKind) (parent : Option NodeId := none) : Tree :=
  ⟨tree.nodes.push ⟨kind, parent⟩⟩

/-- The tree with another kind in a slot. -/
def setKind (tree : Tree) (id : NodeId) (kind : NodeKind) : Tree :=
  ⟨tree.nodes.modify id fun node => { node with kind := kind }⟩

/-- The tree with another holder for a node. -/
def setParent (tree : Tree) (id : NodeId) (parent : NodeId) : Tree :=
  ⟨tree.nodes.modify id fun node => { node with parent := some parent }⟩

end Tree

/-! ## Making nodes

A new node is held by nothing until it is appended. -/

namespace Edit

/-- Takes the next slot for a node; there always is one. -/
def alloc (kind : NodeKind) (parent : Option NodeId := none) : Edit NodeId := fun tree =>
  .ok tree.size (tree.push kind parent)

/-- Makes an element with an empty attribute run; the run takes the slot before it. -/
def newElement (name : String) : Edit NodeId := do
  let run ← alloc (.fragment []) (some ((← get).size + 1))
  alloc (.element name run [])

def newText (content : String) : Edit NodeId := alloc (.text content)

/-- Makes an attribute with a literal name; a value is literal and double-quoted. -/
def newAttribute (name : String) (value : Option String) : Edit NodeId :=
  alloc (.attr (.text name) (value.map .text) (value.map fun _ => '"'))

/-- Makes an attribute from any parts. -/
def newAttributeOf (name : AttrPart) (value : Option AttrPart) (quote : Option Char) :
    Edit NodeId :=
  alloc (.attr name value quote)

def newExpression (source : String) : Edit NodeId := alloc (.expression source [])

def newFragment : Edit NodeId := alloc (.fragment [])

/-! ## Structure -/

/-- The kind of a node that has to exist. -/
def kindOf (id : NodeId) : Edit NodeKind := fun tree =>
  match tree.kind? id with
  | some kind => .ok kind tree
  | none => .error (.missing id) tree

/-- Fails unless the node exists. -/
def require (id : NodeId) : Edit Unit := do
  let _ ← kindOf id

/-- Appends a node to the content of an element, fragment or expression. -/
def appendChild (parent child : NodeId) : Edit Unit := do
  let kind ← kindOf parent
  match kind.content? with
  | none => throw (.wrongKind parent .container kind.shape)
  | some children =>
    require child
    modify fun tree =>
      (tree.setKind parent (kind.withContent (children ++ [child]))).setParent child parent

/-- The attribute run of a node that has to be an element. -/
def attributeRun (element : NodeId) : Edit NodeId := do
  match ← kindOf element with
  | .element _ attributes _ => return attributes
  | other => throw (.wrongKind element .element other.shape)

/-- Appends a node to the attribute run of an element, without a separator. -/
def appendAttribute (element child : NodeId) : Edit Unit := do
  appendChild (← attributeRun element) child

/-- Replaces the attribute run of an element. -/
def replaceAttributeChildren (element : NodeId) (children : List NodeId) : Edit Unit := do
  let run ← attributeRun element
  children.forM require
  modify fun tree => children.foldl (fun changed child => changed.setParent child run) tree
  match ← kindOf run with
  | .fragment _ => modify (·.setKind run (.fragment children))
  | _ => pure ()

/-! ## Attributes and text -/

/-- Gives an attribute a literal value; an attribute without a quote gets double quotes. -/
def setValue (id : NodeId) (value : String) : Edit Unit := do
  match ← kindOf id with
  | .attr name _ quote =>
    modify (·.setKind id (.attr name (some (.text value)) (some (quote.getD '"'))))
  | _ => pure ()

/-- Sets the first attribute with this literal name, or appends one when there is none.

A separator is put in front of a new attribute unless the run ends in blank text already. -/
def setAttribute (element : NodeId) (name value : String) : Edit NodeId := do
  require element
  let tree ← get
  match tree.findAttribute element name with
  | some found =>
    setValue found value
    return found
  | none =>
    unless tree.runEndsBlank element do
      appendAttribute element (← newText separator)
    let added ← newAttribute name (some value)
    appendAttribute element added
    return added

/-- Replaces the content of a text node, which keeps its handle and its place. -/
def setText (id : NodeId) (content : String) : Edit Unit := do
  match ← kindOf id with
  | .text _ => modify (·.setKind id (.text content))
  | other => throw (.wrongKind id .text other.shape)

/-- Renames an element or replaces the source of an expression; tells whether the node is one
of the two. -/
def rename (id : NodeId) (name : String) : Edit Bool := do
  match ← kindOf id with
  | .element _ attributes children =>
    modify (·.setKind id (.element name attributes children))
    return true
  | .expression _ children =>
    modify (·.setKind id (.expression name children))
    return true
  | _ => return false

end Edit

namespace Tree

/-! ## First facts -/

@[simp] theorem size_empty : empty.size = 1 := rfl

@[simp] theorem size_push (tree : Tree) (kind : NodeKind) (parent : Option NodeId) :
    (tree.push kind parent).size = tree.size + 1 := by
  simp [size, push]

@[simp] theorem size_setKind (tree : Tree) (id : NodeId) (kind : NodeKind) :
    (tree.setKind id kind).size = tree.size := by
  simp [size, setKind]

@[simp] theorem size_setParent (tree : Tree) (id parent : NodeId) :
    (tree.setParent id parent).size = tree.size := by
  simp [size, setParent]

theorem get?_push (tree : Tree) (kind : NodeKind) (parent : Option NodeId) (id : NodeId) :
    (tree.push kind parent).get? id =
      if id = tree.size then some ⟨kind, parent⟩ else tree.get? id := by
  simp only [get?, push, size, Array.getElem?_push]
  rfl

theorem get?_setKind (tree : Tree) (id other : NodeId) (kind : NodeKind) :
    (tree.setKind id kind).get? other =
      if id = other then (tree.get? other).map fun node => { node with kind := kind }
      else tree.get? other := by
  simp only [get?, setKind, Array.getElem?_modify]

theorem get?_setParent (tree : Tree) (id other parent : NodeId) :
    (tree.setParent id parent).get? other =
      if id = other then (tree.get? other).map fun node => { node with parent := some parent }
      else tree.get? other := by
  simp only [get?, setParent, Array.getElem?_modify]

/-- Another holder changes no kind. -/
@[simp] theorem kind?_setParent (tree : Tree) (id other parent : NodeId) :
    (tree.setParent id parent).kind? other = tree.kind? other := by
  simp only [kind?, get?_setParent]
  split <;> cases tree.get? other <;> rfl

/-- Another kind changes no holder. -/
@[simp] theorem parent?_setKind (tree : Tree) (id other : NodeId) (kind : NodeKind) :
    (tree.setKind id kind).parent? other = tree.parent? other := by
  simp only [parent?, get?_setKind]
  split <;> cases tree.get? other <;> rfl

end Tree

end Templating.Markup
