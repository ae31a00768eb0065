import Templating.Markup.Walk

/-!
# Class markers on headings

`headingClass` adds a class to every heading, and another one to the secondary headings: elements
of a set name that stand directly in a heading. A marker is added to the classes that are there;
they keep their order and lose their repetitions. A class that is an expression is kept.
-/

namespace Templating.Markup

open Templating.Text

/-- The names of headings. -/
def headingNames : List String :=
  ["h1", "h2", "h3", "h4", "h5", "h6"]

/-- Whether an element of this name is a heading, in any case of its letters. -/
def isHeading (name : String) : Bool :=
  headingNames.any (sameName name)

/-- The classes of a literal value with a marker behind them, each once. -/
def mergeClasses (existing marker : String) : String :=
  let classes := (words existing.toList).map String.ofList
  " ".intercalate (classes ++ [marker]).eraseDups

/-- The literal text to which a marker is added; nothing for an expression. -/
def classText? : Option AttrPart → Option String
  | none => some ""
  | some value => value.text?

/-- Adds a marker to the class of an element. -/
def addMarker (element : NodeId) (marker : String) : Edit Unit := do
  let tree ← get
  match tree.findAttribute element "class" with
  | none => let _ ← Edit.setAttribute element "class" marker
  | some found =>
    match classText? (tree.attributeValue? found) with
    | none => pure ()
    | some existing =>
      let merged := mergeClasses existing marker
      if merged = existing then pure ()
      else let _ ← Edit.setAttribute element "class" merged

/-- What headings are marked with. -/
structure HeadingMarkers where
  /-- The class of headings. -/
  headingClass : String
  /-- The name of secondary headings. -/
  subheadingTag : String
  /-- The class of secondary headings. -/
  subheadingClass : String
  deriving DecidableEq, Repr

/-- The class that an element of this name gets under the holder `parent`, if any. -/
def HeadingMarkers.markerFor (markers : HeadingMarkers) (tree : Tree) (parent : Option NodeId)
    (name : String) : Option String :=
  if isHeading name then
    some markers.headingClass
  else if sameName name markers.subheadingTag &&
      ((parent.bind tree.elementName?).any isHeading) then
    some markers.subheadingClass
  else
    none

/-- Adds the class that an element has to have. -/
def HeadingMarkers.mark (markers : HeadingMarkers) (id : NodeId) : Edit Unit := do
  let tree ← get
  match (tree.elementName? id).bind (markers.markerFor tree (tree.parent? id)) with
  | some marker => addMarker id marker
  | none => pure ()

/-- Why a value is no single class or name. -/
def tokenFault (field value : String) : Option String :=
  if value.isEmpty then some s!"{field} is empty"
  else if value.toList.any isBlank then some s!"{field} '{value}' contains whitespace"
  else none

/-- The first fault of the markers; each has to be one non-empty word. -/
def HeadingMarkers.fault? (markers : HeadingMarkers) : Option String :=
  tokenFault "heading class" markers.headingClass <|>
    tokenFault "subheading tag" markers.subheadingTag <|>
      tokenFault "subheading class" markers.subheadingClass

/-- The name of the heading pass. -/
def headingClassName : String := "heading-class"

/-- The pass that marks headings and secondary headings. -/
def headingClass (markers : HeadingMarkers) : Except PassError Pass :=
  match markers.fault? with
  | some fault => .error (.invalidArgument headingClassName fault)
  | none => .ok (Pass.ofEdit headingClassName markers.mark)

end Templating.Markup
