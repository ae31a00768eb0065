import Templating.Markup.Walk

/-!
# Attribute order

A rank orders attributes by name: lower ranks come first, attributes of one rank are ordered by
name, and repeated names keep their written order. `attributeSort` brings every attribute run
with an attribute into the canonical layout: a space and an attribute in turn, then all that is
neither an attribute nor blank text in written order.
-/

namespace Templating.Markup

open Templating.Text

/-- The rank of an attribute name. -/
abbrev Rank := String → Nat

/-- Ranks the names of a list first, in its order and in any case of their letters, and all
others after them. -/
def leadingRank (leading : List String) : Rank := fun name =>
  leading.findIdx (sameName · name)

/-- Ranks longer names first; a length counts the bytes of the name in UTF-8. -/
def lengthRank : Rank := fun name =>
  UInt64.size - 1 - name.utf8ByteSize

/-- The names that come first unless another order is asked for. -/
def defaultLeading : List String :=
  ["id", "class", "style"]

/-- An attribute of a run with its place in the order. -/
structure RankedAttribute where
  rank : Nat
  name : String
  id : NodeId
  deriving DecidableEq, Repr

/-- Whether the first attribute may stand before the second. -/
def RankedAttribute.before (first second : RankedAttribute) : Bool :=
  first.rank < second.rank || (first.rank = second.rank && !(second.name < first.name))

namespace Tree

/-- The attribute with its rank, when the node is one. -/
def rankedAttribute? (tree : Tree) (rank : Rank) (id : NodeId) : Option RankedAttribute :=
  match tree.kind? id with
  | some (.attr name _ _) => some ⟨rank name.source, name.source, id⟩
  | _ => none

/-- The attributes of an element in canonical order. -/
def sortedAttributes (tree : Tree) (rank : Rank) (element : NodeId) : List NodeId :=
  let ranked := (tree.attributeChildren element).filterMap (tree.rankedAttribute? rank)
  (ranked.mergeSort RankedAttribute.before).map RankedAttribute.id

/-- Whether the node is neither an attribute nor blank text. -/
def isOtherRunChild (tree : Tree) (id : NodeId) : Bool :=
  !((tree.kind? id).any (·.shape = .attr)) && !tree.isBlankText id

/-- The children of an attribute run that are neither attributes nor blank text. -/
def otherRunChildren (tree : Tree) (element : NodeId) : List NodeId :=
  (tree.attributeChildren element).filter tree.isOtherRunChild

/-- Whether a run holds the attributes, each behind a single space, and then the others. -/
def isLaidOut (tree : Tree) : List NodeId → List NodeId → List NodeId → Bool
  | [], others, run => run == others
  | sorted :: more, others, gap :: child :: run =>
    tree.textContent? gap == some separator && child == sorted && tree.isLaidOut more others run
  | _ :: _, _, _ => false

end Tree

/-- Makes a separator for each attribute and puts it in front. -/
def separated : List NodeId → Edit (List NodeId)
  | [] => pure []
  | sorted :: more => do
    let gap ← Edit.newText separator
    let rest ← separated more
    return gap :: sorted :: rest

/-- Brings the attribute run of an element into the canonical layout. -/
def sortRun (rank : Rank) (id : NodeId) : Edit Unit := do
  let tree ← get
  if (tree.elementName? id).isSome then
    let sorted := tree.sortedAttributes rank id
    let others := tree.otherRunChildren id
    unless sorted.isEmpty || tree.isLaidOut sorted others (tree.attributeChildren id) do
      let run ← separated sorted
      Edit.replaceAttributeChildren id (run ++ others)

/-- The pass that orders attributes by a rank. -/
def attributeSort (rank : Rank) : Pass :=
  Pass.ofEdit "attribute-sort" (sortRun rank)

end Templating.Markup
