import Templating.Markup.Walk

/-!
# Attributes that are filled in

`imageAlt` gives an empty `alt` to every image that has none. `buttonType` gives every button
without a `type` the type `button`; it prunes the children of a button that declares its type,
so buttons inside such a button are kept as they are.
-/

namespace Templating.Markup

/-- Adds `alt=""` to an image without an `alt`; one that is there is never touched. -/
def completeImage (id : NodeId) : Edit Unit := do
  let tree ← get
  if tree.isElement id "img" && (tree.findAttribute id "alt").isNone then
    let _ ← Edit.setAttribute id "alt" ""

/-- The pass that completes images. -/
def imageAlt : Pass :=
  Pass.ofEdit "image-alt" completeImage

/-- Adds `type="button"` to a button without a type. -/
def completeButton (id : NodeId) : Edit Descent := do
  let tree ← get
  if !tree.isElement id "button" then
    return .enter
  else if (tree.findAttribute id "type").isSome then
    return .prune
  else
    let _ ← Edit.setAttribute id "type" "button"
    return .enter

/-- The pass that completes buttons. -/
def buttonType : Pass :=
  Pass.ofDescent "button-type" completeButton

end Templating.Markup
