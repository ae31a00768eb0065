import Templating.Markup.Tree

/-!
# Walking a tree

A visitor is called on the nodes of a tree and may change the tree, keep a state of its own and
fail. A walk visits in pre-order, each node before its children. The children are read after the
visit, so a node that changes its own attribute run is walked in its new form. A visit can
prune the children of its node, and expressions are visited but never entered.

The walk keeps the nodes that are still to be visited on a stack, first at the head. It ends when
the stack is empty, at the first failure, or when it has made as many visits as it was allowed.
`Visitor.walk` allows more visits than any walk makes that ends in practice.
-/

namespace Templating.Markup

/-- Whether a walk goes on to the children of the node that it has visited. -/
inductive Descent where
  | enter
  | prune
  deriving DecidableEq, Repr

/-- Why a pass over a tree failed. -/
inductive PassError where
  /-- The pass was built or called with arguments that it does not accept. -/
  | invalidArgument (pass message : String)
  /-- An operation on the tree failed. -/
  | tree (error : TreeError)
  /-- The walk was stopped before its end. -/
  | unfinished (pass : String)
  deriving DecidableEq, Repr

/-- The text that is shown to the user. -/
def PassError.message : PassError → String
  | .invalidArgument pass message => s!"invalid argument for pass '{pass}': {message}"
  | .tree error => error.message
  | .unfinished pass => s!"pass '{pass}' was stopped"

/-- A pass over a tree. Its state `σ` holds the tree and whatever the pass keeps beside it. -/
structure Visitor (σ : Type) where
  name : String
  tree : σ → Tree
  visit : NodeId → EStateM PassError σ Descent

/-- A pass that keeps nothing beside the tree. -/
abbrev Pass := Visitor Tree

namespace Pass

/-- The pass that changes the tree at each node and says whether to enter its children. -/
def ofDescent (name : String) (edit : NodeId → Edit Descent) : Pass where
  name := name
  tree := id
  visit node := fun tree =>
    match edit node tree with
    | .ok descent changed => .ok descent changed
    | .error error changed => .error (.tree error) changed

/-- The pass that changes the tree at each node and enters all children. -/
def ofEdit (name : String) (edit : NodeId → Edit Unit) : Pass :=
  ofDescent name fun node => do
    edit node
    return .enter

/-- The pass that fails at the first node. -/
def refusing (name message : String) : Pass where
  name := name
  tree := id
  visit _ := throw (.invalidArgument name message)

/-- The pass that writes the same content into every node, which only text can hold. -/
def overwriting (name content : String) : Pass :=
  ofEdit name fun node => Edit.setText node content

end Pass

namespace Visitor

variable {σ : Type}

/-- The nodes that a walk goes on to after a visit of `id` that ended in `descent`. -/
def entered (visitor : Visitor σ) (state : σ) (id : NodeId) : Descent → List NodeId
  | .prune => []
  | .enter =>
    if (visitor.tree state).isExpression id then [] else (visitor.tree state).walkChildren id

/-- Visits the nodes of a stack and what is below them, with at most `visits` visits. -/
def walkStack (visitor : Visitor σ) : Nat → List NodeId → EStateM PassError σ Unit
  | _, [] => pure ()
  | 0, _ :: _ => throw (.unfinished visitor.name)
  | visits + 1, id :: rest => fun state =>
    match visitor.visit id state with
    | .error error changed => .error error changed
    | .ok descent changed =>
      walkStack visitor visits (visitor.entered changed id descent ++ rest) changed

/-- More visits than any walk makes that ends in practice, and a number in proportion to the size
of the tree beside them. -/
def visitLimit (tree : Tree) : Nat :=
  Nat.pow 2 62 + 4 * tree.size

/-- Visits the tree from its root in pre-order. -/
def walk (visitor : Visitor σ) : EStateM PassError σ Unit := fun state =>
  visitor.walkStack (visitLimit (visitor.tree state)) [Tree.root] state

end Visitor

/-! ## Pipelines -/

/-- Passes in the order in which they run, each a walk of its own. -/
abbrev Pipeline := List Pass

namespace Pipeline

def names (pipeline : Pipeline) : List String :=
  pipeline.map Visitor.name

/-- Runs the passes in order, up to the first failure, which leaves the changes made so far. -/
def run (pipeline : Pipeline) : EStateM PassError Tree Unit :=
  pipeline.forM Visitor.walk

end Pipeline

/-! ## Recording a walk -/

/-- What a recorded walk does beside recording. -/
structure Probe where
  /-- The nodes whose children are pruned. -/
  pruned : List NodeId := []
  /-- The node at which the walk fails. -/
  stop : Option NodeId := none
  /-- Pairs of a node and a child that is appended to it when it is visited. -/
  grafts : List (NodeId × NodeId) := []

/-- Records the nodes in the order in which they are visited, the last one first. -/
def Probe.visitor (probe : Probe) (name : String) : Visitor (Tree × List NodeId) where
  name := name
  tree := Prod.fst
  visit id := fun (tree, visited) =>
    let visited := id :: visited
    if probe.stop = some id then
      .error (.invalidArgument name s!"stopped at #{id}") (tree, visited)
    else
      let grafts := probe.grafts.filter (·.1 = id)
      match grafts.forM (fun graft => Edit.appendChild graft.1 graft.2) tree with
      | .error error changed => .error (.tree error) (changed, visited)
      | .ok _ changed =>
        .ok (if probe.pruned.contains id then .prune else .enter) (changed, visited)

/-- Walks the tree and lists the visited nodes in order, with the failure that ended the walk and
the tree that it left. -/
def Probe.record (probe : Probe) (name : String) (tree : Tree) :
    List NodeId × Option PassError × Tree :=
  match (probe.visitor name).walk (tree, []) with
  | .ok _ (changed, visited) => (visited.reverse, none, changed)
  | .error error (changed, visited) => (visited.reverse, some error, changed)

end Templating.Markup
