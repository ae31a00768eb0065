import Templating.Yaml.Token

/-!
# Documents

A document is a node: a scalar, a sequence of nodes, a mapping of pairs of nodes, or an alias for
a node that an anchor marks. `readDocument` reads the only document of a text from its tokens.

Each anchored node has a number, which is how many other names anchors had used before it, and an
alias stands for the last node with the number that its name had. So an alias can also stand for a
node that it is a part of.
-/

namespace Templating.Yaml

/-- A part of a document. -/
inductive Node where
  | alias (number : Nat)
  | scalar (style : ScalarStyle) (tag : Option String) (text : String)
  | sequence (elements : List Node)
  | mapping (pairs : List (Node × Node))

/-- The nodes that anchors mark, in the order in which they begin, with their numbers. -/
structure Anchors where
  names : List (List Char × Nat) := []
  /-- The number of each anchored node, the last one first. -/
  numbers : List Nat := []
  /-- The anchored nodes that are complete, with how many began before each. -/
  nodes : List (Nat × Node) := []

namespace Anchors

/-- Begins a node with an anchor, and says how many began before it. -/
def begin (anchors : Anchors) (name : List Char) : Nat × Anchors :=
  let number := anchors.names.length
  (anchors.numbers.length, { anchors with
    names := (name, number) :: anchors.names.filter (·.1 ≠ name)
    numbers := number :: anchors.numbers })

/-- Completes a node that began behind `place` others. -/
def complete (anchors : Anchors) (place : Nat) (node : Node) : Anchors :=
  { anchors with nodes := (place, node) :: anchors.nodes }

/-- The last node with a number. -/
def node? (anchors : Anchors) (number : Nat) : Option Node := do
  let place ← anchors.numbers.reverse.zipIdx.reverse.find? (·.1 = number)
  let found ← anchors.nodes.find? (·.1 = place.2)
  return found.2

end Anchors

/-- The document of a text. -/
structure Document where
  /-- Nothing when the text is empty. -/
  root : Option Node
  anchors : Anchors

/-- A node itself, or the one that it stands for. -/
def Document.resolve (document : Document) : Node → Option Node
  | .alias number => document.anchors.node? number
  | node => some node

/-! ## Reading tokens -/

/-- The tokens that are left and the names in use. -/
structure Reading where
  tokens : List Token
  /-- The short forms for the beginnings of tags. -/
  handles : List (List Char × List Char) := []
  anchors : Anchors := {}

/-- Reads from the tokens that are left. -/
abbrev Read := StateT Reading (Except YamlError)

namespace Read

/-- The next token. -/
def peek : Read (Option Token) := return (← get).tokens.head?

/-- Goes on behind the next token. -/
def advance : Read Unit := modify fun reading => { reading with tokens := reading.tokens.tail }

/-- The error that something else was expected. -/
def expected {α : Type} (item : String) : Read α := throw (.expected item 0 0)

/-- A node that is not written. -/
def emptyScalar (tag : Option String := none) : Node := .scalar .plain tag ""

/-- Reads on unless the next token is one of these, in which case the node is empty. -/
def orEmpty (ends : List (Option Token)) (node : Read Node) : Read Node := do
  if ends.contains (← peek) then return emptyScalar else node

/-- Reads the value behind its mark, if there is one. -/
def valueUnless (ends : List (Option Token)) (node : Read Node) : Read Node := do
  if (← peek) = some .value then
    advance
    orEmpty ends node
  else
    return emptyScalar

/-! ## Tags and anchors -/

/-- The short forms that need not be declared. -/
def standardHandles : List (List Char × List Char) :=
  [(['!'], ['!']), (['!', '!'], "tag:yaml.org,2002:".toList)]

/-- A tag in full. -/
def fullTag (handle rest : List Char) : Read String := do
  if handle.isEmpty then
    return String.ofList rest
  else
    match ((← get).handles ++ standardHandles).find? (·.1 = handle) with
    | some (_, stem) => return String.ofList (stem ++ rest)
    | none => throw (.undefined (String.ofList handle))

/-- Reads an anchor if there is one, and says how many nodes with an anchor began before. -/
def anchor : Read (Option Nat) := do
  match ← peek with
  | some (.anchor name) =>
    advance
    let reading ← get
    let (place, anchors) := reading.anchors.begin name
    set { reading with anchors := anchors }
    return some place
  | _ => return none

/-- Reads a tag if there is one. -/
def tag : Read (Option (List Char × List Char)) := do
  match ← peek with
  | some (.tag handle rest) =>
    advance
    return some (handle, rest)
  | _ => return none

/-- Reads an anchor and a tag, in either order. -/
def properties : Read (Option Nat × Option String) := do
  let early ← tag
  let place ← anchor
  let late ← if early.isNone then tag else pure none
  let written := early.or late
  let full ← written.mapM fun (handle, rest) => fullTag handle rest
  return (place, full)

/-! ## Nodes -/

mutual

/-- Reads a node. `inBlock` says whether it may be an indented block, and `dashes` whether its
entries may stand at the column of what it belongs to. -/
def node : Nat → Bool → Bool → Read Node
  | 0, _, _ => expected "a node"
  | fuel + 1, inBlock, dashes => do
    match ← peek with
    | some (.alias name) =>
      advance
      match (← get).anchors.names.find? (·.1 = name) with
      | some (_, number) => return .alias number
      | none => throw (.undefined (String.ofList name))
    | _ =>
      let (place, tag) ← properties
      let content ← content fuel inBlock dashes place.isSome tag
      match place with
      | some place =>
        modify fun reading =>
          { reading with anchors := reading.anchors.complete place content }
      | none => pure ()
      return content

/-- Reads what a node is, behind its anchor and its tag. -/
def content : Nat → Bool → Bool → Bool → Option String → Read Node
  | 0, _, _, _, _ => expected "a node"
  | fuel + 1, inBlock, dashes, anchored, tag => do
    match ← peek with
    | some (.scalar style text) =>
      advance
      return .scalar style tag (String.ofList text)
    | some .flowSequence =>
      advance
      return .sequence (← flowElements fuel true)
    | some .flowMapping =>
      advance
      return .mapping (← flowPairs fuel true)
    | other =>
      if dashes && other = some .blockEntry then
        return .sequence (← dashedElements fuel)
      else if inBlock && other = some .blockSequence then
        advance
        return .sequence (← blockElements fuel)
      else if inBlock && other = some .blockMapping then
        advance
        return .mapping (← blockPairs fuel)
      else if anchored || tag.isSome then
        return emptyScalar tag
      else
        expected "a node"

/-- Reads the entries of an indented sequence. -/
def blockElements : Nat → Read (List Node)
  | 0 => expected "an entry"
  | fuel + 1 => do
    match ← peek with
    | some .blockEntry =>
      advance
      let element ← orEmpty [some .blockEntry, some .blockEnd] (node fuel true false)
      return element :: (← blockElements fuel)
    | some .blockEnd =>
      advance
      return []
    | _ => expected "an entry"

/-- Reads entries that stand at the column of the key that they belong to. -/
def dashedElements : Nat → Read (List Node)
  | 0 => expected "an entry"
  | fuel + 1 => do
    match ← peek with
    | some .blockEntry =>
      advance
      let element ← orEmpty [some .blockEntry, some .key, some .value, some .blockEnd]
        (node fuel true false)
      return element :: (← dashedElements fuel)
    | _ => return []

/-- Reads the pairs of an indented mapping. -/
def blockPairs : Nat → Read (List (Node × Node))
  | 0 => expected "a key"
  | fuel + 1 => do
    match ← peek with
    | some .key =>
      advance
      let ends := [some Token.key, some .value, some .blockEnd]
      let key ← orEmpty ends (node fuel true true)
      let value ← valueUnless ends (node fuel true true)
      return (key, value) :: (← blockPairs fuel)
    | some .blockEnd =>
      advance
      return []
    | _ => expected "a key"

/-- Reads the elements of a sequence in brackets. A key among them is a mapping of one pair. -/
def flowElements : Nat → Bool → Read (List Node)
  | 0, _ => expected "an element"
  | fuel + 1, first => do
    if (← peek) = some .flowSequenceEnd then
      advance
      return []
    if !first then
      if (← peek) ≠ some .flowEntry then expected "a comma or a bracket"
      advance
    match ← peek with
    | some .flowSequenceEnd =>
      advance
      return []
    | some .key =>
      advance
      let ends := [some Token.flowEntry, some .flowSequenceEnd]
      let bare := (some Token.value :: ends).contains (← peek)
      let key ← if bare then do advance; pure (emptyScalar none) else node fuel false false
      let value ← valueUnless ends (node fuel false false)
      return .mapping [(key, value)] :: (← flowElements fuel false)
    | _ =>
      let element ← node fuel false false
      return element :: (← flowElements fuel false)

/-- Reads the pairs of a mapping in braces. -/
def flowPairs : Nat → Bool → Read (List (Node × Node))
  | 0, _ => expected "a pair"
  | fuel + 1, first => do
    if (← peek) = some .flowMappingEnd then
      advance
      return []
    if !first then
      if (← peek) ≠ some .flowEntry then expected "a comma or a brace"
      advance
    match ← peek with
    | some .flowMappingEnd =>
      advance
      return []
    | some .key =>
      advance
      let ends := [some Token.flowEntry, some .flowMappingEnd]
      let key ← orEmpty (some .value :: ends) (node fuel false false)
      let value ← valueUnless ends (node fuel false false)
      return (key, value) :: (← flowPairs fuel false)
    | _ =>
      let key ← node fuel false false
      return (key, emptyScalar none) :: (← flowPairs fuel false)

end

/-! ## Documents -/

/-- Reads the directives in front of a document; `versioned` says whether one gave the version. -/
def directives : Nat → Bool → Read Unit
  | 0, _ => pure ()
  | fuel + 1, versioned => do
    match ← peek with
    | some (.version major minor) =>
      if versioned || major ≠ 1 || (minor ≠ 1 && minor ≠ 2) then expected "version 1.1 or 1.2"
      advance
      directives fuel true
    | some (.tagHandle handle stem) =>
      if (← get).handles.any (·.1 = handle) then expected "another short form"
      modify fun reading => { reading with handles := (handle, stem) :: reading.handles }
      advance
      directives fuel versioned
    | _ => pure ()

/-- Goes on behind the marks that end a document. -/
def documentEnds : Nat → Read Unit
  | 0 => pure ()
  | fuel + 1 => do
    if (← peek) = some .documentEnd then
      advance
      documentEnds fuel

/-- Whether a document that starts with a mark holds nothing in front of this token. -/
def endsDocument : Option Token → Bool
  | none => true
  | some (.version ..) => true
  | some (.tagHandle ..) => true
  | some .documentStart => true
  | some .documentEnd => true
  | _ => false

/-- Reads the document behind its directives and its mark, or one without them. -/
def root (fuel : Nat) : Read Node := do
  match ← peek with
  | some (.version ..) | some (.tagHandle ..) | some .documentStart =>
    directives fuel false
    if (← peek) ≠ some .documentStart then expected "the start of a document"
    advance
    if endsDocument (← peek) then return emptyScalar else node fuel true false
  | _ => node fuel true false

/-- Reads the only document. -/
def document (fuel : Nat) : Read Document := do
  if (← peek).isNone then return ⟨none, {}⟩
  let root ← root fuel
  documentEnds fuel
  if (← peek).isSome then throw .severalDocuments
  return ⟨some root, (← get).anchors⟩

end Read

/-- Reads the only document of a text. -/
def readDocument (text : String) : Except YamlError Document := do
  let tokens ← tokenize text.toList
  (Read.document (4 * tokens.length + 4)).run' ⟨tokens, [], {}⟩

end Templating.Yaml
