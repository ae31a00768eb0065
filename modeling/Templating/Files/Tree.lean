import Templating.IoError
import Templating.Path
import Templating.Table

/-!
# File trees

A file tree says what is kept at each place: a folder, a file with its bytes, or nothing. A place
is the list of names that lead to it from the root, which is always a folder.

A path leads from the working folder, or from the root, to a place, segment by segment; each step
has to start in a folder. `locate` follows a path, and every operation on a path goes through it.
-/

namespace Templating

/-- The names that lead from the root to a place. -/
abbrev Place := List (List Char)

/-- What is kept at a place. -/
inductive FileNode where
  | folder
  | file (bytes : ByteArray)

/-- What is kept at every place, and the place that relative paths start from. -/
structure FileTree where
  entries : Table Place FileNode := {}
  workingFolder : Place := []

namespace FileTree

/-- What is kept at a place. -/
def node? (tree : FileTree) (place : Place) : Option FileNode :=
  if place.isEmpty then some .folder else tree.entries.get? place

/-- Keeps nothing at a place any more. -/
def erase (tree : FileTree) (place : Place) : FileTree :=
  { tree with entries := tree.entries.erase place }

/-- Keeps a node at a place. -/
def insert (tree : FileTree) (place : Place) (node : FileNode) : FileTree :=
  { tree with entries := tree.entries.insert place node }

/-- What was put at a place below the root is there. -/
theorem node?_insert_self (tree : FileTree) {place : Place} (node : FileNode)
    (below : place.isEmpty = false) : (tree.insert place node).node? place = some node := by
  simp only [node?, insert, below]
  exact tree.entries.get?_insert_self place node

/-- Other places are kept when something is put at one. -/
theorem node?_insert_of_ne (tree : FileTree) {place other : Place} (node : FileNode)
    (differs : other ≠ place) : (tree.insert place node).node? other = tree.node? other := by
  simp only [node?, insert, tree.entries.get?_insert_of_ne node differs]

/-! ## Following a path -/

/-- The longest name of a file in bytes. -/
def longestName : Nat := 255

/-- The longest path in bytes. -/
def longestPath : Nat := 4095

/-- Goes on by one segment, from a folder: nowhere for an empty segment and `.`, up for `..`. -/
def step (tree : FileTree) (place : Place) (segment : List Char) : Except IoError Place :=
  match tree.node? place with
  | none => .error .notFound
  | some (.file _) => .error .notADirectory
  | some .folder =>
    if segment = [] ∨ segment = ['.'] then .ok place
    else if segment = ['.', '.'] then .ok place.dropLast
    else if longestName < (String.ofList segment).utf8ByteSize then .error .nameTooLong
    else .ok (place ++ [segment])

/-- Where a path starts. -/
def start (tree : FileTree) (path : String) : Place :=
  if path.toList.head? = some '/' then [] else tree.workingFolder

/-- The segments of a path that a file can have. -/
def segments (path : String) : Except IoError (List (List Char)) :=
  if path.toList.contains '\x00' then .error .invalidPath
  else if path.isEmpty then .error .notFound
  else if longestPath < path.utf8ByteSize then .error .nameTooLong
  else .ok (path.toList.splitOn '/')

/-- The place that a path leads to, whether or not anything is kept there. -/
def locate (tree : FileTree) (path : String) : Except IoError Place := do
  (← segments path).foldlM tree.step (tree.start path)

/-- What a path leads to. -/
def find (tree : FileTree) (path : String) : Except IoError FileNode := do
  match tree.node? (← tree.locate path) with
  | none => throw .notFound
  | some node => return node

/-- Whether a path leads to anything. -/
def present (tree : FileTree) (path : String) : Bool :=
  (tree.find path).isOk

/-- Whether a path leads to a file. -/
def isFile (tree : FileTree) (path : String) : Bool :=
  match tree.find path with
  | .ok (.file _) => true
  | _ => false

/-- Whether a path leads to a folder. -/
def isFolder (tree : FileTree) (path : String) : Bool :=
  match tree.find path with
  | .ok .folder => true
  | _ => false

/-! ## Reading -/

/-- The bytes of a file. -/
def read (tree : FileTree) (path : String) : Except IoError ByteArray := do
  match ← tree.find path with
  | .folder => throw .isADirectory
  | .file bytes => return bytes

/-- The text of a file. -/
def readText (tree : FileTree) (path : String) : Except IoError String := do
  decodeText (← tree.read path)

/-- The last name of a place that is directly in a folder. -/
def nameIn (folder place : Place) : Option (List Char) :=
  if place.dropLast = folder then place.getLast? else none

/-- The names in a folder in ascending order. -/
def list (tree : FileTree) (path : String) : Except IoError (List String) := do
  let place ← tree.locate path
  match tree.node? place with
  | none => throw .notFound
  | some (.file _) => throw .notADirectory
  | some .folder =>
    let names := tree.entries.keys.filterMap (nameIn place)
    return (names.map String.ofList).mergeSort fun first second => !(second < first)

/-! ## Changing files -/

/-- Takes a file away. -/
def remove (tree : FileTree) (path : String) : Except IoError FileTree := do
  let place ← tree.locate path
  match tree.node? place with
  | none => throw .notFound
  | some .folder => throw .isADirectory
  | some (.file _) => return tree.erase place

/-- Where a path names an entry of a folder: the place of the folder, the name, and whether the
path goes on with a slash. -/
def entryOf (tree : FileTree) (path : String) : Except IoError (Place × List Char × Bool) := do
  let pieces := (← segments path).reverse
  match pieces.dropWhile (·.isEmpty) with
  | [] => return ([], [], pieces.head?.any (·.isEmpty))
  | name :: outer =>
    let folder ← outer.reverse.foldlM tree.step (tree.start path)
    match tree.node? folder with
    | none => throw .notFound
    | some (.file _) => throw .notADirectory
    | some .folder => return (folder, name, pieces.head?.any (·.isEmpty))

/-- Whether a segment is a name, and not a step to where a path already was. -/
def isName (segment : List Char) : Bool :=
  segment ≠ [] && segment ≠ ['.'] && segment ≠ ['.', '.']

/-- Keeps a file at a place that is no folder. -/
def put (tree : FileTree) (place : Place) (bytes : ByteArray) : Except IoError FileTree :=
  match tree.node? place with
  | some .folder => .error .isADirectory
  | _ => .ok (tree.insert place (.file bytes))

/-- Puts a finished file, which is in the folder at `source`, in the place of the one that a path
names, in one step. It cannot take the place of a folder that it is in. -/
def replace (tree : FileTree) (source : Place) (path : String) (bytes : ByteArray) :
    Except IoError FileTree := do
  let (folder, name, slash) ← tree.entryOf path
  if !isName name then throw .busy
  let place ← tree.step folder name
  if slash then throw .notADirectory
  if place.isPrefixOf source then throw .directoryNotEmpty
  tree.put place bytes

/-! ## Making folders -/

/-- Makes one folder. -/
def makeFolder (tree : FileTree) (path : String) : Except IoError FileTree := do
  let (folder, name, _) ← tree.entryOf path
  if !isName name then throw .alreadyExists
  let place ← tree.step folder name
  match tree.node? place with
  | some _ => throw .alreadyExists
  | none => return tree.insert place .folder

/-- Makes one folder unless it is there. -/
def keepFolder (tree : FileTree) (path : String) : Except IoError FileTree :=
  match tree.makeFolder path with
  | .ok grown => .ok grown
  | .error cause => if tree.isFolder path then .ok tree else .error cause

/-- Makes the first of the paths a folder. Each path is in the folder that the next one names, and
what is missing there is made first. -/
def makeChain (tree : FileTree) : List String → Except IoError Unit × FileTree
  | [] => (.ok (), tree)
  | path :: outer =>
    match tree.makeFolder path with
    | .ok grown => (.ok (), grown)
    | .error .notFound =>
      match tree.makeChain outer with
      | (.error cause, grown) => (.error cause, grown)
      | (.ok (), grown) =>
        match grown.keepFolder path with
        | .ok last => (.ok (), last)
        | .error cause => (.error cause, grown)
    | .error cause => (if tree.isFolder path then .ok () else .error cause, tree)

/-- Makes a folder and those that lead to it, as far as they are missing. What was made before an
error stays. -/
def makeFolders (tree : FileTree) (path : String) : Except IoError Unit × FileTree :=
  if path.isEmpty then (.ok (), tree)
  else tree.makeChain (path :: Path.parents path)

/-- Writes the file that a path names. -/
def writeFile (tree : FileTree) (path : String) (bytes : ByteArray) : Except IoError FileTree := do
  let (folder, name, slash) ← tree.entryOf path
  if slash || !isName name then throw .isADirectory
  tree.put (← tree.step folder name) bytes

/-- Writes a file, and makes the folders that lead to it. -/
def write (tree : FileTree) (path : String) (bytes : ByteArray) : Except IoError Unit × FileTree :=
  match tree.makeFolders ((Path.parents path).headD "") with
  | (.error cause, grown) => (.error cause, grown)
  | (.ok (), grown) =>
    match grown.writeFile path bytes with
    | .ok last => (.ok (), last)
    | .error cause => (.error cause, grown)

end FileTree

end Templating
