import Templating.Files.Tree
import Templating.TagCache.Store

/-!
# Stores in a folder

`fileStore` keeps each key as a file of one folder, which is made by the first write. A write puts
a file that was finished in this folder in the place of the old one, so that no reader meets half
of it.
-/

namespace Templating

/-- Puts a file that was finished in the folder `root` in the place of the one that a key names. -/
def replaceIn (root key : String) (bytes : ByteArray) (tree : FileTree) :
    Except IoError FileTree := do
  let source ← if root.isEmpty then pure tree.workingFolder else tree.locate root
  tree.replace source (Path.join root key) bytes

/-- The store that keeps each key as a file of the folder `root`. -/
def fileStore (root : String) : Store FileTree where
  path key := Path.join root key
  present key tree := tree.isFile (Path.join root key)
  read key tree := tree.read (Path.join root key)
  write key bytes tree :=
    match tree.makeFolders root with
    | (.error cause, grown) => (.error cause, grown)
    | (.ok (), grown) =>
      match replaceIn root key bytes grown with
      | .error cause => (.error cause, grown)
      | .ok written => (.ok (), written)
  remove key tree :=
    match tree.remove (Path.join root key) with
    | .ok cleared => (.ok (), cleared)
    | .error .notFound => (.ok (), tree)
    | .error cause => (.error cause, tree)

end Templating
