import Templating.TagCache.Artifact
import Templating.TagCache.Store

/-!
# The tag cache

A cache keeps the artifact of one project and generator under one key of a store. `loadOrBuild`
gives the stored tags while they are fresh and collects them anew otherwise; a store that fails
never makes it fail, it only costs the collecting.
-/

namespace Templating

/-- The generator that artifacts are attributed to unless another one is named. -/
def defaultGenerator : String := "weft 0.1.0"

/-- Why an operation of a cache failed. -/
inductive CacheError where
  /-- The store did not give the artifact. -/
  | unreadable (key : String) (cause : IoError)
  /-- The bytes under the key are no artifact. -/
  | undecodable (key : String)
  /-- The store did not take or drop the artifact. -/
  | unwritable (key : String) (cause : IoError)
  deriving DecidableEq, Repr

/-- The text that is shown to the user, given where the store keeps a key. -/
def CacheError.message (path : String → String) : CacheError → String
  | .unreadable key cause => s!"failed to read tag cache {path key}: {cause.message}"
  | .undecodable key => s!"failed to read tag cache {path key}: not an artifact"
  | .unwritable key cause => s!"failed to write tag cache {path key}: {cause.message}"

/-- A cache of attribute-tags. -/
structure TagCache where
  key : String
  generator : String
  deriving DecidableEq, Repr

/-- The bytes whose digest names the key of a project and a generator. -/
def cacheKeyStream (projectId generator : String) : List UInt8 :=
  utf8Bytes projectId ++ 0 :: utf8Bytes generator

/-- The key of a project and a generator. -/
def cacheKey (projectId generator : String) : String :=
  Digest.sha256Hex (cacheKeyStream projectId generator) ++ ".json"

namespace TagCache

/-- The cache of a project whose artifacts are attributed to `generator`. -/
def new (projectId : String) (generator : String := defaultGenerator) : TagCache :=
  ⟨cacheKey projectId generator, generator⟩

/-- Reads the stored artifact, if there is one. -/
def load (cache : TagCache) : StoreProgram (Except CacheError (Option Artifact)) := do
  if ← StoreProgram.askPresent cache.key then
    match ← StoreProgram.askRead cache.key with
    | .error cause => return .error (.unreadable cache.key cause)
    | .ok bytes =>
      match Artifact.decode? bytes with
      | none => return .error (.undecodable cache.key)
      | some artifact => return .ok (some artifact)
  else
    return .ok none

/-- Stores an artifact. -/
def save (cache : TagCache) (artifact : Artifact) : StoreProgram (Except CacheError Unit) := do
  let answer ← StoreProgram.askWrite cache.key artifact.encode
  return answer.mapError (.unwritable cache.key)

/-- Removes the stored artifact. -/
def clear (cache : TagCache) : StoreProgram (Except CacheError Unit) := do
  let answer ← StoreProgram.askRemove cache.key
  return answer.mapError (.unwritable cache.key)

/-- The stored artifact when it is fresh for the extensions. -/
def freshFrom (set : ExtensionSet) : Except CacheError (Option Artifact) → Option Artifact
  | .ok (some artifact) => if artifact.isFreshFor set then some artifact else none
  | .ok none => none
  | .error _ => none

/-- Gives the stored tags when they are fresh; otherwise collects the tags, stores them and gives
them, whether or not they could be stored. -/
def loadOrBuild (cache : TagCache) (now : Moment) (set : ExtensionSet) :
    StoreProgram (List String) := do
  match freshFrom set (← cache.load) with
  | some artifact => return artifact.tags
  | none =>
    let artifact := Artifact.build now cache.generator set
    let _ ← cache.save artifact
    return artifact.tags

end TagCache

end Templating
