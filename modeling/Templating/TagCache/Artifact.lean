import Templating.Calendar
import Templating.Extensions
import Templating.Json.Reader

/-!
# Tag artifacts

An artifact is a stored list of attribute-tags with the count and the fingerprint of the
extensions that it was collected from. It is fresh for a set of extensions when both agree.

An artifact is stored as a JSON object with one field on a line; it is read back from any JSON
object that has each of the five fields once, or from an array of the five values.
-/

namespace Templating

open Templating.Text

/-- A stored list of attribute-tags. -/
structure Artifact where
  generator : String
  generatedAt : Moment
  extensionCount : UInt64
  fingerprint : String
  tags : List String
  deriving DecidableEq, Repr

namespace Artifact

/-- Collects the tags of a set of extensions. -/
def build (now : Moment) (generator : String) (set : ExtensionSet) : Artifact where
  generator := generator
  generatedAt := now
  extensionCount := UInt64.ofNat set.size
  fingerprint := set.fingerprint
  tags := set.attributeTags

/-- Whether the artifact was collected from extensions with this count and fingerprint. -/
def isFresh (artifact : Artifact) (count : UInt64) (fingerprint : String) : Bool :=
  artifact.extensionCount = count && artifact.fingerprint = fingerprint

/-- Whether the artifact was collected from extensions such as these. -/
def isFreshFor (artifact : Artifact) (set : ExtensionSet) : Bool :=
  artifact.isFresh (UInt64.ofNat set.size) set.fingerprint

/-! ## Writing -/

/-- A list of tags, one on a line. -/
def renderTags (tags : List String) : List Char :=
  if tags.isEmpty then ['[', ']']
  else "[\n    ".toList ++ ",\n    ".toList.intercalate (tags.map Json.quote) ++ "\n  ]".toList

/-- A field of the object on a line of its own. -/
def renderField (name : String) (value : List Char) : List Char :=
  "\n  ".toList ++ Json.quote name ++ ':' :: ' ' :: value

/-- The text that an artifact is stored as. -/
def render (artifact : Artifact) : String :=
  String.ofList <|
    '\x7b' :: renderField "generator" (Json.quote artifact.generator) ++
    ',' :: renderField "generated_at" ('"' :: artifact.generatedAt.render ++ ['"']) ++
    ',' :: renderField "extension_count" (Nat.toDigits 10 artifact.extensionCount.toNat) ++
    ',' :: renderField "fingerprint" (Json.quote artifact.fingerprint) ++
    ',' :: renderField "tags" (renderTags artifact.tags) ++ ['\n', '\x7d']

/-- The bytes that an artifact is stored as. -/
def encode (artifact : Artifact) : ByteArray :=
  artifact.render.toUTF8

/-! ## Reading -/

/-- The names of the fields in the order in which they are written. -/
def fieldNames : List String :=
  ["generator", "generated_at", "extension_count", "fingerprint", "tags"]

/-- The member of an object that is the only one of its name. -/
def onlyMember? (members : List (Option String × Json.Value)) (name : String) :
    Option Json.Value :=
  match members.filter (·.1 = some name) with
  | [(_, value)] => some value
  | _ => none

/-- The values of the fields in order. -/
def fieldValues? : Json.Value → Option (List Json.Value)
  | .array elements => some elements
  | .object members =>
    if members.all (·.1.isSome) then fieldNames.mapM (onlyMember? members) else none
  | _ => none

/-- The artifact with these values of its fields. -/
def ofFields? : List Json.Value → Option Artifact
  | [generator, generatedAt, count, fingerprint, tags] => do
    let generator ← generator.text?
    let generatedAt ← readMoment (← generatedAt.text?).toList
    let count ← count.countBelow? UInt64.size
    let fingerprint ← fingerprint.text?
    let tags ← tags.texts?
    return ⟨generator, generatedAt, UInt64.ofNat count, fingerprint, tags⟩
  | _ => none

/-- The artifact that bytes hold, if they hold one. -/
def decode? (bytes : ByteArray) : Option Artifact := do
  ofFields? (← fieldValues? (← Json.readJson bytes))

/-! ## First facts -/

theorem isFreshFor_iff {artifact : Artifact} {set : ExtensionSet} :
    artifact.isFreshFor set = true ↔
      artifact.extensionCount = UInt64.ofNat set.size ∧ artifact.fingerprint = set.fingerprint := by
  rw [isFreshFor, isFresh, Bool.and_eq_true, decide_eq_true_eq, decide_eq_true_eq]

end Artifact

end Templating
