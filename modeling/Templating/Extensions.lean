import Templating.Digest

/-!
# Extensions

An extension has a name and advertises tags. A set of extensions keeps the order in which they
were added and at most one extension under each name.

`attributeTags` collects the attribute-tags that a set advertises, and `fingerprint` is a digest
of the names and tags in order, with a control byte behind each name, each tag and each extension.
-/

namespace Templating

/-- A named list of tags. -/
structure Extension where
  name : String
  tags : List String
  deriving DecidableEq, Repr

/-- The tag that every project has, though no extension advertises it. -/
def implicitTag : String := "n:if"

/-- What the names of attribute-tags start with. -/
def attributeTagStart : String := "n:"

/-- Whether a tag is an attribute-tag. -/
def isAttributeTag (tag : String) : Bool :=
  attributeTagStart.toList.isPrefixOf tag.toList

/-- Extensions in the order in which they were added. -/
structure ExtensionSet where
  extensions : List Extension := []
  deriving DecidableEq, Repr

/-- The bytes of a text in UTF-8. -/
def utf8Bytes (text : String) : List UInt8 :=
  text.toList.flatMap String.utf8EncodeChar

namespace ExtensionSet

def names (set : ExtensionSet) : List String :=
  set.extensions.map Extension.name

def size (set : ExtensionSet) : Nat :=
  set.extensions.length

/-- Whether an extension of this name is in the set. -/
def contains (set : ExtensionSet) (name : String) : Bool :=
  set.names.contains name

/-- Adds an extension unless there is one of its name. -/
def add (set : ExtensionSet) (extension : Extension) : ExtensionSet :=
  if set.contains extension.name then set else ⟨set.extensions ++ [extension]⟩

/-- The set of extensions that are added one after the other. -/
def ofList (extensions : List Extension) : ExtensionSet :=
  extensions.foldl add {}

/-- Every tag that the set advertises, in order and with repetitions. -/
def advertised (set : ExtensionSet) : List String :=
  set.extensions.flatMap Extension.tags

/-- The implicit tag and the attribute-tags that the set advertises, each once and in order of
first appearance. -/
def attributeTags (set : ExtensionSet) : List String :=
  (implicitTag :: set.advertised.filter isAttributeTag).eraseDups

end ExtensionSet

/-- The bytes of an extension in the stream of its set. -/
def Extension.stream (extension : Extension) : List UInt8 :=
  utf8Bytes extension.name ++ 0x1e ::
    extension.tags.flatMap (fun tag => utf8Bytes tag ++ [0x1f]) ++ [0x1d]

namespace ExtensionSet

/-- The bytes whose digest is the fingerprint. -/
def stream (set : ExtensionSet) : List UInt8 :=
  set.extensions.flatMap Extension.stream

/-- A digest of the names and tags of the set. -/
def fingerprint (set : ExtensionSet) : String :=
  Digest.sha256Hex set.stream

/-! ## First facts -/

/-- An extension is added exactly when its name is new. -/
theorem add_of_contains {set : ExtensionSet} {extension : Extension}
    (known : set.contains extension.name = true) : set.add extension = set := by
  simp only [add, known, if_true]

/-- The attribute-tags are the implicit tag and what is advertised under the common start. -/
theorem mem_attributeTags {set : ExtensionSet} {tag : String} :
    tag ∈ set.attributeTags ↔
      tag = implicitTag ∨ (tag ∈ set.advertised ∧ isAttributeTag tag = true) := by
  simp [attributeTags]

end ExtensionSet

end Templating
