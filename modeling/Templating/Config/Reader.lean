import Templating.Config.Basic
import Templating.IoError
import Templating.Yaml.Typed

/-!
# Reading a configuration

A configuration is written as a YAML mapping. A setting that is not in it has its default, one
that is in it twice makes it invalid, and names that are no settings are passed over.
-/

namespace Templating

open Yaml

/-- Why there is no configuration. -/
inductive ConfigError where
  | unreadable (path : String) (cause : IoError)
  /-- The text is no YAML document. -/
  | malformed (cause : YamlError)
  /-- A setting is missing, given twice, or of the wrong kind. -/
  | mistyped
  deriving DecidableEq, Repr

/-- The text that is shown to the user. -/
def ConfigError.message : ConfigError → String
  | .unreadable path cause => s!"invalid configuration: failed to read {path}: {cause.message}"
  | .malformed _ => "invalid configuration: not a YAML document"
  | .mistyped => "invalid configuration: a setting is missing, given twice, or of the wrong kind"

/-- A node as a template directory. -/
def directoryConfig? (document : Document) (node : Node) : Option DirectoryConfig := do
  let fields ← document.record? node
  let path ← fieldOr fields "path" none document.text?
  let priority ← fieldOr fields "priority" (some none) (document.optional? document.integer?)
  return ⟨path, priority⟩

/-- A node as the settings of the canonical pipeline; other settings may stand beside them. -/
def pipelineConfig? (document : Document) (fields : List (String × Node)) :
    Option Markup.PipelineConfig := do
  let normal : Markup.PipelineConfig := {}
  let headingClass ← fieldOr fields "heading_class" (some normal.headingClass) document.text?
  let subheadingTag ← fieldOr fields "subheading_tag" (some normal.subheadingTag) document.text?
  let subheadingClass ←
    fieldOr fields "subheading_class" (some normal.subheadingClass) document.text?
  let normalizeWhitespace ←
    fieldOr fields "normalize_whitespace" (some normal.normalizeWhitespace) document.flag?
  let compress ← fieldOr fields "compress" (some normal.compress) document.flag?
  return { headingClass, subheadingTag, subheadingClass, normalizeWhitespace, compress }

/-- The fields of a configuration. -/
def config? (document : Document) (fields : List (String × Node)) : Option Config := do
  let normal : Config := {}
  let projectRoot ← fieldOr fields "project_root" (some normal.projectRoot) document.text?
  let cacheDir ← fieldOr fields "cache_dir" (some normal.cacheDir) document.text?
  let projectId ←
    fieldOr fields "project_id" (some normal.projectId) (document.optional? document.text?)
  let templateExtension ←
    fieldOr fields "template_extension" (some normal.templateExtension) document.text?
  let preprocess ← fieldOr fields "preprocess" (some normal.preprocess) document.flag?
  let pipeline ← pipelineConfig? document fields
  let directories ← fieldOr fields "directories" (some normal.directories)
    (document.list? (directoryConfig? document))
  return { projectRoot, cacheDir, projectId, templateExtension, preprocess, pipeline, directories }

/-- The configuration of a document. An empty one says nothing about any setting. -/
def Config.ofDocument? (document : Document) : Option Config :=
  match document.root with
  | none => some {}
  | some root => document.record? root >>= config? document

/-- Reads a configuration. -/
def Config.ofYaml (text : String) : Except ConfigError Config :=
  match readDocument text with
  | .error cause => .error (.malformed cause)
  | .ok document =>
    match Config.ofDocument? document with
    | none => .error .mistyped
    | some config => .ok config

/-- Reads a configuration from a file, given what files hold. -/
def Config.ofFile (readText : String → Except IoError String) (path : String) :
    Except ConfigError Config :=
  match readText path with
  | .error cause => .error (.unreadable path cause)
  | .ok text => Config.ofYaml text

end Templating
