import Templating.Config.Basic
import Templating.IoError
import Templating.Markup.Printer
import Templating.Source.Preprocessor
import Templating.TagCache.Cache

/-!
# The compiler

A compiler finds a template, preprocesses its text, has it parsed, brings the tree into canonical
form and has output generated from it. Parsing and generating are given from outside.

The attribute-tags that preprocessing needs come from the tag cache. They are asked for once, by
the first call that needs them, and kept from then on. What a compiler does with the store of its
cache is a `StoreProgram`, so that a call which never touches the store is a program without calls.

What matches a tag in a source depends on the text of the tag only. That the patterns of the tags
are made once for a compiler and kept beside the tags is therefore left out, and so is that each
call which needs them fails with `SourceError.invalidPattern` when a tag is too long for a pattern.
-/

namespace Templating

open Markup Source

/-- Why a template was not compiled. -/
inductive CompileError where
  /-- The file of the template could not be read. -/
  | notFound (name path : String) (cause : IoError)
  /-- A canonical pass was set up wrongly, or failed. -/
  | invalidPass (cause : PassError)
  | preprocess (cause : SourceError)
  | parse (name cause : String)
  | generate (name cause : String)
  deriving DecidableEq, Repr

/-- The text that is shown to the user. -/
def CompileError.message : CompileError → String
  | .notFound name path cause =>
    s!"template '{name}' could not be read from {path}: {cause.message}"
  | .invalidPass cause => s!"invalid pass argument: {cause.message}"
  | .preprocess cause => s!"preprocessing failed: {cause.message}"
  | .parse name cause => s!"failed to parse template '{name}': {cause}"
  | .generate name cause => s!"failed to generate template '{name}': {cause}"

/-- What a compiler sees of the files at the time of a call, and that time. -/
structure Surroundings where
  now : Moment
  present : String → Bool
  readText : String → Except IoError String

/-- A text to a tree, or the reason why there is none. -/
abbrev SourceParser := String → Except String Tree

/-- A tree to output, or the reason why there is none. -/
abbrev Generator (α : Type) := Tree → Except String α

/-- The generator that writes the tree as markup. -/
def markupGenerator : Generator String := fun tree => .ok tree.markup

/-- A compiler and what it has found out so far. -/
structure Compiler where
  config : Config
  directories : Directories
  extensions : ExtensionSet
  tagCache : TagCache
  preprocessor : Preprocessor
  /-- The attribute-tags, once they were asked for. -/
  knownTags : Option (List String) := none

namespace Compiler

/-- Sets up a compiler, unless the configuration has settings that no canonical pass accepts. -/
def build (config : Config) (extensions : ExtensionSet := {}) (userStages : List UserStage := [])
    (minifier : Minifier := compactMinifier) : Except CompileError Compiler :=
  match canonical config.pipeline with
  | .error cause => .error (.invalidPass cause)
  | .ok _ => .ok {
      config
      directories := config.searchPath
      extensions
      tagCache := TagCache.new config.identity
      preprocessor := { enabled := config.preprocess, userStages, minifier } }

/-- The attribute-tags of the extensions. -/
def tags (compiler : Compiler) (now : Moment) : StoreProgram (List String × Compiler) :=
  match compiler.knownTags with
  | some tags => return (tags, compiler)
  | none => do
    let tags ← compiler.tagCache.loadOrBuild now compiler.extensions
    return (tags, { compiler with knownTags := some tags })

/-- Preprocesses a source with the attribute-tags; a disabled preprocessor needs none. -/
def preprocess (compiler : Compiler) (now : Moment) (source : String) :
    StoreProgram (Except CompileError String × Compiler) :=
  if compiler.preprocessor.enabled then do
    let (tags, informed) ← compiler.tags now
    return ((compiler.preprocessor.preprocess source tags).mapError .preprocess, informed)
  else
    return ((compiler.preprocessor.preprocess source).mapError .preprocess, compiler)

/-- The path of a template, from the search path that this locks. -/
def resolve (compiler : Compiler) (present : String → Bool) (name : String) : String × Compiler :=
  let (path, directories) := compiler.directories.resolve present name
  (path, { compiler with directories })

/-- The text of a template. -/
def source (compiler : Compiler) (surroundings : Surroundings) (name : String) :
    Except CompileError String × Compiler :=
  let (path, locked) := compiler.resolve surroundings.present name
  ((surroundings.readText path).mapError (.notFound name path), locked)

/-- The preprocessed text of a template. -/
def load (compiler : Compiler) (surroundings : Surroundings) (name : String) :
    StoreProgram (Except CompileError String × Compiler) :=
  match compiler.source surroundings name with
  | (.error cause, locked) => return (.error cause, locked)
  | (.ok text, locked) => locked.preprocess surroundings.now text

/-- Brings a tree into canonical form. -/
def canonicalTree (config : PipelineConfig) (tree : Tree) : Except CompileError Tree :=
  match canonical config with
  | .error cause => .error (.invalidPass cause)
  | .ok pipeline =>
    match pipeline.run tree with
    | .error cause _ => .error (.invalidPass cause)
    | .ok _ canonicalForm => .ok canonicalForm

/-- Turns preprocessed text into output, as the template `name`. -/
def finish {α : Type} (config : PipelineConfig) (parser : SourceParser) (generator : Generator α)
    (name text : String) : Except CompileError α := do
  let tree ← (parser text).mapError (.parse name)
  let canonicalForm ← canonicalTree config tree
  (generator canonicalForm).mapError (.generate name)

/-- Turns what preprocessing gave into output, as the template `name`. -/
def finished {α : Type} (parser : SourceParser) (generator : Generator α) (name : String)
    (preprocessed : Except CompileError String × Compiler) : Except CompileError α × Compiler :=
  let (text, compiler) := preprocessed
  (text >>= finish compiler.config.pipeline parser generator name, compiler)

/-- Compiles a template. -/
def compile {α : Type} (compiler : Compiler) (surroundings : Surroundings) (parser : SourceParser)
    (generator : Generator α) (name : String) : StoreProgram (Except CompileError α × Compiler) :=
  return finished parser generator name (← compiler.load surroundings name)

/-- Compiles a source as if it had been loaded as the template `name`. -/
def compileSource {α : Type} (compiler : Compiler) (now : Moment) (parser : SourceParser)
    (generator : Generator α) (name source : String) :
    StoreProgram (Except CompileError α × Compiler) :=
  return finished parser generator name (← compiler.preprocess now source)

/-! ## First facts -/

/-- A compiler that knows its tags gives them without a call on the store. -/
theorem tags_of_known {compiler : Compiler} {tags : List String}
    (known : compiler.knownTags = some tags) (now : Moment) :
    compiler.tags now = .done (tags, compiler) := by
  unfold Compiler.tags
  rw [known]
  rfl

/-- A disabled preprocessor never touches the store. -/
theorem preprocess_of_disabled {compiler : Compiler}
    (disabled : compiler.preprocessor.enabled = false) (now : Moment) (source : String) :
    compiler.preprocess now source =
      .done ((compiler.preprocessor.preprocess source).mapError .preprocess, compiler) := by
  unfold Compiler.preprocess
  rw [disabled]
  rfl

end Compiler

end Templating
