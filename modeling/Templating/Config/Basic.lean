import Templating.Directories
import Templating.Markup.Pass.Canonical

/-!
# Configuration

The settings of a compiler. Each has a default, so that a project only says what it changes.
-/

namespace Templating

open Markup

/-- A template directory of a configuration. -/
structure DirectoryConfig where
  path : String
  /-- Unless given, the order of the directories decides. -/
  priority : Option Int64 := none
  deriving DecidableEq, Repr

/-- What the priority of the directory is. -/
def DirectoryConfig.rank (directory : DirectoryConfig) : Priority :=
  match directory.priority with
  | none => .byCount
  | some value => .explicit value

/-- The settings of a compiler. -/
structure Config where
  /-- Templates under this directory are found where they are. -/
  projectRoot : String := "."
  /-- The folder of the tag cache. -/
  cacheDir : String := ".weft-cache"
  /-- What the tag cache knows the project by; the project root unless given. -/
  projectId : Option String := none
  templateExtension : String := defaultExtension
  /-- Whether templates are preprocessed; they are trimmed in any case. -/
  preprocess : Bool := true
  pipeline : PipelineConfig := {}
  directories : List DirectoryConfig := []
  deriving DecidableEq, Repr

/-- What the tag cache knows the project by. -/
def Config.identity (config : Config) : String :=
  config.projectId.getD config.projectRoot

/-- The directories of the project before any others are added. -/
def Config.searchPath (config : Config) : Directories :=
  config.directories.foldl (fun directories directory =>
    directories.add directory.path directory.rank)
    ((Directories.new config.projectRoot).withExtension config.templateExtension)

end Templating
