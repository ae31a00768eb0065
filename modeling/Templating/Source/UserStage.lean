import Templating.Text.Substitution

/-!
# User stages and minifiers

A user stage is a named step of the user's own that turns a whole text into another one or refuses
it. A minifier is the last step and cannot fail. The stages and minifiers below replace,
append, put in lower case and refuse.
-/

namespace Templating.Source

open Templating.Text

/-- Why a text could not be preprocessed. -/
inductive SourceError where
  /-- A stage rejected its input or was set up wrongly. -/
  | invalidStage (stage message : String)
  /-- The pattern for an attribute-tag is unusable. -/
  | invalidPattern (tag cause : String)
  deriving DecidableEq, Repr

namespace SourceError

/-- The text that is shown to the user. -/
def message : SourceError → String
  | .invalidStage stage message => s!"stage '{stage}': {message}"
  | .invalidPattern tag cause => s!"invalid pattern for tag '{tag}': {cause}"

/-- The stage or the tag that the error is about. -/
def origin : SourceError → String
  | .invalidStage stage _ => stage
  | .invalidPattern tag _ => tag

/-- The error as it is reported under the name of a stage: one that names a stage already is
kept, any other becomes the message of that stage. -/
def underStage (stage : String) : SourceError → SourceError
  | .invalidStage named message => .invalidStage named message
  | other => .invalidStage stage other.message

end SourceError

/-- A named whole-text step that may refuse its input. -/
structure UserStage where
  name : String
  apply : String → Except SourceError String

/-- The last step over a text. -/
abbrev Minifier := String → String

/-- Whether `needle` stands somewhere in `text`. -/
def holds (needle text : String) : Bool :=
  containsText needle.toList text.toList

/-- Replaces every `needle` from left to right without overlap. -/
def replaceText (needle replacement text : String) : String :=
  String.ofList (replaceAll needle.toList replacement.toList text.toList)

namespace UserStage

/-- Replaces every `needle`. -/
def replacing (name needle replacement : String) : UserStage where
  name := name
  apply text := .ok (replaceText needle replacement text)

/-- Puts `tail` behind the text. -/
def appending (name tail : String) : UserStage where
  name := name
  apply text := .ok (text ++ tail)

/-- Writes the letters `A` to `Z` in lower case. -/
def lowering (name : String) : UserStage where
  name := name
  apply text := .ok (text.map Char.toLower)

/-- Refuses a text that holds `needle` with `error` and keeps any other. -/
def refusing (name needle : String) (error : SourceError) : UserStage where
  name := name
  apply text := if holds needle text then .error error else .ok text

/-- Runs the stage, reporting its failure under its own name. -/
def run (stage : UserStage) (text : String) : Except SourceError String :=
  (stage.apply text).mapError (SourceError.underStage stage.name)

end UserStage

/-- Runs user stages in order, each on the output of the one before, up to the first failure. -/
def runUserStages : List UserStage → String → Except SourceError String
  | [], text => .ok text
  | stage :: rest, text => do runUserStages rest (← stage.run text)

/-- The minifier that keeps the text. -/
def passthrough : Minifier := id

/-- The minifier that replaces every `needle`. -/
def replacingMinifier (needle replacement : String) : Minifier :=
  replaceText needle replacement

end Templating.Source
