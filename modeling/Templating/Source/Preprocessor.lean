import Templating.Source.Arrow
import Templating.Source.Lines
import Templating.Source.OpeningTag
import Templating.Source.UserStage
import Templating.Source.TagValue

/-!
# The preprocessor

A preprocessor turns the raw source of a template into the text that a parser reads. It trims
the source and, when it is enabled, runs the six stages of `Stage.order` over it. The user's
user stages work while the member-access arrows are hidden, and the minifier is always last.
-/

namespace Templating.Source

open Templating.Text

/-- One step of the preprocessor. -/
inductive Stage where
  | inlineTags
  | protectArrows
  | normalizeTagValues
  | userStages
  | restoreArrows
  | compress
  deriving DecidableEq, Repr

namespace Stage

/-- Every stage in the order in which they run. -/
def order : List Stage :=
  [.inlineTags, .protectArrows, .normalizeTagValues, .userStages, .restoreArrows, .compress]

/-- The name of a stage in messages. -/
def name : Stage → String
  | .inlineTags => "inline-tags"
  | .protectArrows => "protect-operators"
  | .normalizeTagValues => "normalize-tag-values"
  | .userStages => "rewriters"
  | .restoreArrows => "restore-operators"
  | .compress => "compress"

end Stage

/-- Applies a step on characters to a text. -/
def onText (step : List Char → List Char) (text : String) : String :=
  String.ofList (step text.toList)

/-- The default minifier: strips line ends and keeps at most one empty line in a row. -/
def compactMinifier : Minifier :=
  onText compactLines

/-- A preprocessor and everything that it was set up with. -/
structure Preprocessor where
  enabled : Bool := true
  tags : List String := []
  userStages : List UserStage := []
  minifier : Minifier := compactMinifier

namespace Preprocessor

/-- Runs one stage; `extraTags` are normalised after the preprocessor's own tags. -/
def runStage (preprocessor : Preprocessor) (extraTags : List String) (text : String) :
    Stage → Except SourceError String
  | .inlineTags => .ok (onText Source.inlineTags text)
  | .protectArrows => .ok (onText Source.protectArrows text)
  | .normalizeTagValues => .ok (onText (normalizeTags (preprocessor.tags ++ extraTags)) text)
  | .userStages => runUserStages preprocessor.userStages text
  | .restoreArrows => .ok (onText Source.restoreArrows text)
  | .compress => .ok (preprocessor.minifier text)

/-- Trims the source and runs every stage over it, up to the first failure; a disabled
preprocessor only trims. -/
def preprocess (preprocessor : Preprocessor) (source : String) (extraTags : List String := []) :
    Except SourceError String :=
  let trimmed := onText trim source
  if preprocessor.enabled then
    Stage.order.foldlM (preprocessor.runStage extraTags) trimmed
  else
    .ok trimmed

end Preprocessor

/-- The text after each stage that works without user stages, in order: tags on one line, arrows
hidden, tag values normal, arrows restored, blank lines dropped. -/
def stageTexts (tags : List String) (source : String) : List String :=
  let inlined := onText inlineTags (onText trim source)
  let hidden := onText protectArrows inlined
  let normal := onText (normalizeTags tags) hidden
  let restored := onText restoreArrows normal
  [inlined, hidden, normal, restored, compactMinifier restored]

end Templating.Source
