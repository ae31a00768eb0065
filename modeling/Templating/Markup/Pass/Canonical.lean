import Templating.Markup.Pass.AttributeOrder
import Templating.Markup.Pass.Completion
import Templating.Markup.Pass.Marker
import Templating.Markup.Pass.Whitespace

/-!
# The canonical pipeline

The passes that bring every tree into canonical form, in their required order: class markers,
completed images and buttons, ordered attributes, tidy separators, collapsed line breaks and, when
it is asked for, compression.
-/

namespace Templating.Markup

/-- The settings of the canonical pipeline. -/
structure PipelineConfig where
  headingClass : String := "heading"
  subheadingTag : String := "small"
  subheadingClass : String := "subheading"
  /-- Collapse line breaks in every text, not only in blank text. -/
  normalizeWhitespace : Bool := false
  /-- Compress all text at the end. -/
  compress : Bool := false
  deriving DecidableEq, Repr, Inhabited

/-- The markers that the settings give to headings. -/
def PipelineConfig.markers (config : PipelineConfig) : HeadingMarkers :=
  ⟨config.headingClass, config.subheadingTag, config.subheadingClass⟩

/-- The canonical passes in order, or the fault of the settings. -/
def canonical (config : PipelineConfig) : Except PassError Pipeline :=
  (headingClass config.markers).map fun heading =>
    [heading, imageAlt, buttonType, attributeSort (leadingRank defaultLeading), interiorWhitespace,
      verticalWhitespace config.normalizeWhitespace] ++
      if config.compress then [Markup.compress] else []

end Templating.Markup
