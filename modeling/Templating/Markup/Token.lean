import Templating.Markup.Node
import Templating.Text.Blank

/-!
# Markup tokens

Markup is a sequence of tokens: text, expressions in braces, start tags and end tags. A start tag
runs to the first `>` outside quotes; its name ends at the first blank, and the rest is its
attribute run of gaps and attributes.

`scanTokens` reads the tokens one after the other and stops at the first fault, which is the last
entry of its result.
-/

namespace Templating.Markup

open Templating.Text

/-- Why a source is not markup. -/
inductive MarkupError where
  | unclosedTag
  | unclosedEndTag
  | unclosedExpression
  | unclosedElement
  | unexpectedEndTag (name : String)
  | missingValue
  | unquotedValue
  | unclosedValue
  deriving DecidableEq, Repr

/-- The text that is shown to the user. -/
def MarkupError.message : MarkupError → String
  | .unclosedTag => "unclosed tag"
  | .unclosedEndTag => "unclosed end tag"
  | .unclosedExpression => "unclosed expression"
  | .unclosedElement => "unclosed element"
  | .unexpectedEndTag name => s!"unexpected </{name}>"
  | .missingValue => "missing attribute value"
  | .unquotedValue => "unquoted attribute value"
  | .unclosedValue => "unclosed attribute value"

/-- One part of an attribute run. -/
inductive RunItem where
  /-- The blanks between attributes. -/
  | gap (blanks : String)
  /-- An attribute; a value comes with the quote around it. -/
  | attr (name : String) (value : Option (AttrPart × Char))
  deriving DecidableEq, Repr

/-- One part of markup. -/
inductive Token where
  | text (content : String)
  | expression (source : String)
  | startTag (name : String) (run : List RunItem)
  /-- An end tag with everything that stands between `</` and `>`. -/
  | endTag (written : String)
  deriving DecidableEq, Repr

/-- What is read, or the fault that ends the reading. -/
abbrev Scanned := List (Except MarkupError Token)

/-! ## Attribute runs -/

/-- Where the reading of an attribute run stands; what is read of a piece is reversed. -/
inductive RunState where
  | start
  | gap (blanks : List Char)
  | name (name : List Char)
  /-- Behind the `=` of an attribute. -/
  | assigned (name : List Char)
  | value (name : List Char) (quote : Char) (value : List Char)
  deriving DecidableEq, Repr

/-- The text of characters that were read last to first. -/
def ofReversed (chars : List Char) : String :=
  String.ofList chars.reverse

/-- A value in braces is an expression, any other is text. -/
def readValue (value : List Char) : AttrPart :=
  match value with
  | '\x7b' :: inner =>
    if inner.getLast? = some '\x7d' then .expression (String.ofList inner.dropLast)
    else .text (String.ofList value)
  | _ => .text (String.ofList value)

/-- The state behind the first character of a piece. -/
def RunState.open (c : Char) : RunState :=
  if isBlank c then .gap [c] else if c = '=' then .assigned [] else .name [c]

/-- Reads the gaps and attributes of a run from a state on. -/
def readRunFrom : RunState → List Char → Except MarkupError (List RunItem)
  | .start, [] => .ok []
  | .gap blanks, [] => .ok [.gap (ofReversed blanks)]
  | .name name, [] => .ok [.attr (ofReversed name) none]
  | .assigned _, [] => .error .missingValue
  | .value .., [] => .error .unclosedValue
  | .start, c :: rest => readRunFrom (.open c) rest
  | .gap blanks, c :: rest =>
    if isBlank c then readRunFrom (.gap (c :: blanks)) rest
    else (readRunFrom (.open c) rest).map (.gap (ofReversed blanks) :: ·)
  | .name name, c :: rest =>
    if c = '=' then readRunFrom (.assigned name) rest
    else if isBlank c then
      (readRunFrom (.gap [c]) rest).map (.attr (ofReversed name) none :: ·)
    else readRunFrom (.name (c :: name)) rest
  | .assigned name, c :: rest =>
    if c = '"' ∨ c = '\'' then readRunFrom (.value name c []) rest else .error .unquotedValue
  | .value name quote value, c :: rest =>
    if c = quote then
      (readRunFrom .start rest).map
        (.attr (ofReversed name) (some (readValue value.reverse, quote)) :: ·)
    else readRunFrom (.value name quote (c :: value)) rest

/-- Reads the attribute run of a start tag. -/
def readRun (text : List Char) : Except MarkupError (List RunItem) :=
  readRunFrom .start text

/-- Reads what stands between `<` and `>` of a start tag. -/
def readStartTag (body : List Char) : Except MarkupError Token :=
  (readRun (body.dropWhile fun c => !isBlank c)).map
    (.startTag (String.ofList (body.takeWhile fun c => !isBlank c)))

/-! ## Tokens -/

/-- Where the reading of markup stands; what is read of a token is reversed. -/
inductive ScanState where
  | text (content : List Char)
  | expression (source : List Char)
  /-- Behind a `<`. -/
  | opened
  | startTag (quote : Option Char) (body : List Char)
  | endTag (written : List Char)
  deriving DecidableEq, Repr

/-- The token of text that has been read; empty text is no token. -/
def textToken (content : List Char) : Scanned :=
  if content.isEmpty then [] else [.ok (.text (ofReversed content))]

/-- The quote that is open behind a character of a start tag. -/
def quoteBehind (quote : Option Char) (c : Char) : Option Char :=
  match quote with
  | some mark => if c = mark then none else some mark
  | none => if c = '"' ∨ c = '\'' then some c else none

/-- Reads tokens from a state on, up to the first fault. -/
def scanFrom : ScanState → List Char → Scanned
  | .text content, [] => textToken content
  | .expression _, [] => [.error .unclosedExpression]
  | .opened, [] => [.error .unclosedTag]
  | .startTag .., [] => [.error .unclosedTag]
  | .endTag _, [] => [.error .unclosedEndTag]
  | .text content, c :: rest =>
    if c = '<' then textToken content ++ scanFrom .opened rest
    else if c = '\x7b' then textToken content ++ scanFrom (.expression []) rest
    else scanFrom (.text (c :: content)) rest
  | .expression source, c :: rest =>
    if c = '\x7d' then .ok (.expression (ofReversed source)) :: scanFrom (.text []) rest
    else scanFrom (.expression (c :: source)) rest
  | .endTag written, c :: rest =>
    if c = '>' then .ok (.endTag (ofReversed written)) :: scanFrom (.text []) rest
    else scanFrom (.endTag (c :: written)) rest
  | .opened, c :: rest =>
    if c = '/' then scanFrom (.endTag []) rest
    else if c = '>' then .ok (.startTag "" []) :: scanFrom (.text []) rest
    else scanFrom (.startTag (quoteBehind none c) [c]) rest
  | .startTag quote body, c :: rest =>
    if quote = none ∧ c = '>' then
      match readStartTag body.reverse with
      | .ok token => .ok token :: scanFrom (.text []) rest
      | .error fault => [.error fault]
    else
      scanFrom (.startTag (quoteBehind quote c) (c :: body)) rest

/-- The tokens of a source, up to the first fault. -/
def scanTokens (source : List Char) : Scanned :=
  scanFrom (.text []) source

end Templating.Markup
