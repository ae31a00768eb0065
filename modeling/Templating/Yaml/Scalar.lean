import Templating.Text.Digits
import Templating.Yaml.Cursor

/-!
# Scalars

A scalar is written plain, between single or double quotes, or as an indented block that keeps its
line breaks or folds them. Each reader gives the text that a scalar stands for and the cursor
behind it.
-/

namespace Templating.Yaml

open Templating.Text

/-- How a scalar is written. -/
inductive ScalarStyle where
  | plain
  | singleQuoted
  | doubleQuoted
  | literal
  | folded
  deriving DecidableEq, Repr

/-! ## Plain scalars -/

/-- Whether a character is one of those that end a plain scalar within brackets. -/
def isFlowMark (c : Char) : Bool :=
  c = ',' || c = '[' || c = ']' || c = '\x7b' || c = '\x7d'

/-- The characters of a plain scalar up to the next gap. -/
def plainPiece (inFlow : Bool) : List Char → List Char
  | [] => []
  | c :: rest =>
    if isGap c || (c = ':' && startsWithGap rest) || (inFlow && isFlowMark c) then []
    else c :: plainPiece inFlow rest

/-- Whether a piece within brackets has a colon that nothing can follow. -/
def hasLooseColon : List Char → Bool
  | ':' :: rest => rest.head?.any (fun c => isFlowMark c || c = '?') || hasLooseColon rest
  | _ :: rest => hasLooseColon rest
  | [] => false

/-- A plain scalar, whether a line ended behind it, and the cursor there. -/
structure PlainScalar where
  text : List Char
  lineEnded : Bool
  cursor : Cursor
  deriving DecidableEq, Repr

/-- Reads on in a plain scalar behind a gap. Its lines have to be indented by `indent`. -/
def plainFrom (inFlow : Bool) (indent : Nat) :
    Nat → List Char → Gap → Cursor → Except YamlError PlainScalar
  | 0, text, gap, cursor => .ok ⟨text, !gap.breaks.isEmpty, cursor⟩
  | fuel + 1, text, gap, cursor =>
    let piece := plainPiece inFlow cursor.rest
    if cursor.atDocumentMark || cursor.isAt '#' || piece.isEmpty then
      .ok ⟨text, !gap.breaks.isEmpty, cursor⟩
    else
      let next := cursor.skip piece.length
      if inFlow && hasLooseColon (piece ++ next.rest.take 1) then
        .error (cursor.expected "a plain scalar")
      else
        let longer := text ++ gap.text ++ piece
        if next.head?.all (!isGap ·) then .ok ⟨longer, false, next⟩
        else
          match next.gap indent with
          | .error e => .error e
          | .ok (gap, behind) =>
            if !inFlow && behind.column < indent then .ok ⟨longer, !gap.breaks.isEmpty, behind⟩
            else plainFrom inFlow indent fuel longer gap behind

/-- Reads a plain scalar. -/
def readPlain (inFlow : Bool) (indent : Nat) (cursor : Cursor) : Except YamlError PlainScalar :=
  plainFrom inFlow indent (cursor.rest.length + 1) [] {} cursor

/-! ## Quoted scalars -/

/-- The value of a hexadecimal digit. -/
def hexValue? (c : Char) : Option Nat :=
  if c.isDigit then some (c.toNat - '0'.toNat)
  else if 'a' ≤ c ∧ c ≤ 'f' then some (c.toNat - 'a'.toNat + 10)
  else if 'A' ≤ c ∧ c ≤ 'F' then some (c.toNat - 'A'.toNat + 10)
  else none

/-- The character whose number is written with exactly `count` hexadecimal digits in front. -/
def codedChar? (count : Nat) (text : List Char) : Option Char := do
  let digits ← (text.take count).mapM hexValue?
  let value := digits.foldl (fun number digit => number * 16 + digit) 0
  if digits.length = count ∧ value.isValidChar then some (Char.ofNat value) else none

/-- The character that one letter behind a backslash stands for. -/
def escapedChar? : Char → Option Char
  | '0' => some '\x00'
  | 'a' => some '\x07'
  | 'b' => some '\x08'
  | 't' => some '\t'
  | '\t' => some '\t'
  | 'n' => some '\n'
  | 'v' => some '\x0b'
  | 'f' => some '\x0c'
  | 'r' => some '\r'
  | 'e' => some '\x1b'
  | ' ' => some ' '
  | '"' => some '"'
  | '/' => some '/'
  | '\\' => some '\\'
  | 'N' => some '\u0085'
  | '_' => some '\u00a0'
  | 'L' => some '\u2028'
  | 'P' => some '\u2029'
  | _ => none

/-- How many hexadecimal digits follow a letter behind a backslash. -/
def codeLength? : Char → Option Nat
  | 'x' => some 2
  | 'u' => some 4
  | 'U' => some 8
  | _ => none

/-- Reads what stands behind a backslash: the character, and how many it is written with. -/
def readEscape : List Char → Option (Char × Nat)
  | [] => none
  | c :: rest =>
    match codeLength? c with
    | some count => (codedChar? count rest).map fun coded => (coded, count + 1)
    | none => (escapedChar? c).map fun escaped => (escaped, 1)

/-- Whether a character of a quoted scalar stands for itself. -/
def isVerbatim (double : Bool) (c : Char) : Bool :=
  !isGap c && (if double then c ≠ '"' && c ≠ '\\' else c ≠ '\'')

/-- Reads on in a quoted scalar, `text` being what was read so far. -/
def quotedFrom (double : Bool) : Nat → List Char → Cursor → Except YamlError (List Char × Cursor)
  | 0, _, cursor => .error (cursor.expected "the end of a quoted scalar")
  | fuel + 1, text, cursor =>
    if cursor.atDocumentMark then .error (cursor.expected "the end of a quoted scalar")
    else
      match cursor.rest with
      | [] => .error (cursor.expected "the end of a quoted scalar")
      | c :: rest =>
        if isVerbatim double c then
          let (run, next) := cursor.span (isVerbatim double)
          quotedFrom double fuel (text ++ run) next
        else if isGap c then
          match cursor.gap 0 with
          | .error e => .error e
          | .ok (gap, next) => quotedFrom double fuel (text ++ gap.text) next
        else if double then
          if c = '"' then .ok (text, cursor.skip 1)
          else if rest.head?.any isBreak then
            match (cursor.skip 1).skipBreak.gap 0 with
            | .error e => .error e
            | .ok (gap, next) => quotedFrom double fuel (text ++ gap.breaks) next
          else
            match readEscape rest with
            | none => .error (cursor.expected "an escape sequence")
            | some (escaped, count) =>
              quotedFrom double fuel (text ++ [escaped]) (cursor.skip (count + 1))
        else if rest.head? = some '\'' then
          quotedFrom double fuel (text ++ ['\'']) (cursor.skip 2)
        else .ok (text, cursor.skip 1)

/-- Reads a quoted scalar from its opening quote on. -/
def readQuoted (double : Bool) (cursor : Cursor) : Except YamlError (List Char × Cursor) :=
  quotedFrom double (cursor.rest.length + 1) [] (cursor.skip 1)

/-! ## Block scalars -/

/-- What happens to the line breaks at the end of a block. -/
inductive Chomp where
  /-- None is kept. -/
  | strip
  /-- The one behind the last line is kept. -/
  | clip
  /-- All are kept. -/
  | keep
  deriving DecidableEq, Repr

/-- What the first line of a block says. -/
structure BlockHead where
  chomp : Chomp := .clip
  /-- By how much the block is indented more than what it is in; found out when not given. -/
  depth : Option Nat := none
  deriving DecidableEq, Repr

/-- The sign for what happens to the line breaks at the end. -/
def chompSign? (cursor : Cursor) : Option Chomp :=
  match cursor.head? with
  | some '+' => some .keep
  | some '-' => some .strip
  | _ => none

/-- The digit for the depth of a block; zero is none. -/
def depthDigit? (cursor : Cursor) : Except YamlError (Option Nat) :=
  match cursor.head? with
  | some '0' => .error (cursor.expected "a depth from 1 to 9")
  | some c => .ok (if c.isDigit then some (c.toNat - '0'.toNat) else none)
  | none => .ok none

/-- Reads the signs behind the mark of a block, in either order. -/
def readBlockHead (cursor : Cursor) : Except YamlError (BlockHead × Cursor) := do
  match chompSign? cursor with
  | some chomp =>
    let next := cursor.skip 1
    match ← depthDigit? next with
    | some depth => return (⟨chomp, some depth⟩, next.skip 1)
    | none => return (⟨chomp, none⟩, next)
  | none =>
    match ← depthDigit? cursor with
    | some depth =>
      let next := cursor.skip 1
      match chompSign? next with
      | some chomp => return (⟨chomp, some depth⟩, next.skip 1)
      | none => return (⟨.clip, some depth⟩, next)
    | none => return (⟨.clip, none⟩, cursor)

/-- Goes on behind the spaces that indent a line, at most up to column `limit` if there is one. -/
def skipIndent (limit : Option Nat) (cursor : Cursor) : Cursor :=
  let spaces := (cursor.rest.takeWhile (· = ' ')).length
  match limit with
  | none => cursor.skip spaces
  | some column => cursor.skip (min spaces (column - cursor.column))

/-- Reads the empty lines in front of a line of a block: their breaks, the furthest column of
their spaces, and the cursor at the line. -/
def emptyLines (limit : Option Nat) :
    Nat → List Char → Nat → Cursor → Except YamlError (List Char × Nat × Cursor)
  | 0, breaks, furthest, cursor => .ok (breaks, furthest, cursor)
  | fuel + 1, breaks, furthest, cursor =>
    let indented := skipIndent limit cursor
    let furthest := max furthest indented.column
    if limit.all (indented.column < ·) && indented.isAt '\t' then
      .error (indented.expected "a space of the indentation")
    else
      match indented.lineBreak? with
      | none => .ok (breaks, furthest, indented)
      | some (c, next) => emptyLines limit fuel (breaks ++ [c]) furthest next

/-- The break behind the line before, or what it is folded to. -/
def joinLines (fold : Bool) (last breaks : List Char) : List Char :=
  if fold && last.head? = some '\n' then (if breaks.isEmpty then [' '] else breaks)
  else last ++ breaks

/-- Reads the lines of a block. `last` is the break behind the line before, `breaks` are those of
the empty lines since, and `blankLine` says whether the line before began with a blank. -/
def blockFrom (fold : Bool) (chomp : Chomp) (indent : Nat) :
    Nat → List Char → List Char → List Char → Bool → Cursor → Except YamlError (List Char × Cursor)
  | 0, text, _, _, _, cursor => .ok (text, cursor)
  | fuel + 1, text, last, breaks, blankLine, cursor =>
    if cursor.column = indent ∧ cursor.rest ≠ [] then
      let blank := cursor.head?.any isSpaceOrTab
      let (line, lineEnd) := cursor.span (!isBreak ·)
      let longer := text ++ joinLines (fold && !blankLine && !blank) last breaks ++ line
      let (ended, next) := match lineEnd.lineBreak? with
        | some (c, next) => ([c], next)
        | none => ([], lineEnd)
      match emptyLines (some indent) (next.rest.length + 1) [] 0 next with
      | .error e => .error e
      | .ok (breaks, _, behind) => blockFrom fold chomp indent fuel longer ended breaks blank behind
    else
      .ok (match chomp with
        | .strip => (text, cursor)
        | .clip => (text ++ last, cursor)
        | .keep => (text ++ last ++ breaks, cursor))

/-- Reads a block from its mark on, in a place that is itself indented by `outer - 1`. -/
def readBlock (fold : Bool) (outer : Nat) (cursor : Cursor) :
    Except YamlError (List Char × Cursor) := do
  let (head, behind) ← readBlockHead (cursor.skip 1)
  let first ← behind.skipLineTail
  let given := head.depth.map fun depth => outer - 1 + depth
  let (breaks, furthest, start) ← emptyLines given (first.rest.length + 1) [] 0 first
  let indent := given.getD (max furthest (max outer 1))
  blockFrom fold head.chomp indent (start.rest.length + 1) [] [] breaks false start

end Templating.Yaml
