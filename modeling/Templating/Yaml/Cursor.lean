/-!
# Positions in a YAML text

A `Cursor` is what is still to be read of a text, with the line and the column that it starts at.
Line breaks, blanks, document marks and the gaps between the pieces of a scalar are read here.
-/

namespace Templating.Yaml

/-- Why a text is no YAML document. -/
inductive YamlError where
  /-- A character that no document may hold. -/
  | control (character : Char)
  /-- There is something else where this was expected. -/
  | expected (item : String) (line column : Nat)
  /-- A tag or an alias uses a name that nothing defines. -/
  | undefined (name : String)
  /-- The text goes on behind its first document. -/
  | severalDocuments
  deriving DecidableEq, Repr

/-! ## Characters -/

/-- Whether a document may hold a character. -/
def isAllowed (c : Char) : Bool :=
  c = '\t' || c = '\n' || c = '\r' || (' ' ≤ c && c ≤ '~') || c = '\u0085' ||
    ('\u00a0' ≤ c && c ≠ '\ufffe' && c ≠ '\uffff')

/-- Whether a character breaks a line. -/
def isBreak (c : Char) : Bool :=
  c = '\n' || c = '\r' || c = '\u0085' || c = '\u2028' || c = '\u2029'

/-- Whether a character is a blank within a line. -/
def isSpaceOrTab (c : Char) : Bool :=
  c = ' ' || c = '\t'

/-- Whether a character is a blank or breaks a line. -/
def isGap (c : Char) : Bool :=
  isSpaceOrTab c || isBreak c

/-- Whether a character may stand in a name, such as that of an anchor. -/
def isNameChar (c : Char) : Bool :=
  c.isAlphanum || c = '_' || c = '-'

/-- Whether a text ends or goes on with a gap. -/
def startsWithGap (text : List Char) : Bool :=
  text.head?.all isGap

/-- What a line break counts as in a scalar. -/
def keptBreak (c : Char) : Char :=
  if c = '\u2028' ∨ c = '\u2029' then c else '\n'

/-! ## Cursors -/

/-- What is still to be read, and where it stands in the text. -/
structure Cursor where
  rest : List Char
  /-- How many bytes stand in front of it. -/
  offset : Nat := 0
  line : Nat := 0
  /-- How many characters stand in front of it in its line. -/
  column : Nat := 0
  deriving DecidableEq, Repr

namespace Cursor

/-- Goes on by characters of the same line. -/
def skip (cursor : Cursor) (count : Nat) : Cursor :=
  let skipped := String.ofList (cursor.rest.take count)
  ⟨cursor.rest.drop count, cursor.offset + skipped.utf8ByteSize, cursor.line, cursor.column + count⟩

/-- The characters in front that satisfy `p`, and the cursor behind them. -/
def span (cursor : Cursor) (p : Char → Bool) : List Char × Cursor :=
  let run := cursor.rest.takeWhile p
  (run, cursor.skip run.length)

/-- Goes on behind the characters in front that satisfy `p`. -/
def skipWhile (cursor : Cursor) (p : Char → Bool) : Cursor :=
  (cursor.span p).2

/-- The line break in front, as it counts in a scalar, and the cursor behind it. -/
def lineBreak? (cursor : Cursor) : Option (Char × Cursor) :=
  match cursor.rest with
  | '\r' :: '\n' :: rest => some ('\n', ⟨rest, cursor.offset + 2, cursor.line + 1, 0⟩)
  | c :: rest =>
    if isBreak c then
      some (keptBreak c, ⟨rest, cursor.offset + c.utf8Size, cursor.line + 1, 0⟩)
    else
      none
  | [] => none

/-- Goes on behind the line break in front, if there is one. -/
def skipBreak (cursor : Cursor) : Cursor :=
  (cursor.lineBreak?.map Prod.snd).getD cursor

/-- Whether the text ends or the line does. -/
def atLineEnd (cursor : Cursor) : Bool :=
  cursor.rest.head?.all isBreak

/-- The character in front. -/
def head? (cursor : Cursor) : Option Char :=
  cursor.rest.head?

/-- Whether this character is in front. -/
def isAt (cursor : Cursor) (c : Char) : Bool :=
  cursor.rest.head? = some c

/-- The error that something else was expected here. -/
def expected (cursor : Cursor) (item : String) : YamlError :=
  .expected item cursor.line cursor.column

/-- Whether a line starts here with three of a character and a gap. -/
def atMark (cursor : Cursor) (c : Char) : Bool :=
  cursor.column = 0 && [c, c, c].isPrefixOf cursor.rest && startsWithGap (cursor.rest.drop 3)

/-- Whether a document starts or ends here. -/
def atDocumentMark (cursor : Cursor) : Bool :=
  cursor.atMark '-' || cursor.atMark '.'

/-- Goes on behind the blanks and the comment in front of a line's end. -/
def skipLineTail (cursor : Cursor) : Except YamlError Cursor :=
  let behind := cursor.skipWhile isSpaceOrTab
  let last := if behind.isAt '#' then behind.skipWhile (!isBreak ·) else behind
  if last.atLineEnd then .ok last.skipBreak
  else .error (last.expected "a comment or the end of the line")

end Cursor

/-! ## Gaps -/

/-- The blanks and the line breaks between two pieces of a scalar. -/
structure Gap where
  /-- The blanks in front of the first line break. -/
  blanks : List Char := []
  /-- The line breaks, as they count in a scalar. -/
  breaks : List Char := []
  deriving DecidableEq, Repr

/-- What a gap counts as: a single break as a space, more than one without the first. -/
def Gap.text (gap : Gap) : List Char :=
  match gap.breaks with
  | [] => gap.blanks
  | ['\n'] => [' ']
  | '\n' :: more => more
  | breaks => breaks

/-- Reads on in a gap. Behind a line break no tab may stand in front of column `limit`. -/
def Cursor.gapFrom (limit : Nat) : Nat → Gap → Cursor → Except YamlError (Gap × Cursor)
  | 0, gap, cursor => .ok (gap, cursor)
  | fuel + 1, gap, cursor =>
    match cursor.lineBreak? with
    | some (c, next) => next.gapFrom limit fuel ⟨[], gap.breaks ++ [c]⟩
    | none =>
      match cursor.rest with
      | c :: _ =>
        if !isSpaceOrTab c then .ok (gap, cursor)
        else if !gap.breaks.isEmpty && cursor.column < limit && c = '\t' then
          .error (cursor.expected "a space of the indentation")
        else
          (cursor.skip 1).gapFrom limit fuel
            (if gap.breaks.isEmpty then { gap with blanks := gap.blanks ++ [c] } else gap)
      | [] => .ok (gap, cursor)

/-- Reads a gap. Behind a line break no tab may stand in front of column `limit`. -/
def Cursor.gap (cursor : Cursor) (limit : Nat) : Except YamlError (Gap × Cursor) :=
  cursor.gapFrom limit cursor.rest.length {}

end Templating.Yaml
