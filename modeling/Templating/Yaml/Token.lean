import Templating.Yaml.Scalar

/-!
# Tokens

A YAML text is a sequence of tokens: marks, scalars and the ends of indented blocks. What a mark
means can depend on what follows it: only the colon behind a key shows that it is a key. So the
place where a key may have begun is kept in mind, and the tokens that belong there are put in when
its colon comes.
-/

namespace Templating.Yaml

/-- The parts of a YAML text. -/
inductive Token where
  /-- The version of the format that a document is written in. -/
  | version (major minor : Nat)
  /-- A short form for the beginning of tags. -/
  | tagHandle (handle stem : List Char)
  | documentStart
  | documentEnd
  | blockSequence
  | blockMapping
  | blockEnd
  | flowSequence
  | flowSequenceEnd
  | flowMapping
  | flowMappingEnd
  | blockEntry
  | flowEntry
  | key
  | value
  | alias (name : List Char)
  | anchor (name : List Char)
  /-- A tag with its short form, which is empty when the tag is written in full. -/
  | tag (handle rest : List Char)
  | scalar (style : ScalarStyle) (text : List Char)
  deriving DecidableEq, Repr

/-- A place where a key may have begun. -/
structure PossibleKey where
  /-- How many tokens stand in front of it. -/
  token : Nat
  /-- The block cannot go on without a key here. -/
  required : Bool
  offset : Nat
  line : Nat
  column : Nat
  deriving DecidableEq, Repr

/-- The tokens read so far and what decides on those that follow. -/
structure Lexer where
  cursor : Cursor
  tokens : List Token := []
  /-- The columns of the blocks that are open, the innermost first. -/
  indents : List Nat := []
  /-- The place of a possible key outside of brackets and, in front of it, within each that is
  open. -/
  keys : List (Option PossibleKey) := [none]
  /-- A key may begin here. -/
  keyAllowed : Bool := true
  deriving DecidableEq, Repr

namespace Lexer

/-- How many brackets are open. -/
def depth (lexer : Lexer) : Nat :=
  lexer.keys.length - 1

/-- Whether a bracket is open. -/
def inFlow (lexer : Lexer) : Bool :=
  lexer.depth ≠ 0

/-- The first column behind that of the innermost block. -/
def outer (lexer : Lexer) : Nat :=
  (lexer.indents.head?.map (· + 1)).getD 0

def expected {α : Type} (lexer : Lexer) (item : String) : Except YamlError α :=
  .error (lexer.cursor.expected item)

/-- Adds a token. -/
def push (lexer : Lexer) (token : Token) : Lexer :=
  { lexer with tokens := lexer.tokens ++ [token] }

/-- Adds a token that is written with `count` characters. -/
def mark (lexer : Lexer) (token : Token) (count : Nat) : Lexer :=
  { lexer.push token with cursor := lexer.cursor.skip count }

/-- Puts a token in front of those behind the first `place`. -/
def insertAt (lexer : Lexer) (place : Nat) (token : Token) : Lexer :=
  { lexer with tokens := lexer.tokens.take place ++ token :: lexer.tokens.drop place }

/-! ## Blocks -/

/-- Opens a block at a column that is behind that of the innermost block. -/
def openBlock (lexer : Lexer) (column place : Nat) (token : Token) : Lexer :=
  if lexer.inFlow || column < lexer.outer then lexer
  else { lexer.insertAt place token with indents := column :: lexer.indents }

/-- Closes the blocks that satisfy `p`, from the innermost on. -/
def closeBlocks (lexer : Lexer) (p : Nat → Bool) : Lexer :=
  if lexer.inFlow then lexer
  else
    let closed := lexer.indents.takeWhile p
    { lexer with
      tokens := lexer.tokens ++ closed.map fun _ => .blockEnd
      indents := lexer.indents.drop closed.length }

/-! ## Possible keys -/

/-- The longest key in bytes. -/
def longestKey : Nat := 1024

/-- Whether a key that began there may still end here: on its line and not too far on. -/
def mayEnd (cursor : Cursor) (key : PossibleKey) : Bool :=
  key.line = cursor.line && cursor.offset ≤ key.offset + longestKey

/-- Forgets the keys whose colon can no longer come. -/
def dropStale (lexer : Lexer) : Except YamlError Lexer :=
  let stale (key : PossibleKey) : Bool := !mayEnd lexer.cursor key
  if lexer.keys.any (·.any fun key => stale key && key.required) then lexer.expected "a colon"
  else .ok { lexer with keys := lexer.keys.map fun key => key.filter (!stale ·) }

/-- Forgets the possible key within the innermost bracket. -/
def dropKey (lexer : Lexer) : Except YamlError Lexer :=
  match lexer.keys with
  | some key :: others =>
    if key.required then lexer.expected "a colon" else .ok { lexer with keys := none :: others }
  | _ => .ok lexer

/-- Keeps in mind that a key may begin here. -/
def saveKey (lexer : Lexer) : Except YamlError Lexer := do
  if lexer.keyAllowed then
    let cleared ← lexer.dropKey
    let place := lexer.cursor
    let required := !lexer.inFlow && lexer.indents.head? = some place.column
    let key := ⟨lexer.tokens.length, required, place.offset, place.line, place.column⟩
    return { cleared with keys := some key :: cleared.keys.tail }
  else
    return lexer

/-- Says whether a key may begin behind what was just read. -/
def allowKey (lexer : Lexer) (keyAllowed : Bool) : Lexer :=
  { lexer with keyAllowed := keyAllowed }

/-! ## Between tokens -/

/-- The mark of the byte order, which may stand once in front of each line. -/
def byteOrderMark : Char := '\ufeff'

/-- Goes on behind a mark of the byte order in front of a line. -/
def skipMark (cursor : Cursor) : Cursor :=
  if cursor.column = 0 && cursor.isAt byteOrderMark then cursor.skip 1 else cursor

/-- Goes on to where the next token begins. A tab cannot stand where a key may begin, and outside
of brackets a key may begin on every new line. -/
def skipBetween (lexer : Lexer) : Nat → Lexer
  | 0 => lexer
  | fuel + 1 =>
    let tabs := lexer.inFlow || !lexer.keyAllowed
    let behind := (skipMark lexer.cursor).skipWhile fun c => c = ' ' || (tabs && c = '\t')
    let last := if behind.isAt '#' then behind.skipWhile (!isBreak ·) else behind
    match last.lineBreak? with
    | none => { lexer with cursor := last }
    | some (_, next) =>
      let keyAllowed := lexer.keyAllowed || !lexer.inFlow
      { lexer with cursor := next, keyAllowed }.skipBetween fuel

/-! ## Directives -/

/-- Reads a number of at most nine digits. -/
def readNumber (cursor : Cursor) : Except YamlError (Nat × Cursor) :=
  let (digits, behind) := cursor.span Char.isDigit
  if digits.isEmpty || 9 < digits.length then .error (cursor.expected "a version number")
  else .ok (Text.decimalValue digits, behind)

/-- The bytes that are written as percent signs with two hexadecimal digits each, up to `count`. -/
def percentBytes : Nat → List Char → Option (List UInt8)
  | 0, _ => some []
  | count + 1, '%' :: high :: low :: rest => do
    let byte := 16 * (← hexValue? high) + (← hexValue? low)
    return UInt8.ofNat byte :: (← percentBytes count rest)
  | _, _ => none

/-- How many bytes a character has that begins with this byte. -/
def bytesOf (first : UInt8) : Nat :=
  if first < 0x80 then 1
  else if 0xc0 ≤ first ∧ first < 0xe0 then 2
  else if 0xe0 ≤ first ∧ first < 0xf0 then 3
  else if 0xf0 ≤ first ∧ first < 0xf8 then 4
  else 0

/-- Reads a character that is written as percent signs with hexadecimal digits. Bytes that go
together but are no character count as the replacement character. -/
def readPercent (cursor : Cursor) : Except YamlError (Char × Cursor) :=
  let coded : Option (List UInt8) := do
    let first ← (← percentBytes 1 cursor.rest).head?
    percentBytes (bytesOf first) cursor.rest
  match coded with
  | some (first :: more) =>
    if more.all fun byte => 0x80 ≤ byte && byte < 0xc0 then
      let text := (String.fromUTF8? ⟨(first :: more).toArray⟩).getD "\ufffd"
      .ok (text.toList.headD '\ufffd', cursor.skip (3 * (more.length + 1)))
    else
      .error (cursor.expected "a character in hexadecimal digits")
  | _ => .error (cursor.expected "a character in hexadecimal digits")

/-- Whether a character may stand in a tag. -/
def isTagChar (full : Bool) (c : Char) : Bool :=
  isNameChar c || ";/?:@&=+$.!~*'()%".toList.contains c || (full && [',', '[', ']'].contains c)

/-- Reads the rest of a tag. -/
def readTagRest (full : Bool) : Nat → List Char → Cursor → Except YamlError (List Char × Cursor)
  | 0, text, cursor => .ok (text, cursor)
  | fuel + 1, text, cursor =>
    match cursor.rest with
    | [] => .ok (text, cursor)
    | c :: _ =>
      if !isTagChar full c then .ok (text, cursor)
      else if c = '%' then
        match readPercent cursor with
        | .error e => .error e
        | .ok (coded, next) => readTagRest full fuel (text ++ [coded]) next
      else readTagRest full fuel (text ++ [c]) (cursor.skip 1)

/-- Reads the rest of a tag, which is not empty unless something stood in front of it. A null
character ends the name that a tag stands for. -/
def readTag (full : Bool) (front : List Char) (cursor : Cursor) :
    Except YamlError (List Char × Cursor) := do
  let (text, behind) ← readTagRest full cursor.rest.length front.tail cursor
  if front.isEmpty && text.isEmpty then throw (cursor.expected "a tag")
  return (text.takeWhile (· ≠ '\x00'), behind)

/-- Reads an exclamation mark, a name, and another mark if there is one. -/
def readHandle (cursor : Cursor) : Except YamlError (List Char × Cursor) :=
  if !cursor.isAt '!' then .error (cursor.expected "an exclamation mark")
  else
    let (name, behind) := (cursor.skip 1).span isNameChar
    if behind.isAt '!' then .ok ('!' :: name ++ ['!'], behind.skip 1)
    else .ok ('!' :: name, behind)

/-- Reads a line that starts with a percent sign. -/
def directive (lexer : Lexer) : Except YamlError Lexer := do
  let (name, behind) := (lexer.cursor.skip 1).span isNameChar
  if !startsWithGap behind.rest then lexer.expected "a directive"
  let start := behind.skipWhile isSpaceOrTab
  if name = "YAML".toList then
    let (major, dot) ← readNumber start
    if !dot.isAt '.' then throw (dot.expected "a dot")
    let (minor, last) ← readNumber (dot.skip 1)
    return { lexer.push (.version major minor) with cursor := ← last.skipLineTail }
  else if name = "TAG".toList then
    let (handle, blank) ← readHandle start
    if handle.length ≠ 1 && handle.getLast? ≠ some '!' then
      throw (blank.expected "an exclamation mark")
    if !blank.head?.any isSpaceOrTab then throw (blank.expected "a blank")
    let (stem, last) ← readTag true [] (blank.skipWhile isSpaceOrTab)
    if !startsWithGap last.rest then throw (last.expected "a blank")
    return { lexer.push (.tagHandle handle stem) with cursor := ← last.skipLineTail }
  else
    lexer.expected "a directive"

/-! ## Properties of nodes -/

/-- Whether an anchor or an alias may be followed by this. -/
def endsName (text : List Char) : Bool :=
  startsWithGap text || text.head?.any fun c => "?:,]\x7d%@\x60".toList.contains c

/-- Reads an anchor or an alias. -/
def named (lexer : Lexer) (token : List Char → Token) : Except YamlError Lexer :=
  let (name, behind) := (lexer.cursor.skip 1).span isNameChar
  if name.isEmpty || !endsName behind.rest then lexer.expected "a name"
  else .ok { lexer.push (token name) with cursor := behind }

/-- Reads the short form and the rest of a tag. -/
def readTagToken (cursor : Cursor) : Except YamlError (Token × Cursor) := do
  if (cursor.skip 1).isAt '<' then
    let (text, behind) ← readTag true [] (cursor.skip 2)
    if !behind.isAt '>' then throw (behind.expected "a closing mark")
    return (.tag [] text, behind.skip 1)
  else
    let (handle, behind) ← readHandle cursor
    if 1 < handle.length && handle.getLast? = some '!' then
      let (text, last) ← readTag false [] behind
      return (.tag handle text, last)
    else
      let (text, last) ← readTag false handle behind
      return (if text.isEmpty then .tag [] ['!'] else .tag ['!'] text, last)

/-- Reads a tag. -/
def tagged (lexer : Lexer) : Except YamlError Lexer := do
  let (token, behind) ← readTagToken lexer.cursor
  if startsWithGap behind.rest || (lexer.inFlow && behind.isAt ',') then
    return { lexer.push token with cursor := behind }
  else
    throw (behind.expected "a blank")

/-! ## Marks -/

/-- Reads the mark that starts or ends a document. -/
def documentMark (lexer : Lexer) (token : Token) : Except YamlError Lexer := do
  let cleared ← (lexer.closeBlocks fun _ => true).dropKey
  return (cleared.allowKey false).mark token 3

/-- Reads an opening bracket. -/
def openFlow (lexer : Lexer) (token : Token) : Except YamlError Lexer := do
  let saved ← lexer.saveKey
  return ({ saved with keys := none :: saved.keys }.allowKey true).mark token 1

/-- Reads a closing bracket. -/
def closeFlow (lexer : Lexer) (token : Token) : Except YamlError Lexer := do
  let cleared ← lexer.dropKey
  let keys := if cleared.inFlow then cleared.keys.tail else cleared.keys
  return ({ cleared with keys := keys }.allowKey false).mark token 1

/-- Reads a comma. -/
def flowEntry (lexer : Lexer) : Except YamlError Lexer := do
  return ((← lexer.dropKey).allowKey true).mark .flowEntry 1

/-- Reads the dash of an entry. -/
def blockEntry (lexer : Lexer) : Except YamlError Lexer := do
  if !lexer.inFlow && !lexer.keyAllowed then lexer.expected "something other than an entry"
  let opened := lexer.openBlock lexer.cursor.column lexer.tokens.length .blockSequence
  return ((← opened.dropKey).allowKey true).mark .blockEntry 1

/-- Reads the question mark in front of a key. -/
def keyMark (lexer : Lexer) : Except YamlError Lexer := do
  if !lexer.inFlow && !lexer.keyAllowed then lexer.expected "something other than a key"
  let opened := lexer.openBlock lexer.cursor.column lexer.tokens.length .blockMapping
  return ((← opened.dropKey).allowKey !lexer.inFlow).mark .key 1

/-- Reads the colon behind a key. -/
def valueMark (lexer : Lexer) : Except YamlError Lexer :=
  match lexer.keys with
  | some key :: others =>
    let marked := lexer.insertAt key.token .key
    let opened := marked.openBlock key.column key.token .blockMapping
    .ok (({ opened with keys := none :: others }.allowKey false).mark .value 1)
  | _ =>
    if !lexer.inFlow && !lexer.keyAllowed then lexer.expected "something other than a value"
    else
      let opened := lexer.openBlock lexer.cursor.column lexer.tokens.length .blockMapping
      .ok ((opened.allowKey !lexer.inFlow).mark .value 1)

/-! ## Scalars -/

/-- Reads a block. -/
def blockScalar (lexer : Lexer) (fold : Bool) : Except YamlError Lexer := do
  let cleared ← lexer.dropKey
  let (text, behind) ← readBlock fold lexer.outer lexer.cursor
  let token := Token.scalar (if fold then .folded else .literal) text
  return { (cleared.push token).allowKey true with cursor := behind }

/-- Reads a quoted scalar. -/
def quotedScalar (lexer : Lexer) (double : Bool) : Except YamlError Lexer := do
  let saved ← lexer.saveKey
  let (text, behind) ← readQuoted double lexer.cursor
  let token := Token.scalar (if double then .doubleQuoted else .singleQuoted) text
  return { (saved.push token).allowKey false with cursor := behind }

/-- Reads a plain scalar. -/
def plainScalar (lexer : Lexer) : Except YamlError Lexer := do
  let saved ← lexer.saveKey
  let plain ← readPlain lexer.inFlow lexer.outer lexer.cursor
  return { (saved.push (.scalar .plain plain.text)).allowKey plain.lineEnded with
    cursor := plain.cursor }

/-- Whether a plain scalar may begin with a character that `rest` follows. -/
def startsPlain (inFlow : Bool) (c : Char) (rest : List Char) : Bool :=
  (!isGap c && !"-?:,[]\x7b\x7d#&*!|>'\"%@\x60".toList.contains c) ||
    (c = '-' && !rest.head?.any isSpaceOrTab) ||
    (!inFlow && (c = '?' || c = ':') && !startsWithGap rest)

/-! ## All tokens -/

/-- Reads the token that begins here with `c`, which `rest` follows. -/
def token (lexer : Lexer) (c : Char) (rest : List Char) : Except YamlError Lexer :=
  if lexer.cursor.column = 0 && c = '%' then do
    ((← (lexer.closeBlocks fun _ => true).dropKey).allowKey false).directive
  else if lexer.cursor.atMark '-' then lexer.documentMark .documentStart
  else if lexer.cursor.atMark '.' then lexer.documentMark .documentEnd
  else if c = '[' then lexer.openFlow .flowSequence
  else if c = '\x7b' then lexer.openFlow .flowMapping
  else if c = ']' then lexer.closeFlow .flowSequenceEnd
  else if c = '\x7d' then lexer.closeFlow .flowMappingEnd
  else if c = ',' then lexer.flowEntry
  else if c = '-' && startsWithGap rest then lexer.blockEntry
  else if c = '?' && (lexer.inFlow || startsWithGap rest) then lexer.keyMark
  else if c = ':' && (lexer.inFlow || startsWithGap rest) then lexer.valueMark
  else if c = '*' then do ((← lexer.saveKey).allowKey false).named .alias
  else if c = '&' then do ((← lexer.saveKey).allowKey false).named .anchor
  else if c = '!' then do ((← lexer.saveKey).allowKey false).tagged
  else if c = '|' && !lexer.inFlow then lexer.blockScalar false
  else if c = '>' && !lexer.inFlow then lexer.blockScalar true
  else if c = '\'' then lexer.quotedScalar false
  else if c = '"' then lexer.quotedScalar true
  else if startsPlain lexer.inFlow c rest then lexer.plainScalar
  else lexer.expected "a token"

/-- Ends the text: closes the blocks that are still open. -/
def finish (lexer : Lexer) : Except YamlError (List Token) := do
  return (← (lexer.closeBlocks fun _ => true).dropKey).tokens

/-- Reads on to the end of the text. -/
def run : Nat → Lexer → Except YamlError (List Token)
  | 0, lexer => lexer.finish
  | fuel + 1, lexer => do
    let there ← (lexer.skipBetween (lexer.cursor.rest.length + 1)).dropStale
    let ready := there.closeBlocks (there.cursor.column < ·)
    match ready.cursor.rest with
    | [] => ready.finish
    | c :: rest => run fuel (← ready.token c rest)

end Lexer

/-- The tokens of a text. -/
def tokenize (text : List Char) : Except YamlError (List Token) :=
  match text.find? (!isAllowed ·) with
  | some c => .error (.control c)
  | none => Lexer.run (text.length + 1) { cursor := ⟨text, 0, 0, 0⟩ }

end Templating.Yaml
