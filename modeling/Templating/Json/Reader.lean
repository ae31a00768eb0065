import Templating.Json.Value

/-!
# Reading JSON

`readJson` reads a whole JSON text from its bytes. The bytes need not be text throughout: what is
not stands for itself as a symbol without a character, which only a string can hold.

The reader follows the grammar of JSON strictly: no comma at the end of an array or object, no
leading zeros, no control characters in strings, and nothing but blanks behind the value.
-/

namespace Templating.Json

/-- A character of the text, or a byte that belongs to none. -/
abbrev Symbol := Option Char

/-- The symbols of bytes that are not text throughout, from an index on. -/
def symbolsFrom (bytes : ByteArray) : Nat → Nat → List Symbol
  | 0, _ => []
  | fuel + 1, i =>
    if i < bytes.size then
      match bytes.utf8DecodeChar? i with
      | some c => some c :: symbolsFrom bytes fuel (i + c.utf8Size)
      | none => none :: symbolsFrom bytes fuel (i + 1)
    else
      []

/-- The symbols of bytes. -/
def symbols (bytes : ByteArray) : List Symbol :=
  match String.fromUTF8? bytes with
  | some text => text.toList.map some
  | none => symbolsFrom bytes bytes.size 0

/-! ## Strings -/

/-- One part of a string. -/
inductive Piece where
  | char (c : Char)
  /-- A code unit of UTF-16 written with four digits. -/
  | unit (n : Nat)
  /-- A byte that belongs to no character. -/
  | stray
  deriving DecidableEq, Repr

/-- The value of a hexadecimal digit. -/
def hexValue? : Symbol → Option Nat
  | none => none
  | some c =>
    if c.isDigit then some (c.toNat - 48)
    else if 'a' ≤ c ∧ c ≤ 'f' then some (c.toNat - 87)
    else if 'A' ≤ c ∧ c ≤ 'F' then some (c.toNat - 55)
    else none

/-- The value of four hexadecimal digits. -/
def unitValue? (a b c d : Symbol) : Option Nat := do
  return 4096 * (← hexValue? a) + 256 * (← hexValue? b) + 16 * (← hexValue? c) + (← hexValue? d)

/-- The character that an escape of one letter stands for. -/
def escaped? (c : Char) : Option Char :=
  if c = '"' ∨ c = '\\' ∨ c = '/' then some c
  else if c = 'b' then some '\x08'
  else if c = 'f' then some '\x0c'
  else if c = 'n' then some '\n'
  else if c = 'r' then some '\r'
  else if c = 't' then some '\t'
  else none

/-- Reads the rest of a string behind its opening quote. -/
def readPieces : List Symbol → Option (List Piece × List Symbol)
  | [] => none
  | some '"' :: rest => some ([], rest)
  | some '\\' :: some 'u' :: a :: b :: c :: d :: rest => do
    let unit ← unitValue? a b c d
    let (pieces, rest) ← readPieces rest
    return (.unit unit :: pieces, rest)
  | some '\\' :: some c :: rest => do
    let c ← escaped? c
    let (pieces, rest) ← readPieces rest
    return (.char c :: pieces, rest)
  | some '\\' :: _ => none
  | some c :: rest =>
    if c.toNat < 0x20 then none
    else do
      let (pieces, rest) ← readPieces rest
      return (.char c :: pieces, rest)
  | none :: rest => do
    let (pieces, rest) ← readPieces rest
    return (.stray :: pieces, rest)

/-- The first half of a pair of code units. -/
def isHighHalf (n : Nat) : Bool := 0xD800 ≤ n && n < 0xDC00

/-- The second half of a pair of code units. -/
def isLowHalf (n : Nat) : Bool := 0xDC00 ≤ n && n < 0xE000

/-- The text of a string; nothing when it holds a stray byte or half a pair. -/
def piecesText : List Piece → Option (List Char)
  | [] => some []
  | .char c :: rest => (piecesText rest).map (c :: ·)
  | .unit high :: .unit low :: rest =>
    if isHighHalf high then
      if isLowHalf low then
        (piecesText rest).map
          (Char.ofNat (0x10000 + 0x400 * (high - 0xD800) + (low - 0xDC00)) :: ·)
      else
        none
    else if isLowHalf high then none
    else (piecesText (.unit low :: rest)).map (Char.ofNat high :: ·)
  | .unit n :: rest =>
    if isHighHalf n || isLowHalf n then none else (piecesText rest).map (Char.ofNat n :: ·)
  | .stray :: _ => none

/-- Reads a string behind its opening quote. -/
def readString (text : List Symbol) : Option (Option String × List Symbol) :=
  (readPieces text).map fun (pieces, rest) => ((piecesText pieces).map String.ofList, rest)

/-! ## Numbers -/

/-- Whether a symbol is a decimal digit. -/
def isDigitSymbol (symbol : Symbol) : Bool :=
  symbol.any Char.isDigit

/-- Reads one or more digits. -/
def readDigits (text : List Symbol) : Option (List Symbol × List Symbol) :=
  let digits := text.takeWhile isDigitSymbol
  if digits.isEmpty then none else some (digits, text.dropWhile isDigitSymbol)

/-- The value of decimal digits. -/
def digitsValue (digits : List Symbol) : Nat :=
  Text.decimalValue (digits.filterMap id)

/-- Reads the exponent of a number, if there is one; tells whether there is. -/
def readExponent (text : List Symbol) : Option (Bool × List Symbol) :=
  match text with
  | some c :: rest =>
    if c = 'e' ∨ c = 'E' then
      let behind := match rest with
        | some sign :: more => if sign = '+' ∨ sign = '-' then more else rest
        | _ => rest
      (readDigits behind).map fun (_, rest) => (true, rest)
    else
      some (false, text)
  | _ => some (false, text)

/-- Reads the fraction of a number, if there is one; tells whether there is. -/
def readFraction (text : List Symbol) : Option (Bool × List Symbol) :=
  match text with
  | some '.' :: rest => (readDigits rest).map fun (_, rest) => (true, rest)
  | _ => some (false, text)

/-- Reads a number. -/
def readNumber (text : List Symbol) : Option (Value × List Symbol) := do
  let (negative, text) := match text with
    | some '-' :: rest => (true, rest)
    | _ => (false, text)
  let (digits, text) ← readDigits text
  if digits.head? = some (some '0') && 1 < digits.length then none
  let (fraction, text) ← readFraction text
  let (exponent, text) ← readExponent text
  let whole := !negative && !fraction && !exponent
  return (.number (if whole then some (digitsValue digits) else none), text)

/-! ## Values -/

/-- The blanks of JSON. -/
def isGap (symbol : Symbol) : Bool :=
  symbol.any fun c => c = ' ' || c = '\n' || c = '\t' || c = '\r'

def skipGaps (text : List Symbol) : List Symbol :=
  text.dropWhile isGap

/-- Reads the letters of a word that stands for a value. -/
def readLiteral (literal : String) (value : Value) (text : List Symbol) :
    Option (Value × List Symbol) :=
  let letters := literal.toList.map some
  if letters.isPrefixOf text then some (value, text.drop letters.length) else none

mutual

/-- Reads a value, entering at most `fuel` parts of it. -/
def readValue : Nat → List Symbol → Option (Value × List Symbol)
  | 0, _ => none
  | fuel + 1, text =>
    match skipGaps text with
    | some '"' :: rest => (readString rest).map fun (text, rest) => (.string text, rest)
    | some '[' :: rest =>
      match skipGaps rest with
      | some ']' :: rest => some (.array [], rest)
      | rest => (readElements fuel rest).map fun (elements, rest) => (.array elements, rest)
    | some '\x7b' :: rest =>
      match skipGaps rest with
      | some '\x7d' :: rest => some (.object [], rest)
      | rest => (readMembers fuel rest).map fun (members, rest) => (.object members, rest)
    | some 'n' :: rest => readLiteral "null" .null (some 'n' :: rest)
    | some 't' :: rest => readLiteral "true" (.bool true) (some 't' :: rest)
    | some 'f' :: rest => readLiteral "false" (.bool false) (some 'f' :: rest)
    | text => readNumber text

/-- Reads the elements of an array, of which there is one at least, and its end. -/
def readElements : Nat → List Symbol → Option (List Value × List Symbol)
  | 0, _ => none
  | fuel + 1, text =>
    match readValue fuel text with
    | none => none
    | some (element, rest) =>
      match skipGaps rest with
      | some ']' :: rest => some ([element], rest)
      | some ',' :: rest =>
        (readElements fuel rest).map fun (elements, rest) => (element :: elements, rest)
      | _ => none

/-- Reads the members of an object, of which there is one at least, and its end. -/
def readMembers : Nat → List Symbol → Option (List (Option String × Value) × List Symbol)
  | 0, _ => none
  | fuel + 1, text =>
    match skipGaps text with
    | some '"' :: rest =>
      match readString rest with
      | none => none
      | some (name, rest) =>
        match skipGaps rest with
        | some ':' :: rest =>
          match readValue fuel rest with
          | none => none
          | some (value, rest) =>
            match skipGaps rest with
            | some '\x7d' :: rest => some ([(name, value)], rest)
            | some ',' :: rest =>
              (readMembers fuel rest).map fun (members, rest) => ((name, value) :: members, rest)
            | _ => none
        | _ => none
    | _ => none

end

/-- Reads a whole JSON text. No text has more parts than two for each symbol. -/
def readJson (bytes : ByteArray) : Option Value :=
  let text := symbols bytes
  match readValue (2 * text.length + 2) text with
  | some (value, rest) => if (skipGaps rest).isEmpty then some value else none
  | none => none

end Templating.Json
