import Templating.Text.Digits

/-!
# JSON values

What a JSON text says, as far as the library asks for it. A string that holds bytes or escapes
which are no text, and a number that is not written with digits only, are values like any other;
they only cannot be read as a text or a count.

`quote` writes a text as a JSON string.
-/

namespace Templating.Json

open Templating.Text

/-- A JSON value. -/
inductive Value where
  | null
  | bool (value : Bool)
  /-- A number; the count when it is written with digits only. -/
  | number (count : Option Nat)
  /-- A string; the text when it is one. -/
  | string (text : Option String)
  | array (elements : List Value)
  /-- An object with its members as they are written, repeated names included. -/
  | object (members : List (Option String × Value))
  deriving Repr, Inhabited

namespace Value

/-- The text of a string. -/
def text? : Value → Option String
  | .string text => text
  | _ => none

/-- The count that a number is below `limit`. -/
def countBelow? (limit : Nat) : Value → Option Nat
  | .number (some count) => if count < limit then some count else none
  | _ => none

/-- The texts of an array of strings. -/
def texts? : Value → Option (List String)
  | .array elements => elements.mapM text?
  | _ => none

end Value

/-! ## Strings -/

/-- How a character is written in a string. -/
def quoteChar (c : Char) : List Char :=
  if c = '"' then ['\\', '"']
  else if c = '\\' then ['\\', '\\']
  else if c = '\x08' then ['\\', 'b']
  else if c = '\t' then ['\\', 't']
  else if c = '\n' then ['\\', 'n']
  else if c = '\x0c' then ['\\', 'f']
  else if c = '\r' then ['\\', 'r']
  else if c.toNat < 0x20 then '\\' :: 'u' :: fixedDigits 16 c.toNat 4
  else [c]

/-- A text as a JSON string. -/
def quote (text : String) : List Char :=
  '"' :: text.toList.flatMap quoteChar ++ ['"']

end Templating.Json
