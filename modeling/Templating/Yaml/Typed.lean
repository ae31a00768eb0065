import Templating.Yaml.Node

/-!
# Typed values of nodes

What a node counts as where a text, a flag, a whole number, a list or a record is expected. Any
scalar counts as a text, as it is written. The others depend on how the scalar is written: quotes
make it a text and nothing else.
-/

namespace Templating.Yaml

/-- The beginning of the tags that the format itself defines. -/
def standardStem : String := "tag:yaml.org,2002:"

/-- Whether a scalar may count as a value other than a text: it is plain, or a block that keeps
its line breaks and has the tag of that kind of value. -/
def isOpen (kind : String) (style : ScalarStyle) (tag : Option String) : Bool :=
  match style with
  | .plain => true
  | .literal => tag = some (standardStem ++ kind)
  | _ => false

/-- The flag that a word stands for. -/
def flagOf? (word : String) : Option Bool :=
  if ["true", "True", "TRUE"].contains word then some true
  else if ["false", "False", "FALSE"].contains word then some false
  else none

/-- Whether a word stands for nothing. -/
def isNullWord (word : String) : Bool :=
  ["null", "Null", "NULL", "~"].contains word

/-! ## Whole numbers -/

/-- The value of a digit in a base of at most sixteen. -/
def digitIn? (base : Nat) (c : Char) : Option Nat :=
  (hexValue? c).filter (· < base)

/-- The number that digits are written for, if there are any. -/
def digitsValue? (base : Nat) (digits : List Char) : Option Nat := do
  if digits.isEmpty then none
  let values ← digits.mapM (digitIn? base)
  return values.foldl (fun number digit => number * base + digit) 0

/-- The number that is written in decimal, hexadecimal, octal or binary digits. In decimal there
are no leading zeros. -/
def naturalOf? : List Char → Option Nat
  | '0' :: 'x' :: digits => digitsValue? 16 digits
  | '0' :: 'o' :: digits => digitsValue? 8 digits
  | '0' :: 'b' :: digits => digitsValue? 2 digits
  | '0' :: _ :: _ => none
  | digits => digitsValue? 10 digits

/-- The number that is written with or without a sign, if it has 64 bits. -/
def integerOf? (text : List Char) : Option Int64 := do
  let value : Int ← match text with
    | '+' :: body => (naturalOf? body).map Int.ofNat
    | '-' :: body => (naturalOf? body).map fun size => -Int.ofNat size
    | body => (naturalOf? body).map Int.ofNat
  if Int64.minValue.toInt ≤ value ∧ value ≤ Int64.maxValue.toInt then some (Int64.ofInt value)
  else none

namespace Document

variable {α : Type}

/-! ## Values -/

/-- A node as a text. -/
def text? (document : Document) (node : Node) : Option String :=
  match document.resolve node with
  | some (.scalar _ _ text) => some text
  | _ => none

/-- A node as a flag. -/
def flag? (document : Document) (node : Node) : Option Bool :=
  match document.resolve node with
  | some (.scalar style tag text) => if isOpen "bool" style tag then flagOf? text else none
  | _ => none

/-- A node as a whole number. -/
def integer? (document : Document) (node : Node) : Option Int64 :=
  match document.resolve node with
  | some (.scalar style tag text) =>
    if isOpen "int" style tag then integerOf? text.toList else none
  | _ => none

/-- Whether a node stands for nothing where a value need not be given; none when its tag says so
but its text does not. -/
def isNothing? : Node → Option Bool
  | .scalar .plain none text => some (text.isEmpty || isNullWord text)
  | .scalar .plain (some tag) text =>
    if tag ≠ standardStem ++ "null" then some false
    else if isNullWord text then some true
    else none
  | _ => some false

/-- A node as a value that need not be given. -/
def optional? (document : Document) (read : Node → Option α) (node : Node) :
    Option (Option α) := do
  let resolved ← document.resolve node
  if ← isNothing? resolved then return none else return some (← read resolved)

/-- Whether a node is a plain scalar without text. -/
def isBlank : Node → Bool
  | .scalar .plain _ text => text.isEmpty
  | _ => false

/-- A node as a list. -/
def list? (document : Document) (read : Node → Option α) (node : Node) : Option (List α) := do
  match ← document.resolve node with
  | .sequence elements => elements.mapM read
  | node => if isBlank node then some [] else none

/-! ## Records -/

/-- A node as a record: its values under their names. -/
def record? (document : Document) (node : Node) : Option (List (String × Node)) := do
  match ← document.resolve node with
  | .mapping pairs => pairs.mapM fun (key, value) => return (← document.text? key, value)
  | node => if isBlank node then some [] else none

end Document

/-- The only value of a name in a record, or `missing` when it has none. -/
def fieldOr {α : Type} (fields : List (String × Node)) (name : String) (missing : Option α)
    (read : Node → Option α) : Option α :=
  match fields.filter (·.1 = name) with
  | [] => missing
  | [(_, node)] => read node
  | _ => none

end Templating.Yaml
