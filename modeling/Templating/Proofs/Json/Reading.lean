import Mathlib.Data.List.DropRight
import Mathlib.Data.Nat.Digits.Defs
import Templating.Json.Reader

/-!
# Written values are read back

A value is `Written` by a text when the reader finds the value in the text, whatever stands behind
it that ends a value in a layout of one part on a line.

* `readString_quoted` and `readNumber_toDigits`: texts and counts.
* `written_lines`: lists, one element on a line.
* `readValue_fieldLines`: objects, one field on a line.
-/

namespace Templating.Json

open Templating.Text

/-! ## Strings -/

/-- The ways in which a character is written in a string. -/
inductive Quoted (c : Char) : Prop where
  | letter (d : Char) (written : quoteChar c = ['\\', d]) (short : d ≠ 'u')
    (back : escaped? d = some c) (special : c = '"' ∨ c = '\\' ∨ c.toNat < 0x20)
  | digits (written : quoteChar c = '\\' :: 'u' :: fixedDigits 16 c.toNat 4)
    (control : c.toNat < 0x20)
  | plain (written : quoteChar c = [c]) (quote : c ≠ '"') (backslash : c ≠ '\\')
    (printable : ¬ c.toNat < 0x20)

theorem quoted (c : Char) : Quoted c := by
  by_cases short : c ∈ ['"', '\\', '\x08', '\t', '\n', '\x0c', '\r']
  · simp only [List.mem_cons, List.not_mem_nil, or_false] at short
    rcases short with rfl | rfl | rfl | rfl | rfl | rfl | rfl <;>
      exact .letter _ rfl (by decide) rfl (by decide)
  · simp only [List.mem_cons, List.not_mem_nil, or_false, not_or] at short
    obtain ⟨quote, backslash, other⟩ := short
    by_cases control : c.toNat < 0x20
    · refine .digits ?_ control
      simp only [quoteChar, quote, backslash, other, control, if_true, if_false]
    · refine .plain ?_ quote backslash control
      simp only [quoteChar, quote, backslash, other, control, if_false]

theorem quoteChar_of_plain {c : Char} (quote : c ≠ '"') (backslash : c ≠ '\\')
    (printable : ¬ c.toNat < 0x20) : quoteChar c = [c] := by
  cases quoted c with
  | letter d written short back special =>
    rcases special with isQuote | isBackslash | control
    · exact absurd isQuote quote
    · exact absurd isBackslash backslash
    · exact absurd control printable
  | digits written control => exact absurd control printable
  | plain written => exact written

/-- The part of a string stands for the character: a code unit only for a control character. -/
inductive Piece.Shows (c : Char) : Piece → Prop where
  | char : Shows c (.char c)
  | unit (control : c.toNat < 0x20) : Shows c (.unit c.toNat)

/-- The four digits of a control character are read as its number. -/
theorem unitValue?_fixedDigits {n : Nat} (control : n < 0x20) :
    ∃ a b c d, fixedDigits 16 n 4 = [a, b, c, d] ∧
      unitValue? (some a) (some b) (some c) (some d) = some n := by
  have values : ∀ n < 0x20, unitValue? (some (digitChar (n / 16 / 16 / 16 % 16)))
      (some (digitChar (n / 16 / 16 % 16))) (some (digitChar (n / 16 % 16)))
      (some (digitChar (n % 16))) = some n := by decide
  exact ⟨_, _, _, _, rfl, values n control⟩

theorem readPieces_quoteChar (c : Char) (rest : List Symbol) :
    ∃ piece, Piece.Shows c piece ∧ readPieces ((quoteChar c).map some ++ rest) =
      (readPieces rest).map fun read => (piece :: read.1, read.2) := by
  cases quoted c with
  | letter d written short back _ =>
    refine ⟨.char c, .char, ?_⟩
    rw [written]
    cases h : readPieces rest <;> simp [readPieces, short, back, h]
  | digits written control =>
    obtain ⟨first, second, third, fourth, digits, value⟩ := unitValue?_fixedDigits control
    refine ⟨.unit c.toNat, .unit control, ?_⟩
    rw [written, digits]
    cases h : readPieces rest <;> simp [readPieces, h, value]
  | plain written quote backslash printable =>
    refine ⟨.char c, .char, ?_⟩
    rw [written]
    cases h : readPieces rest <;> simp [readPieces, backslash, printable, h]

theorem readPieces_quoted (text : List Char) (rest : List Symbol) :
    ∃ pieces, List.Forall₂ Piece.Shows text pieces ∧
      readPieces ((text.flatMap quoteChar).map some ++ some '"' :: rest) = some (pieces, rest) := by
  induction text with
  | nil => exact ⟨[], .nil, by simp [readPieces]⟩
  | cons c text ih =>
    obtain ⟨pieces, shows, read⟩ := ih
    obtain ⟨piece, first, step⟩ :=
      readPieces_quoteChar c ((text.flatMap quoteChar).map some ++ some '"' :: rest)
    refine ⟨piece :: pieces, .cons first shows, ?_⟩
    rw [List.flatMap_cons, List.map_append, List.append_assoc, step, read]
    rfl

/-- A control character is no half of a pair, so what is read behind it does not matter. -/
theorem piecesText_unit {n : Nat} (control : n < 0x20) (pieces : List Piece) :
    piecesText (.unit n :: pieces) = (piecesText pieces).map (Char.ofNat n :: ·) := by
  have notHigh : isHighHalf n = false := by
    simp only [isHighHalf, Bool.and_eq_false_iff, decide_eq_false_iff_not]
    omega
  have notLow : isLowHalf n = false := by
    simp only [isLowHalf, Bool.and_eq_false_iff, decide_eq_false_iff_not]
    omega
  rcases pieces with _ | ⟨_ | _ | _, pieces⟩ <;> simp [piecesText, notHigh, notLow]

theorem piecesText_of_shows {text : List Char} {pieces : List Piece}
    (shows : List.Forall₂ Piece.Shows text pieces) : piecesText pieces = some text := by
  induction shows with
  | nil => rfl
  | cons first _ ih =>
    cases first with
    | char => rw [piecesText, ih, Option.map_some]
    | unit control => rw [piecesText_unit control, ih, Option.map_some, Char.ofNat_toNat]

/-- **A text is read as it is quoted**, whatever stands behind it. -/
theorem readString_quoted (text : String) (rest : List Symbol) :
    readString ((text.toList.flatMap quoteChar).map some ++ some '"' :: rest) =
      some (some text, rest) := by
  obtain ⟨pieces, shows, read⟩ := readPieces_quoted text.toList rest
  unfold readString
  rw [read, Option.map_some]
  simp only [piecesText_of_shows shows, Option.map_some, String.ofList_toList]

theorem map_quote (text : String) (rest : List Symbol) :
    (quote text).map some ++ rest =
      some '"' :: ((text.toList.flatMap quoteChar).map some ++ some '"' :: rest) := by
  simp [quote]

/-- A text without escapes is quoted as it is. -/
theorem quote_of_plain {letters : List Char} (plain : ∀ c ∈ letters, quoteChar c = [c]) :
    quote (String.ofList letters) = '"' :: letters ++ ['"'] := by
  have same : letters.flatMap quoteChar = letters := by
    induction letters with
    | nil => rfl
    | cons c letters ih =>
      rw [List.flatMap_cons, plain c List.mem_cons_self,
        ih fun d member => plain d (List.mem_cons_of_mem c member)]
      rfl
  rw [quote, String.toList_ofList, same]

/-! ## Numbers -/

/-- What may stand behind a value: a comma or the end of the line. -/
def Stops (text : List Symbol) : Prop :=
  ∃ mark rest, text = some mark :: rest ∧ (mark = ',' ∨ mark = '\n')

theorem readDigits_append {digits : List Char} (full : digits ≠ [])
    (decimal : ∀ c ∈ digits, c.isDigit = true) {rest : List Symbol} (stops : Stops rest) :
    readDigits (digits.map some ++ rest) = some (digits.map some, rest) := by
  have all : ∀ symbol ∈ digits.map some, isDigitSymbol symbol = true := by
    intro symbol member
    obtain ⟨c, inside, rfl⟩ := List.mem_map.mp member
    exact decimal c inside
  obtain ⟨mark, more, rfl, isMark⟩ := stops
  have stop : isDigitSymbol (some mark) = false := by
    rcases isMark with rfl | rfl <;> rfl
  have notEmpty : (digits.map some).isEmpty = false := by
    cases digits with
    | nil => exact absurd rfl full
    | cons => rfl
  unfold readDigits
  rw [List.takeWhile_append_of_pos all, List.dropWhile_append_of_pos all, List.takeWhile_cons,
    List.dropWhile_cons, stop]
  simp only [Bool.false_eq_true, if_false, List.append_nil, notEmpty]

/-- Only the digits of zero begin with a zero. -/
theorem head?_toDigits_ne {n : Nat} (positive : 0 < n) :
    (Nat.toDigits 10 n).head? ≠ some '0' := by
  induction n using Nat.strongRecOn with
  | ind n ih =>
    by_cases small : n < 10
    · have digits : ∀ n < 10, 0 < n → (Nat.toDigits 10 n).head? ≠ some '0' := by decide
      exact digits n small positive
    · have shorter := ih (n / 10) (by omega) (by omega)
      rw [Nat.toDigits_of_base_le (by decide) (by omega)]
      cases digits : Nat.toDigits 10 (n / 10) with
      | nil => exact absurd digits Nat.toDigits_ne_nil
      | cons first more =>
        rw [digits] at shorter
        exact shorter

/-- **A count is read as it is written** in front of what may stand behind a value. -/
theorem readNumber_toDigits (n : Nat) {rest : List Symbol} (stops : Stops rest) :
    readNumber ((Nat.toDigits 10 n).map some ++ rest) = some (.number (some n), rest) := by
  have decimal : ∀ c ∈ Nat.toDigits 10 n, c.isDigit = true := fun _ member =>
    Nat.isDigit_of_mem_toDigits (by decide) (by decide) member
  have read := readDigits_append Nat.toDigits_ne_nil decimal stops
  have noZero : (decide (((Nat.toDigits 10 n).map some).head? = some (some '0')) &&
      decide (1 < ((Nat.toDigits 10 n).map some).length)) = false := by
    rcases Nat.eq_zero_or_pos n with rfl | positive
    · rfl
    · have first := head?_toDigits_ne positive
      rw [Bool.and_eq_false_iff]
      left
      simpa using first
  have value : digitsValue ((Nat.toDigits 10 n).map some) = n := by
    rw [digitsValue, List.filterMap_map]
    change Nat.ofDigitChars 10 ((Nat.toDigits 10 n).filterMap some) 0 = n
    rw [List.filterMap_some, Nat.ofDigitChars_ten_toDigits]
  obtain ⟨mark, more, rfl, isMark⟩ := stops
  have noFraction : readFraction (some mark :: more) = some (false, some mark :: more) := by
    rcases isMark with rfl | rfl <;> rfl
  have noExponent : readExponent (some mark :: more) = some (false, some mark :: more) := by
    rcases isMark with rfl | rfl <;> rfl
  unfold readNumber
  split
  rename_i negative text sign
  have unsigned : negative = false ∧ text = (Nat.toDigits 10 n).map some ++ some mark :: more := by
    split at sign
    · rename_i heq
      cases digits : Nat.toDigits 10 n with
      | nil => exact absurd digits Nat.toDigits_ne_nil
      | cons first rest =>
        rw [digits] at heq decimal
        cases heq
        cases decimal '-' List.mem_cons_self
    · cases sign
      exact ⟨rfl, rfl⟩
  rw [unsigned.1, unsigned.2, read]
  simp only [Option.bind_eq_bind, Option.bind_some, noZero, noFraction, noExponent, value]
  rfl

/-! ## Values -/

/-- The text is read as the value wherever a value may stop behind it, by a reader with more fuel
than the text has characters. -/
def Written (text : List Char) (value : Value) : Prop :=
  ∀ (fuel : Nat) (rest : List Symbol), text.length < fuel → Stops rest →
    readValue fuel (text.map some ++ rest) = some (value, rest)

theorem skipGaps_append (gap : List Char) (gaps : gap.all (isGap ∘ some) = true)
    (text : List Symbol) : skipGaps (gap.map some ++ text) = skipGaps text := by
  refine List.dropWhile_append_of_pos fun symbol member => ?_
  obtain ⟨c, inside, rfl⟩ := List.mem_map.mp member
  exact List.all_eq_true.mp gaps c inside

theorem skipGaps_of_dense {c : Char} (dense : isGap (some c) = false) (rest : List Symbol) :
    skipGaps (some c :: rest) = some c :: rest := by
  rw [skipGaps, List.dropWhile_cons, dense]
  rfl

theorem skipGaps_skipGaps (text : List Symbol) : skipGaps (skipGaps text) = skipGaps text :=
  List.dropWhile_idempotent isGap text

theorem readValue_skipGaps (fuel : Nat) {text other : List Symbol}
    (same : skipGaps text = skipGaps other) : readValue fuel text = readValue fuel other := by
  cases fuel with
  | zero => rfl
  | succ fuel => rw [readValue, readValue, same]

/-- A value may stand behind a gap. -/
theorem Written.indented {text : List Char} {value : Value} (written : Written text value)
    (gap : List Char) (gaps : gap.all (isGap ∘ some) = true) : Written (gap ++ text) value := by
  intro fuel rest enough stops
  have fewer : text.length < fuel := by
    rw [List.length_append] at enough
    omega
  rw [List.map_append, List.append_assoc, readValue_skipGaps fuel (skipGaps_append gap gaps _)]
  exact written fuel rest fewer stops

theorem written_quote (text : String) : Written (quote text) (.string (some text)) := by
  intro fuel rest enough _
  obtain ⟨fuel, rfl⟩ : ∃ left, fuel = left + 1 := Nat.exists_eq_add_one.mpr (by omega)
  rw [map_quote, readValue, skipGaps_of_dense rfl]
  simp only [readString_quoted, Option.map_some]

theorem written_toDigits (n : Nat) : Written (Nat.toDigits 10 n) (.number (some n)) := by
  intro fuel rest enough stops
  obtain ⟨fuel, rfl⟩ : ∃ left, fuel = left + 1 := Nat.exists_eq_add_one.mpr (by omega)
  have read := readNumber_toDigits n stops
  cases digits : Nat.toDigits 10 n with
  | nil => exact absurd digits Nat.toDigits_ne_nil
  | cons first more =>
    have decimal : first.isDigit = true := by
      refine Nat.isDigit_of_mem_toDigits (b := 10) (n := n) (by decide) (by decide) ?_
      rw [digits]
      exact List.mem_cons_self
    have dense : isGap (some first) = false := by
      rw [Char.isDigit_iff_toNat] at decimal
      have blanks : ∀ c ∈ [' ', '\n', '\t', '\r'], first ≠ c := by
        rintro c member rfl
        simp only [List.mem_cons, List.not_mem_nil, or_false] at member
        rcases member with rfl | rfl | rfl | rfl <;> exact absurd decimal (by decide)
      simpa [isGap, and_assoc] using blanks
    rw [digits] at read
    rw [List.map_cons, List.cons_append] at read ⊢
    rw [readValue, skipGaps_of_dense dense]
    -- A digit begins no other value.
    split
    · rename_i heq; cases heq; cases decimal
    · rename_i heq; cases heq; cases decimal
    · rename_i heq; cases heq; cases decimal
    · rename_i heq; cases heq; cases decimal
    · rename_i heq; cases heq; cases decimal
    · rename_i heq; cases heq; cases decimal
    · exact read

/-! ## Lists -/

theorem readElements_skipGaps (fuel : Nat) {text other : List Symbol}
    (same : skipGaps text = skipGaps other) : readElements fuel text = readElements fuel other := by
  cases fuel with
  | zero => rfl
  | succ fuel => rw [readElements, readElements, readValue_skipGaps fuel same]

/-- No element begins with the bracket that ends a list. -/
theorem readElements_close (fuel : Nat) {text rest : List Symbol}
    (close : skipGaps text = some ']' :: rest) : readElements fuel text = none := by
  rcases fuel with _ | _ | fuel
  · rfl
  · rfl
  · rw [readElements, readValue, close]
    rfl

theorem readElements_next {fuel : Nat} {text rest : List Symbol} {element : Value}
    (read : readValue fuel text = some (element, some ',' :: rest)) :
    readElements (fuel + 1) text =
      (readElements fuel rest).map fun read => (element :: read.1, read.2) := by
  rw [readElements, read]
  rfl

theorem readElements_last {fuel : Nat} {text rest : List Symbol} {element : Value}
    (read : readValue fuel text = some (element, "\n  ]".toList.map some ++ rest)) :
    readElements (fuel + 1) text = some ([element], rest) := by
  rw [readElements, read]
  rfl

/-- The elements of a list, one on a line. -/
def lines (texts : List (List Char)) : List Char :=
  ",\n    ".toList.intercalate texts

theorem readElements_lines {texts : List (List Char)} {values : List Value}
    (written : List.Forall₂ Written texts values) (full : texts ≠ []) (fuel : Nat)
    (rest : List Symbol) (enough : (lines texts).length + 1 < fuel) :
    readElements fuel ((lines texts).map some ++ ("\n  ]".toList.map some ++ rest)) =
      some (values, rest) := by
  induction written generalizing fuel with
  | nil => exact absurd rfl full
  | @cons text value texts values first others ih =>
    obtain ⟨fuel, rfl⟩ : ∃ left, fuel = left + 1 := Nat.exists_eq_add_one.mpr (by omega)
    cases others with
    | nil =>
      have only : lines [text] = text := List.intercalate_singleton
      rw [only] at enough ⊢
      have read := first fuel ("\n  ]".toList.map some ++ rest) (by omega) ⟨_, _, rfl, .inr rfl⟩
      exact readElements_last read
    | @cons second _ others _ _ _ =>
      have more : lines (text :: second :: others) =
          text ++ ',' :: ("\n    ".toList ++ lines (second :: others)) := by
        rw [lines, List.intercalate_cons_cons, List.append_assoc]
        rfl
      rw [more, List.length_append, List.length_cons, List.length_append] at enough
      have read := first fuel
        (some ',' :: (("\n    ".toList ++ lines (second :: others)).map some ++
          ("\n  ]".toList.map some ++ rest))) (by omega) ⟨_, _, rfl, .inl rfl⟩
      have readMore := ih (List.cons_ne_nil _ _) fuel (by omega)
      rw [more, List.map_append, List.append_assoc, List.map_cons, List.cons_append,
        readElements_next read, List.map_append, List.append_assoc,
        readElements_skipGaps fuel (skipGaps_append _ rfl _), readMore]
      rfl

/-- **A list is read as it is laid out** with one element on a line. -/
theorem written_lines {texts : List (List Char)} {values : List Value}
    (written : List.Forall₂ Written texts values) (full : texts ≠ []) :
    Written ("[\n    ".toList ++ lines texts ++ "\n  ]".toList) (.array values) := by
  intro fuel rest enough _
  obtain ⟨fuel, rfl⟩ : ∃ left, fuel = left + 1 := Nat.exists_eq_add_one.mpr (by omega)
  have read := readElements_lines written full fuel rest (by
    simp only [List.length_append] at enough
    have : "[\n    ".toList.length = 6 := rfl
    omega)
  have opened : ("[\n    ".toList ++ lines texts ++ "\n  ]".toList).map some ++ rest =
      some '[' :: ("\n    ".toList.map some ++
        ((lines texts).map some ++ ("\n  ]".toList.map some ++ rest))) := by
    simp only [List.map_append, List.append_assoc]
    rfl
  rw [opened, readValue, skipGaps_of_dense rfl]
  simp only [skipGaps_append "\n    ".toList rfl]
  split
  · rename_i close
    rw [readElements_close fuel close] at read
    cases read
  · rw [readElements_skipGaps fuel (skipGaps_skipGaps _), read]
    rfl

theorem written_empty : Written ['[', ']'] (.array []) := by
  intro fuel rest enough _
  obtain ⟨fuel, rfl⟩ : ∃ left, fuel = left + 1 := Nat.exists_eq_add_one.mpr (by omega)
  rfl

/-! ## Objects -/

theorem readMembers_skipGaps (fuel : Nat) {text other : List Symbol}
    (same : skipGaps text = skipGaps other) : readMembers fuel text = readMembers fuel other := by
  cases fuel with
  | zero => rfl
  | succ fuel => rw [readMembers, readMembers, same]

/-- No field begins with the bracket that ends an object. -/
theorem readMembers_close (fuel : Nat) {text rest : List Symbol}
    (close : skipGaps text = some '\x7d' :: rest) : readMembers fuel text = none := by
  cases fuel with
  | zero => rfl
  | succ fuel =>
    rw [readMembers, close]
    rfl

/-- A field of an object on a line of its own. -/
def fieldLine (field : String × List Char) : List Char :=
  "\n  ".toList ++ quote field.1 ++ ':' :: ' ' :: field.2

/-- The fields of an object, one on a line. -/
def fieldLines (fields : List (String × List Char)) : List Char :=
  [','].intercalate (fields.map fieldLine)

/-- The field is read as the member. -/
def WrittenField (field : String × List Char) (member : Option String × Value) : Prop :=
  member.1 = some field.1 ∧ Written field.2 member.2

/-- What is read behind the name of a field and its colon. -/
theorem readMembers_fieldLine (fuel : Nat) (field : String × List Char) (rest : List Symbol) :
    readMembers (fuel + 1) ((fieldLine field).map some ++ rest) =
      match readValue fuel ((' ' :: field.2).map some ++ rest) with
      | none => none
      | some (value, rest) =>
        match skipGaps rest with
        | some '\x7d' :: rest => some ([(some field.1, value)], rest)
        | some ',' :: rest =>
          (readMembers fuel rest).map fun read => ((some field.1, value) :: read.1, read.2)
        | _ => none := by
  have line : (fieldLine field).map some ++ rest = "\n  ".toList.map some ++
      ((quote field.1).map some ++ some ':' :: ((' ' :: field.2).map some ++ rest)) := by
    simp [fieldLine]
  rw [line, map_quote, readMembers_skipGaps (fuel + 1) (skipGaps_append _ rfl _),
    readMembers, skipGaps_of_dense rfl]
  simp only [readString_quoted]
  rw [skipGaps_of_dense rfl]
  rfl

theorem readMembers_fieldLines {fields : List (String × List Char)}
    {members : List (Option String × Value)}
    (written : List.Forall₂ WrittenField fields members) (full : fields ≠ []) (fuel : Nat)
    (rest : List Symbol) (enough : (fieldLines fields).length < fuel) :
    readMembers fuel ((fieldLines fields).map some ++ ("\n\x7d".toList.map some ++ rest)) =
      some (members, rest) := by
  induction written generalizing fuel with
  | nil => exact absurd rfl full
  | @cons field member fields members first others ih =>
    obtain ⟨fuel, rfl⟩ : ∃ left, fuel = left + 1 := Nat.exists_eq_add_one.mpr (by omega)
    obtain ⟨named, first⟩ := first
    have wide : field.2.length + 5 ≤ (fieldLine field).length := by
      simp only [fieldLine, List.length_append, List.length_cons]
      have : "\n  ".toList.length = 3 := rfl
      omega
    have read (rest : List Symbol) (enough : (fieldLine field).length < fuel + 1)
        (stops : Stops rest) :
        readValue fuel ((' ' :: field.2).map some ++ rest) = some (member.2, rest) := by
      have fewer : (' ' :: field.2).length < fuel := by
        rw [List.length_cons]
        omega
      exact first.indented [' '] rfl fuel rest fewer stops
    cases others with
    | nil =>
      have only : fieldLines [field] = fieldLine field := List.intercalate_singleton
      rw [only] at enough ⊢
      have last := read ("\n\x7d".toList.map some ++ rest) enough ⟨_, _, rfl, .inr rfl⟩
      rw [readMembers_fieldLine, last, ← named]
      rfl
    | @cons second _ others _ _ _ =>
      have more : fieldLines (field :: second :: others) =
          fieldLine field ++ ',' :: fieldLines (second :: others) := by
        rw [fieldLines, List.map_cons, List.map_cons, List.intercalate_cons_cons,
          List.append_assoc]
        rfl
      rw [more, List.length_append, List.length_cons] at enough
      have readMore := ih (List.cons_ne_nil _ _) fuel (by omega)
      rw [more, List.map_append, List.append_assoc, List.map_cons, List.cons_append,
        readMembers_fieldLine, read _ (by omega) ⟨_, _, rfl, .inl rfl⟩, ← named]
      simp only [skipGaps_of_dense (c := ',') rfl, readMore]
      rfl

/-- **An object is read as it is laid out** with one field on a line. -/
theorem readValue_fieldLines {fields : List (String × List Char)}
    {members : List (Option String × Value)}
    (written : List.Forall₂ WrittenField fields members) (full : fields ≠ []) (fuel : Nat)
    (rest : List Symbol) (enough : (fieldLines fields).length < fuel) :
    readValue (fuel + 1)
        (some '\x7b' :: ((fieldLines fields).map some ++ ("\n\x7d".toList.map some ++ rest))) =
      some (.object members, rest) := by
  have read := readMembers_fieldLines written full fuel rest enough
  rw [readValue, skipGaps_of_dense rfl]
  simp only
  split
  · rename_i close
    rw [readMembers_close fuel close] at read
    cases read
  · rw [readMembers_skipGaps fuel (skipGaps_skipGaps _), read]
    rfl

end Templating.Json
