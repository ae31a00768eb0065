import Templating.Text.Blank
import Templating.Text.Digits

/-!
# Moments in UTC

A moment is a date of the Gregorian calendar and a time of day with nanoseconds. The second 60 is
kept for leap seconds.

`Moment.render` writes a moment as `2024-01-02T03:04:05Z`, with three, six or nine digits of a
second's fraction when it is not zero. `readMoment` reads that form and more: fields of fewer
digits, blanks in front of fields and marks, a space for the `T`, fractions of any length, and an
offset from UTC instead of the `Z`.
-/

namespace Templating

open Templating.Text

/-! ## Dates -/

/-- Whether a year has a 29th of February. -/
def isLeapYear (year : Int) : Bool :=
  year % 4 = 0 && (year % 100 ≠ 0 || year % 400 = 0)

/-- The number of days of a month. -/
def daysIn (year : Int) (month : Nat) : Nat :=
  if month = 2 then (if isLeapYear year then 29 else 28)
  else if month = 4 ∨ month = 6 ∨ month = 9 ∨ month = 11 then 30
  else 31

/-- Every month has at least 28 days. -/
theorem twentyEight_le_daysIn (year : Int) (month : Nat) : 28 ≤ daysIn year month := by
  unfold daysIn
  split
  · split <;> decide
  · split <;> decide

/-- A day of the Gregorian calendar. -/
structure Date where
  year : Int
  month : Nat
  day : Nat
  month_range : 1 ≤ month ∧ month ≤ 12
  day_range : 1 ≤ day ∧ day ≤ daysIn year month
  deriving DecidableEq, Repr

namespace Date

/-- The date with these fields, if there is one. -/
def ofFields? (year : Int) (month day : Nat) : Option Date :=
  if months : 1 ≤ month ∧ month ≤ 12 then
    if days : 1 ≤ day ∧ day ≤ daysIn year month then some ⟨year, month, day, months, days⟩
    else none
  else
    none

/-- The day after. -/
def next (date : Date) : Date :=
  if h : date.day < daysIn date.year date.month then
    { date with day := date.day + 1, day_range := ⟨by omega, h⟩ }
  else
    have days (year : Int) (month : Nat) : 1 ≤ 1 ∧ 1 ≤ daysIn year month :=
      ⟨Nat.le_refl 1, Nat.le_trans (by decide) (twentyEight_le_daysIn year month)⟩
    if m : date.month < 12 then ⟨date.year, date.month + 1, 1, ⟨by omega, m⟩, days _ _⟩
    else ⟨date.year + 1, 1, 1, by decide, days _ _⟩

/-- The day before. -/
def previous (date : Date) : Date :=
  if h : 1 < date.day then
    { date with
      day := date.day - 1
      day_range := ⟨by omega, Nat.le_trans (Nat.sub_le _ _) date.day_range.2⟩ }
  else
    have days (year : Int) (month : Nat) : 1 ≤ daysIn year month ∧ daysIn year month ≤
        daysIn year month :=
      ⟨Nat.le_trans (by decide) (twentyEight_le_daysIn year month), Nat.le_refl _⟩
    if m : 1 < date.month then
      ⟨date.year, date.month - 1, daysIn date.year (date.month - 1),
        ⟨by omega, Nat.le_trans (Nat.sub_le _ _) date.month_range.2⟩, days _ _⟩
    else ⟨date.year - 1, 12, daysIn (date.year - 1) 12, by decide, days _ _⟩

end Date

/-! ## Moments -/

/-- A moment in UTC. -/
structure Moment where
  date : Date
  hour : Nat
  minute : Nat
  second : Nat
  nanos : Nat
  hour_range : hour < 24
  minute_range : minute < 60
  second_range : second ≤ 60
  nanos_range : nanos < 1000000000
  deriving DecidableEq, Repr

namespace Moment

/-- The moment with these fields, if there is one. -/
def ofFields? (date : Date) (hour minute second nanos : Nat) : Option Moment :=
  if h : hour < 24 ∧ minute < 60 ∧ second ≤ 60 ∧ nanos < 1000000000 then
    some ⟨date, hour, minute, second, nanos, h.1, h.2.1, h.2.2.1, h.2.2.2⟩
  else
    none

end Moment

/-! ## Writing -/

/-- The last `width` decimal digits of a number. -/
abbrev lastDigits (n width : Nat) : List Char :=
  fixedDigits 10 n width

/-- A number with at least four digits. -/
def fourDigits (n : Nat) : List Char :=
  if n < 10000 then lastDigits n 4 else (Nat.toDigits 10 n)

/-- A year: four digits for the years 0 to 9999, any other with its sign. -/
def renderYear (year : Int) : List Char :=
  if 0 ≤ year ∧ year ≤ 9999 then lastDigits year.toNat 4
  else (if year < 0 then '-' else '+') :: fourDigits year.natAbs

/-- The fraction of a second in the fewest groups of three digits. -/
def renderFraction (nanos : Nat) : List Char :=
  if nanos = 0 then []
  else if nanos % 1000000 = 0 then '.' :: lastDigits (nanos / 1000000) 3
  else if nanos % 1000 = 0 then '.' :: lastDigits (nanos / 1000) 6
  else '.' :: lastDigits nanos 9

/-- The written form of a moment. -/
def Moment.render (moment : Moment) : List Char :=
  renderYear moment.date.year ++ '-' :: lastDigits moment.date.month 2 ++
    '-' :: lastDigits moment.date.day 2 ++ 'T' :: lastDigits moment.hour 2 ++
    ':' :: lastDigits moment.minute 2 ++ ':' :: lastDigits moment.second 2 ++
    renderFraction moment.nanos ++ ['Z']

/-! ## Reading -/

/-- Reads one to `most` digits. -/
def readDigits (most : Nat) (text : List Char) : Option (Nat × List Char) :=
  let digits := (text.take most).takeWhile Char.isDigit
  if digits.isEmpty then none else some (decimalValue digits, text.drop digits.length)

/-- Reads a field of one or two digits behind blanks. -/
def readField (text : List Char) : Option (Nat × List Char) :=
  readDigits 2 (text.dropWhile isBlank)

/-- Reads a mark behind blanks. -/
def readMark (mark : Char) (text : List Char) : Option (List Char) :=
  match text.dropWhile isBlank with
  | c :: rest => if c = mark then some rest else none
  | [] => none

/-- Reads a year: four digits at most, or any number of them behind a sign. -/
def readYear (text : List Char) : Option (Int × List Char) :=
  match text.dropWhile isBlank with
  | '-' :: rest => (readDigits rest.length rest).map fun (n, rest) => (-(n : Int), rest)
  | '+' :: rest => (readDigits rest.length rest).map fun (n, rest) => ((n : Int), rest)
  | digits => (readDigits 4 digits).map fun (n, rest) => ((n : Int), rest)

/-- Reads a fraction of a second, of which nine digits count. -/
def readFraction (text : List Char) : Option (Nat × List Char) :=
  match text with
  | '.' :: rest =>
    let digits := rest.takeWhile Char.isDigit
    let kept := digits.take 9
    if digits.isEmpty then none
    else
      let padded := kept ++ List.replicate (9 - kept.length) '0'
      some (decimalValue padded, rest.drop digits.length)
  | _ => some (0, text)

/-- Reads an offset from UTC in minutes. -/
def readOffset (text : List Char) : Option (Int × List Char) :=
  match text.dropWhile isBlank with
  | [] => none
  | sign :: rest =>
    if sign = 'Z' ∨ sign = 'z' then some (0, rest)
    else if (sign :: rest.take 2).map Char.toUpper = ['U', 'T', 'C'] then some (0, rest.drop 2)
    else if sign = '+' ∨ sign = '-' ∨ sign = '\u2212' then
      match rest with
      | h₁ :: h₂ :: rest =>
        match rest.dropWhile fun c => c = ':' || isBlank c with
        | m₁ :: m₂ :: rest =>
          if [h₁, h₂, m₁, m₂].all Char.isDigit then
            let hours := decimalValue [h₁, h₂]
            let minutes := decimalValue [m₁, m₂]
            if hours < 24 ∧ minutes < 60 then
              let total : Int := 60 * hours + minutes
              some (if sign = '+' then total else -total, rest)
            else
              none
          else
            none
        | _ => none
      | _ => none
    else
      none

/-- The dates that can be stored: those of these years. -/
def yearInRange (year : Int) : Bool :=
  -262143 ≤ year && year ≤ 262142

/-- The moment in UTC of a local time that is `offset` minutes ahead of it. -/
def toUtc (date : Date) (hour minute second nanos : Nat) (offset : Int) : Option Moment :=
  let total : Int := 60 * hour + minute - offset
  let day := if total < 0 then date.previous else if total < 1440 then date else date.next
  let within := (total % 1440).toNat
  if yearInRange day.year then Moment.ofFields? day (within / 60) (within % 60) second nanos
  else none

/-- Reads a moment and refuses any text behind it other than blanks. -/
def readMoment (text : List Char) : Option Moment := do
  let (year, text) ← readYear text
  let text ← readMark '-' text
  let (month, text) ← readField text
  let text ← readMark '-' text
  let (day, text) ← readField text
  let text ← match text with
    | 'T' :: rest | 't' :: rest | ' ' :: rest => some rest
    | _ => none
  let (hour, text) ← readField text
  let text ← readMark ':' text
  let (minute, text) ← readField text
  let text ← readMark ':' text
  let (second, text) ← readField text
  let (nanos, text) ← readFraction text
  let (offset, text) ← readOffset text
  if !allBlank text || !yearInRange year || 24 ≤ hour || 60 ≤ minute then none
  toUtc (← Date.ofFields? year month day) hour minute second nanos offset

end Templating
