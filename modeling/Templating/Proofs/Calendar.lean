import Mathlib.Data.List.TakeWhile
import Templating.Calendar

/-!
# Moments are read as they are written

A moment of the years 0 to 9999 is written in fields of a fixed number of digits, each with a mark
behind it, and every field is read back as the number that it shows.

* `readDigits_fixedDigits`: a field of digits, whatever stands behind it.
* `readFraction_renderFraction`: the digits of a fraction that are left out are zeros.
* `readMoment_render`: whole moments.
* `Moment.mem_render`: the characters that they are written with.
-/

namespace Templating

open Templating.Text

/-! ## Digits -/

theorem isDigit_of_mem_fixedDigits {n width : Nat} {c : Char}
    (member : c ∈ fixedDigits 10 n width) : c.isDigit = true := by
  induction width generalizing n with
  | zero => cases member
  | succ width ih =>
    rcases List.mem_append.mp member with earlier | last
    · exact ih earlier
    · have digits : ∀ d < 10, (digitChar d).isDigit = true := by decide
      rw [List.mem_singleton.mp last]
      exact digits _ (Nat.mod_lt n (by decide))

theorem not_isBlank_of_isDigit {c : Char} (digit : c.isDigit = true) : isBlank c = false := by
  rw [Char.isDigit_iff_toNat] at digit
  have low : 48 ≤ c.toNat := digit.1
  have high : c.toNat ≤ 57 := digit.2
  simp only [isBlank, Bool.or_eq_false_iff, Bool.and_eq_false_iff, decide_eq_false_iff_not]
  omega

/-- A field of digits begins with one. -/
theorem exists_fixedDigits_eq_cons (n width : Nat) :
    ∃ c rest, fixedDigits 10 n (width + 1) = c :: rest ∧ c.isDigit = true := by
  cases digits : fixedDigits 10 n (width + 1) with
  | nil =>
    have count := length_fixedDigits 10 n (width + 1)
    rw [digits] at count
    cases count
  | cons c rest =>
    have member : c ∈ fixedDigits 10 n (width + 1) := by
      rw [digits]
      exact List.mem_cons_self
    exact ⟨c, rest, rfl, isDigit_of_mem_fixedDigits member⟩

/-- Blanks in front of a field of digits are looked for in vain. -/
theorem dropWhile_isBlank_fixedDigits (n width : Nat) (rest : List Char) :
    (fixedDigits 10 n (width + 1) ++ rest).dropWhile isBlank =
      fixedDigits 10 n (width + 1) ++ rest := by
  obtain ⟨c, more, digits, digit⟩ := exists_fixedDigits_eq_cons n width
  rw [digits, List.cons_append, List.dropWhile_cons, not_isBlank_of_isDigit digit]
  rfl

theorem takeWhile_isDigit_fixedDigits (n width : Nat) :
    (fixedDigits 10 n width).takeWhile Char.isDigit = fixedDigits 10 n width :=
  List.takeWhile_eq_self_iff.mpr fun _ member => isDigit_of_mem_fixedDigits member

/-- **A field of digits** that is as wide as it may be is read back as its number. -/
theorem readDigits_fixedDigits {n width : Nat} (fits : n < Nat.pow 10 (width + 1))
    (rest : List Char) :
    readDigits (width + 1) (fixedDigits 10 n (width + 1) ++ rest) = some (n, rest) := by
  have count := length_fixedDigits 10 n (width + 1)
  obtain ⟨c, more, digits, -⟩ := exists_fixedDigits_eq_cons n width
  have full : (fixedDigits 10 n (width + 1)).isEmpty = false := by rw [digits]; rfl
  unfold readDigits
  simp only [List.take_left' count, takeWhile_isDigit_fixedDigits, full, Bool.false_eq_true,
    if_false, decimalValue_fixedDigits fits, List.drop_left]

/-! ## Fields of a moment -/

theorem readField_lastDigits {n : Nat} (fits : n < 100) (rest : List Char) :
    readField (lastDigits n 2 ++ rest) = some (n, rest) := by
  unfold readField
  rw [dropWhile_isBlank_fixedDigits]
  exact readDigits_fixedDigits fits rest

theorem readMark_cons (mark : Char) (dense : isBlank mark = false) (rest : List Char) :
    readMark mark (mark :: rest) = some rest := by
  unfold readMark
  rw [List.dropWhile_cons, dense]
  exact if_pos rfl

theorem readYear_renderYear {year : Int} (four : 0 ≤ year ∧ year ≤ 9999) (rest : List Char) :
    readYear (renderYear year ++ rest) = some (year, rest) := by
  obtain ⟨c, more, digits, digit⟩ := exists_fixedDigits_eq_cons year.toNat 3
  have small : year.toNat < Nat.pow 10 4 := by
    have : Nat.pow 10 4 = 10000 := rfl
    omega
  have read := readDigits_fixedDigits small rest
  unfold readYear renderYear
  rw [if_pos four, dropWhile_isBlank_fixedDigits]
  -- The year begins with a digit, so it is not taken for one with a sign.
  split
  · rename_i heq
    rw [digits] at heq
    cases heq
    cases digit
  · rename_i heq
    rw [digits] at heq
    cases heq
    cases digit
  · rw [read, Option.map_some]
    simp only [Int.toNat_of_nonneg four.1]

/-! ## Fractions -/

theorem decimalValue_append_zeros (digits : List Char) (count : Nat) :
    decimalValue (digits ++ List.replicate count '0') = Nat.pow 10 count * decimalValue digits := by
  have value (text : List Char) : decimalValue text = Nat.ofDigitChars 10 text 0 := rfl
  rw [value, value, Nat.ofDigitChars_append, Nat.ofDigitChars_replicate_zero]
  rfl

/-- A fraction of at most nine digits in front of the end is read as what it shows, followed by
zeros. -/
theorem readFraction_digits {n width : Nat} (zeros : Nat) (nine : width + 1 + zeros = 9)
    (fits : n < Nat.pow 10 (width + 1)) :
    readFraction ('.' :: lastDigits n (width + 1) ++ ['Z']) =
      some (Nat.pow 10 zeros * n, ['Z']) := by
  obtain ⟨c, more, digits, -⟩ := exists_fixedDigits_eq_cons n width
  have count : (lastDigits n (width + 1)).length = width + 1 := length_fixedDigits ..
  have taken : (lastDigits n (width + 1) ++ ['Z']).takeWhile Char.isDigit =
      lastDigits n (width + 1) := by
    rw [List.takeWhile_append_of_pos fun _ member => isDigit_of_mem_fixedDigits member]
    exact List.append_nil _
  have kept : (lastDigits n (width + 1)).take 9 = lastDigits n (width + 1) :=
    List.take_of_length_le (by omega)
  have padding : 9 - (lastDigits n (width + 1)).length = zeros := by omega
  have full : (lastDigits n (width + 1)).isEmpty = false := by rw [lastDigits, digits]; rfl
  unfold readFraction
  simp only [List.cons_append, taken, kept, padding, full, Bool.false_eq_true, if_false,
    List.drop_left, decimalValue_append_zeros, decimalValue_fixedDigits fits]

theorem readFraction_renderFraction {nanos : Nat} (fits : nanos < 1000000000) :
    readFraction (renderFraction nanos ++ ['Z']) = some (nanos, ['Z']) := by
  have thousand : Nat.pow 10 3 = 1000 := rfl
  have million : Nat.pow 10 6 = 1000000 := rfl
  unfold renderFraction
  split
  · rename_i whole
    rw [whole]
    rfl
  · split
    · have fits : nanos / 1000000 < Nat.pow 10 3 := by omega
      have digits : Nat.pow 10 6 * (nanos / 1000000) = nanos := by rw [million]; omega
      rw [readFraction_digits 6 rfl fits, digits]
    · split
      · have fits : nanos / 1000 < Nat.pow 10 6 := by omega
        have digits : Nat.pow 10 3 * (nanos / 1000) = nanos := by rw [thousand]; omega
        rw [readFraction_digits 3 rfl fits, digits]
      · have digits : Nat.pow 10 0 * nanos = nanos := Nat.one_mul nanos
        rw [readFraction_digits 0 rfl fits, digits]

/-! ## Moments -/

namespace Moment

variable (moment : Moment)

/-- A moment is made from its own fields. -/
theorem ofFields?_self : ofFields? moment.date moment.hour moment.minute moment.second
    moment.nanos = some moment :=
  dif_pos ⟨moment.hour_range, moment.minute_range, moment.second_range, moment.nanos_range⟩

theorem date_ofFields?_self : Date.ofFields? moment.date.year moment.date.month moment.date.day =
    some moment.date := by
  unfold Date.ofFields?
  rw [dif_pos moment.date.month_range, dif_pos moment.date.day_range]

/-- A local time that is not ahead of UTC is the time in UTC. -/
theorem toUtc_self (inRange : yearInRange moment.date.year = true) :
    toUtc moment.date moment.hour moment.minute moment.second moment.nanos 0 = some moment := by
  have hours := moment.hour_range
  have minutes := moment.minute_range
  have notBefore : ¬ 60 * (moment.hour : Int) + moment.minute - 0 < 0 := by omega
  have sameDay : 60 * (moment.hour : Int) + moment.minute - 0 < 1440 := by omega
  have within : ((60 * (moment.hour : Int) + moment.minute - 0) % 1440).toNat =
      60 * moment.hour + moment.minute := by omega
  have hour : (60 * moment.hour + moment.minute) / 60 = moment.hour := by omega
  have minute : (60 * moment.hour + moment.minute) % 60 = moment.minute := by omega
  unfold toUtc
  simp only [if_neg notBefore, if_pos sameDay, within, hour, minute, inRange, if_true]
  exact moment.ofFields?_self

/-- The number of days of a month has two digits. -/
theorem day_lt : moment.date.day < 100 := by
  have bound : ∀ year month, daysIn year month ≤ 31 := by
    intro year month
    unfold daysIn
    split
    · split <;> decide
    · split <;> decide
  have := bound moment.date.year moment.date.month
  have := moment.date.day_range.2
  omega

end Moment

/-- **A moment is read as it is written**, for the years 0 to 9999. -/
theorem readMoment_render (moment : Moment)
    (four : 0 ≤ moment.date.year ∧ moment.date.year ≤ 9999) :
    readMoment moment.render = some moment := by
  have months := moment.date.month_range
  have days := moment.day_lt
  have hours := moment.hour_range
  have minutes := moment.minute_range
  have seconds := moment.second_range
  have inRange : yearInRange moment.date.year = true := by
    simp only [yearInRange, Bool.and_eq_true, decide_eq_true_eq]
    omega
  have written : moment.render = renderYear moment.date.year ++ '-' ::
      (lastDigits moment.date.month 2 ++ '-' :: (lastDigits moment.date.day 2 ++ 'T' ::
        (lastDigits moment.hour 2 ++ ':' :: (lastDigits moment.minute 2 ++ ':' ::
          (lastDigits moment.second 2 ++ (renderFraction moment.nanos ++ ['Z'])))))) := by
    simp [Moment.render]
  have offset : readOffset ['Z'] = some (0, []) := rfl
  have month : moment.date.month < 100 := by omega
  have hour : moment.hour < 100 := by omega
  have minute : moment.minute < 100 := by omega
  have second : moment.second < 100 := by omega
  have early : ¬ 24 ≤ moment.hour := by omega
  have early' : ¬ 60 ≤ moment.minute := by omega
  have bind_some {α β : Type} (a : α) (f : α → Option β) : (some a >>= f) = f a := rfl
  rw [written]
  unfold readMoment
  rw [readYear_renderYear four, bind_some]
  dsimp only
  rw [readMark_cons '-' rfl, bind_some, readField_lastDigits month, bind_some]
  dsimp only
  rw [readMark_cons '-' rfl, bind_some, readField_lastDigits days, bind_some]
  simp only
  rw [bind_some, readField_lastDigits hour, bind_some]
  dsimp only
  rw [readMark_cons ':' rfl, bind_some, readField_lastDigits minute, bind_some]
  dsimp only
  rw [readMark_cons ':' rfl, bind_some, readField_lastDigits second, bind_some]
  dsimp only
  rw [readFraction_renderFraction moment.nanos_range, bind_some]
  dsimp only
  rw [offset, bind_some]
  dsimp only
  rw [moment.date_ofFields?_self, bind_some, moment.toUtc_self inRange]
  simp [allBlank, inRange, early, early']

/-! ## The characters of a moment -/

theorem mem_renderFraction {nanos : Nat} {c : Char} (member : c ∈ renderFraction nanos) :
    c.isDigit = true ∨ c = '.' := by
  have field {n width : Nat} (inside : c ∈ '.' :: lastDigits n width) :
      c.isDigit = true ∨ c = '.' := by
    rcases List.mem_cons.mp inside with rfl | digit
    · exact .inr rfl
    · exact .inl (isDigit_of_mem_fixedDigits digit)
  unfold renderFraction at member
  split at member
  · cases member
  split at member
  · exact field member
  split at member
  · exact field member
  · exact field member

/-- A moment is written with digits and five other characters. -/
theorem Moment.mem_render {moment : Moment}
    (four : 0 ≤ moment.date.year ∧ moment.date.year ≤ 9999) {c : Char}
    (member : c ∈ moment.render) : c.isDigit = true ∨ c ∈ ['-', 'T', ':', '.', 'Z'] := by
  have digit {n width : Nat} (inside : c ∈ lastDigits n width) : c.isDigit = true :=
    isDigit_of_mem_fixedDigits inside
  have fraction (inside : c ∈ renderFraction moment.nanos) : c.isDigit = true ∨ c = '.' :=
    mem_renderFraction inside
  unfold Moment.render renderYear at member
  rw [if_pos four] at member
  simp only [List.mem_append, List.mem_cons, List.not_mem_nil, or_false] at member ⊢
  grind

end Templating
