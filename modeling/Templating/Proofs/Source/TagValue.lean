import Mathlib.Data.List.TakeWhile
import Templating.Source.TagValue

/-!
# Occurrences of a tag

- `readTag_eq_some`, `readTag_occurrence`: what is read is an occurrence as it is spelled out, and
  every occurrence is read.
- `substitute_separator`, `substitute_joined`: behind a separator a run goes on as at the start of
  a text, behind any other character without looking for a tag.
- `substitute_passing`: a run passes over text in which no tag begins.
-/

namespace Templating.Source

open Templating.Text

/-! ## Reading -/

theorem takeWhile_of_stop {p : Char → Bool} {front : List Char} {stop : Char}
    (passes : ∀ c ∈ front, p c = true) (stops : p stop = false) (rest : List Char) :
    (front ++ stop :: rest).takeWhile p = front := by
  rw [List.takeWhile_append_of_pos passes, List.takeWhile_cons, stops]
  simp

theorem dropWhile_of_stop {p : Char → Bool} {front : List Char} {stop : Char}
    (passes : ∀ c ∈ front, p c = true) (stops : p stop = false) (rest : List Char) :
    (front ++ stop :: rest).dropWhile p = stop :: rest := by
  rw [List.dropWhile_append_of_pos passes, List.dropWhile_cons, stops]
  simp

/-- A text passes the test, or it does so up to a character that does not. -/
theorem exists_stop (p : Char → Bool) (text : List Char) : (∀ c ∈ text, p c = true) ∨
    ∃ front stop back, text = front ++ stop :: back ∧ (∀ c ∈ front, p c = true) ∧
      p stop = false := by
  have whole := List.takeWhile_append_dropWhile (p := p) (l := text)
  have stops := List.head?_dropWhile_not p text
  cases behind : text.dropWhile p with
  | nil => exact .inl (List.dropWhile_eq_nil_iff.mp behind)
  | cons stop back =>
    rw [behind] at whole stops
    exact .inr ⟨_, stop, back, whole.symm, fun _ => List.mem_takeWhile_imp, by simpa using stops⟩

/-- An occurrence: the tag, `=` with blanks around it, and a value in quotes. -/
structure IsOccurrence (tag gap inner value rest text : List Char) : Prop where
  gap_blank : ∀ c ∈ gap, isBlank c = true
  inner_blank : ∀ c ∈ inner, isBlank c = true
  value_unquoted : '"' ∉ value
  text_eq : text = tag ++ (gap ++ '=' :: (inner ++ '"' :: (value ++ '"' :: rest)))

theorem IsOccurrence.drop {tag gap inner value rest text : List Char}
    (occurrence : IsOccurrence tag gap inner value rest text) :
    text.drop (tag.length + gap.length + inner.length + value.length + 3) = rest := by
  have split : text = (tag ++ (gap ++ '=' :: (inner ++ '"' :: (value ++ ['"'])))) ++ rest := by
    rw [occurrence.text_eq]
    simp
  rw [split]
  apply List.drop_left'
  simp only [List.length_append, List.length_cons, List.length_nil]
  omega

theorem IsOccurrence.length_lt {tag gap inner value rest text : List Char}
    (occurrence : IsOccurrence tag gap inner value rest text) : rest.length < text.length := by
  rw [occurrence.text_eq]
  simp only [List.length_append, List.length_cons]
  omega

/-- What is read is an occurrence. -/
theorem readTag_eq_some {tag text value : List Char} {length : Nat}
    (read : readTag tag text = some (length, value)) :
    ∃ gap inner rest, IsOccurrence tag gap inner value rest text ∧ text.drop length = rest := by
  unfold readTag at read
  split at read
  · rename_i starts
    obtain ⟨behind, rfl⟩ := List.isPrefixOf_iff_prefix.mp starts
    rw [List.drop_left] at read
    simp only at read
    split at read
    · rename_i assigned atSign
      split at read
      · rename_i quoted atQuote
        split at read
        · cases read
        · rename_i quote rest atEnd
          obtain ⟨rfl, rfl⟩ := Prod.mk.inj (Option.some.inj read)
          have closing : quote = '"' := by
            have stop := List.head?_dropWhile_not (· ≠ '"') quoted
            rw [atEnd] at stop
            simpa using stop
          have behindEq := List.takeWhile_append_dropWhile (p := isBlank) (l := behind)
          have assignedEq := List.takeWhile_append_dropWhile (p := isBlank) (l := assigned)
          have quotedEq := List.takeWhile_append_dropWhile (p := (· ≠ '"')) (l := quoted)
          rw [atSign] at behindEq
          rw [atQuote] at assignedEq
          rw [atEnd, closing] at quotedEq
          have occurrence : IsOccurrence tag (behind.takeWhile isBlank)
              (assigned.takeWhile isBlank) (quoted.takeWhile (· ≠ '"')) rest (tag ++ behind) := by
            refine ⟨fun _ => List.mem_takeWhile_imp, fun _ => List.mem_takeWhile_imp, ?_, ?_⟩
            · intro member
              simpa using List.mem_takeWhile_imp member
            · rw [quotedEq, assignedEq, behindEq]
          exact ⟨_, _, _, occurrence, occurrence.drop⟩
      · cases read
    · cases read
  · cases read

/-- Every occurrence is read. -/
theorem readTag_occurrence {tag gap inner value rest text : List Char}
    (occurrence : IsOccurrence tag gap inner value rest text) :
    readTag tag text =
      some (tag.length + gap.length + inner.length + value.length + 3, value) := by
  obtain ⟨gapBlank, innerBlank, unquoted, rfl⟩ := occurrence
  have starts := List.isPrefixOf_iff_prefix.mpr (List.prefix_append tag
    (gap ++ '=' :: (inner ++ '"' :: (value ++ '"' :: rest))))
  have noQuote : ∀ c ∈ value, decide (c ≠ '"') = true := by
    intro c member
    exact decide_eq_true fun same => unquoted (same ▸ member)
  have sign : isBlank '=' = false := by decide
  have quote : isBlank '"' = false := by decide
  have closing : decide ('"' ≠ '"') = false := by decide
  rw [readTag, if_pos starts, List.drop_left]
  simp only [takeWhile_of_stop gapBlank sign, dropWhile_of_stop gapBlank sign,
    takeWhile_of_stop innerBlank quote, dropWhile_of_stop innerBlank quote,
    takeWhile_of_stop noQuote closing, dropWhile_of_stop noQuote closing]

/-- Nothing is read where the text does not begin as the tag does. -/
theorem readTag_eq_none {p c : Char} (other : c ≠ p) (tag rest : List Char) :
    readTag (p :: tag) (c :: rest) = none := by
  have differs : (p :: tag).isPrefixOf (c :: rest) = false := by
    simp [List.isPrefixOf, Ne.symm other]
  rw [readTag, differs]
  rfl

/-! ## Running over the text -/

theorem normalizeTag_of_none {tag text : List Char} (nothing : readTag tag text = none) :
    normalizeTag tag text = substitute (separatedTagRule tag) text := by
  rw [normalizeTag, nothing]

theorem normalizeTag_of_some {tag text value : List Char} {length : Nat}
    (read : readTag tag text = some (length, value)) :
    normalizeTag tag text = writeTag tag (normalizeValue value) ++
      substitute (separatedTagRule tag) (text.drop length) := by
  rw [normalizeTag, read]

theorem substitute_separator {c : Char} (separator : isSeparator c = true)
    (tag rest : List Char) :
    substitute (separatedTagRule tag) (c :: rest) = c :: normalizeTag tag rest := by
  cases read : readTag tag rest with
  | none =>
    have nothing : separatedTagRule tag (c :: rest) = none := by
      rw [separatedTagRule, if_pos separator, read]
      rfl
    rw [substitute_cons_of_none nothing, normalizeTag_of_none read]
  | some occurrence =>
    obtain ⟨length, value⟩ := occurrence
    have found : separatedTagRule tag (c :: rest) =
        some ⟨length, c :: writeTag tag (normalizeValue value)⟩ := by
      rw [separatedTagRule, if_pos separator, read]
      rfl
    rw [substitute_cons_of_some found, normalizeTag_of_some read, List.cons_append]

theorem substitute_joined {c : Char} (joined : isSeparator c = false) (tag rest : List Char) :
    substitute (separatedTagRule tag) (c :: rest) =
      c :: substitute (separatedTagRule tag) rest := by
  have nothing : separatedTagRule tag (c :: rest) = none := by
    rw [separatedTagRule, if_neg (by simp [joined])]
  exact substitute_cons_of_none nothing

/-- What a run gives begins with the first character of the text. -/
theorem eq_cons_of_substitute_eq_cons {c : Char} {tag text more : List Char}
    (run : substitute (separatedTagRule tag) text = c :: more) : ∃ rest, text = c :: rest := by
  cases text with
  | nil => cases run
  | cons d rest =>
    cases separates : isSeparator d with
    | true =>
      rw [substitute_separator separates] at run
      exact ⟨rest, by rw [(List.cons.inj run).1]⟩
    | false =>
      rw [substitute_joined separates] at run
      exact ⟨rest, by rw [(List.cons.inj run).1]⟩

/-- A run passes over text in which no tag begins; when a separator ends it, what is behind it is
read as at the start of a text. -/
theorem substitute_passing {tag front back : List Char} {last : Char}
    (noTag : ∀ c rest, c :: rest <:+ front → readTag tag (c :: rest ++ back) = none)
    (ends : front.getLast? = some last) (separator : isSeparator last = true) :
    substitute (separatedTagRule tag) (front ++ back) = front ++ normalizeTag tag back := by
  induction front with
  | nil => cases ends
  | cons c front ih =>
    cases front with
    | nil =>
      obtain rfl : c = last := Option.some.inj ends
      exact substitute_separator separator tag back
    | cons d front =>
      rw [List.getLast?_cons_cons] at ends
      have behind : d :: front <:+ c :: d :: front := List.suffix_cons c (d :: front)
      have step : substitute (separatedTagRule tag) (c :: (d :: front ++ back)) =
          c :: substitute (separatedTagRule tag) (d :: front ++ back) := by
        cases separates : isSeparator c with
        | true => rw [substitute_separator separates, normalizeTag_of_none (noTag d front behind)]
        | false => exact substitute_joined separates _ _
      rw [List.cons_append, step, ih (fun e rest part => noTag e rest (part.trans behind)) ends]
      rfl

/-- No tag begins in text without the first character of the tag. -/
theorem substitute_inert {p last : Char} {tag front : List Char} (inert : p ∉ front)
    (ends : front.getLast? = some last) (separator : isSeparator last = true)
    (back : List Char) :
    substitute (separatedTagRule (p :: tag)) (front ++ back) =
      front ++ normalizeTag (p :: tag) back := by
  refine substitute_passing (fun c rest part => ?_) ends separator
  have other : c ≠ p := fun same => inert (same ▸ part.subset List.mem_cons_self)
  exact readTag_eq_none other tag (rest ++ back)

/-! ## Trimming the end -/

theorem dropTail_cons (p : Char → Bool) (c : Char) (rest : List Char) :
    dropTail p (c :: rest) =
      if (dropTail p rest).isEmpty && p c then [] else c :: dropTail p rest := by
  rw [dropTail, dropTail, List.reverse_cons, List.dropWhile_append, List.isEmpty_reverse]
  split
  · rename_i nothing
    rw [nothing, Bool.true_and, List.isEmpty_iff.mp nothing]
    cases passes : p c <;> simp [passes]
  · rename_i something
    rw [Bool.eq_false_iff.mpr something, List.reverse_append]
    rfl

/-- Text whose last character stays is kept in front of what is left behind it. -/
theorem dropTail_append {p : Char → Bool} {front : List Char} {last : Char}
    (ends : front.getLast? = some last) (stays : p last = false) (back : List Char) :
    dropTail p (front ++ back) = front ++ dropTail p back := by
  obtain ⟨front, rfl⟩ := List.getLast?_eq_some_iff.mp ends
  induction front with
  | nil => simp [dropTail_cons, stays]
  | cons c front ih =>
    rw [List.cons_append, List.cons_append, dropTail_cons, ih List.getLast?_concat,
      List.cons_append]
    simp

end Templating.Source
