import Templating.Proofs.Source.TagValue
import Templating.Proofs.Text.Runs

/-!
# Separated occurrences of a tag

A text in which the occurrences of a tag are spelled out, each behind a separator and none
immediately behind another. A tag name has no separator in it, so that no name begins in a text
that ends in one and goes on behind it. Hence a run comes to every occurrence at its first
character, whatever the values are, and it reads nothing else.

* `not_prefix_append`: no name begins in a text and ends behind it.
* `normalizeTag_separated`, where what is written of a value is told by the value itself.
-/

namespace Templating.Source

open Templating.Text

variable {tag : List Char}

/-! ## Texts with occurrences in them -/

/-- How an occurrence is spelled behind its tag: the blanks around `=`, and what is quoted. -/
structure Spelling where
  gap : List Char
  inner : List Char
  value : List Char
  gap_blank : ∀ c ∈ gap, isBlank c = true
  inner_blank : ∀ c ∈ inner, isBlank c = true
  value_unquoted : '"' ∉ value

namespace Spelling

def written (tag : List Char) (spelling : Spelling) : List Char :=
  tag ++ (spelling.gap ++ '=' :: (spelling.inner ++ '"' :: (spelling.value ++ ['"'])))

/-- The occurrence in its normal form; nothing when nothing is left of the value. -/
def normal (tag : List Char) (spelling : Spelling) : List Char :=
  if normalizeValue spelling.value = [] then []
  else tag ++ '=' :: '"' :: (normalizeValue spelling.value ++ ['"'])

end Spelling

/-- A text, and occurrences of the tag with a text behind each. The tag does not occur in the
texts; those in front of an occurrence are empty only at the beginning, and end in a separator. -/
structure Separated (tag first : List Char) (parts : List (Spelling × List Char)) : Prop where
  free : ∀ text ∈ first :: parts.map Prod.snd, ¬ tag <:+: text
  filled : ∀ text ∈ (parts.map Prod.snd).dropLast, text ≠ []
  separators : ∀ text ∈ (first :: parts.map Prod.snd).dropLast, ∀ last ∈ text.getLast?,
    isSeparator last = true

theorem Separated.of_free {text : List Char} (free : ¬ tag <:+: text) : Separated tag text [] where
  free _ member := List.mem_singleton.mp member ▸ free
  filled _ member := (List.not_mem_nil member).elim
  separators _ member := (List.not_mem_nil member).elim

/-- The separator that ends a text in front of an occurrence. -/
theorem Separated.ends {first : List Char} {part : Spelling × List Char}
    {parts : List (Spelling × List Char)} (separated : Separated tag first (part :: parts)) :
    ∀ last ∈ first.getLast?, isSeparator last = true :=
  separated.separators first List.mem_cons_self

theorem Separated.tail {first : List Char} {part : Spelling × List Char}
    {parts : List (Spelling × List Char)} (separated : Separated tag first (part :: parts)) :
    Separated tag part.2 parts where
  free text member := separated.free text (List.mem_cons_of_mem first member)
  filled text member := by
    cases parts with
    | nil => cases member
    | cons next parts => exact separated.filled text (List.mem_cons_of_mem part.2 member)
  separators text member := separated.separators text (List.mem_cons_of_mem first member)

/-- A text between two occurrences is not empty. -/
theorem Separated.tail_filled {first : List Char} {part : Spelling × List Char}
    {parts : List (Spelling × List Char)} (separated : Separated tag first (part :: parts))
    (more : parts ≠ []) : part.2 ≠ [] := by
  obtain ⟨next, parts, rfl⟩ := List.exists_cons_of_ne_nil more
  exact separated.filled part.2 List.mem_cons_self

/-! ## Texts in which no tag begins -/

theorem readTag_of_other {text : List Char} (other : ¬ tag <+: text) :
    readTag tag text = none :=
  if_neg (mt List.isPrefixOf_iff_prefix.mp other)

/-- **No name begins** in a text and ends behind it when the text ends in a separator. -/
theorem not_prefix_append {front : List Char} {last : Char}
    (name : ∀ c ∈ tag, isSeparator c = false) (free : ¬ tag <:+: front)
    (ends : front.getLast? = some last) (separator : isSeparator last = true) (back : List Char) :
    ¬ tag <+: front ++ back := by
  intro starts
  rcases List.prefix_or_prefix_of_prefix starts (List.prefix_append front back) with
    inside | around
  · exact free inside.isInfix
  · have member : last ∈ tag := around.subset (List.mem_of_getLast? ends)
    rw [name last member] at separator
    cases separator

/-- A text without the tag is kept. -/
theorem substitute_of_free {text : List Char} (free : ¬ tag <:+: text) :
    substitute (separatedTagRule tag) text = text := by
  refine substitute_eq_self fun tail part => ?_
  cases tail with
  | nil => rfl
  | cons c rest =>
    have behind : rest <:+ text := (List.suffix_cons c rest).trans part
    have noTag : readTag tag rest = none :=
      readTag_of_other fun starts => free (starts.isInfix.trans behind.isInfix)
    rw [separatedTagRule, noTag]
    exact ite_self none

/-- No tag begins between two occurrences. -/
theorem Separated.readTag_eq_none (name : ∀ c ∈ tag, isSeparator c = false) {first : List Char}
    {parts : List (Spelling × List Char)} (separated : Separated tag first parts) {c : Char}
    {rest : List Char} (behind : c :: rest <:+ first) :
    readTag tag (c :: rest ++ parts.flatMap fun part => part.1.written tag ++ part.2) = none := by
  have free : ¬ tag <:+: c :: rest := fun inside =>
    separated.free first List.mem_cons_self (inside.trans behind.isInfix)
  apply readTag_of_other
  cases parts with
  | nil =>
    rw [List.flatMap_nil, List.append_nil]
    exact fun starts => free starts.isInfix
  | cons part parts =>
    have ends := List.getLast?_eq_some_getLast (List.cons_ne_nil c rest)
    obtain ⟨front, rfl⟩ := behind
    refine not_prefix_append name free ends (separated.ends _ ?_) _
    rw [List.getLast?_append_cons]
    exact ends

/-! ## Running from one occurrence to the next -/

theorem normalizeTag_written (spelling : Spelling) (rest : List Char) :
    normalizeTag tag (spelling.written tag ++ rest) =
      spelling.normal tag ++ substitute (separatedTagRule tag) rest := by
  have occurrence : IsOccurrence tag spelling.gap spelling.inner spelling.value rest
      (spelling.written tag ++ rest) := by
    refine ⟨spelling.gap_blank, spelling.inner_blank, spelling.value_unquoted, ?_⟩
    simp [Spelling.written]
  rw [normalizeTag_of_some (readTag_occurrence occurrence), occurrence.drop]
  simp [writeTag, Spelling.normal]

/-- A run that is not at the start of the text any more. -/
theorem substitute_separated (name : ∀ c ∈ tag, isSeparator c = false) {first : List Char}
    {parts : List (Spelling × List Char)} (separated : Separated tag first parts)
    (filled : parts ≠ [] → first ≠ []) :
    substitute (separatedTagRule tag)
        (first ++ parts.flatMap fun part => part.1.written tag ++ part.2) =
      first ++ parts.flatMap fun part => part.1.normal tag ++ part.2 := by
  induction parts generalizing first with
  | nil =>
    rw [List.flatMap_nil, List.flatMap_nil, List.append_nil]
    exact substitute_of_free (separated.free first List.mem_cons_self)
  | cons part parts ih =>
    have ends := List.getLast?_eq_some_getLast (filled (List.cons_ne_nil part parts))
    rw [substitute_passing (fun c rest => separated.readTag_eq_none name) ends
      (separated.ends _ ends), List.flatMap_cons, List.append_assoc, normalizeTag_written,
      ih separated.tail separated.tail_filled, List.flatMap_cons, List.append_assoc]

theorem normalizeTag_parts (some : tag ≠ []) (name : ∀ c ∈ tag, isSeparator c = false)
    {first : List Char} {parts : List (Spelling × List Char)}
    (separated : Separated tag first parts) :
    normalizeTag tag (first ++ parts.flatMap fun part => part.1.written tag ++ part.2) =
      first ++ parts.flatMap fun part => part.1.normal tag ++ part.2 := by
  cases first with
  | cons c rest =>
    rw [normalizeTag_of_none (separated.readTag_eq_none name (List.suffix_refl (c :: rest)))]
    exact substitute_separated name separated fun _ => List.cons_ne_nil c rest
  | nil =>
    cases parts with
    | nil => exact normalizeTag_of_none (readTag_of_other (mt List.prefix_nil.mp some))
    | cons part parts =>
      rw [List.flatMap_cons, List.nil_append, List.append_assoc, normalizeTag_written,
        substitute_separated name separated.tail separated.tail_filled, List.flatMap_cons,
        List.append_assoc]
      rfl

/-- **Every separated occurrence is normalised** and the texts between them are kept, however many
there are and whatever their values. What is written of a value is one space for each of its runs of
blanks, without the blanks and braces at its ends. -/
theorem normalizeTag_separated (some : tag ≠ []) (name : ∀ c ∈ tag, isSeparator c = false) :
    (∀ first parts, Separated tag first parts →
      normalizeTag tag (first ++ parts.flatMap fun part => part.1.written tag ++ part.2) =
        first ++ parts.flatMap fun part => part.1.normal tag ++ part.2) ∧
    (∀ text, ¬ tag <:+: text → normalizeTag tag text = text) ∧
    ∀ value, ∃ core, IsTrimmed isPadding value core ∧ normalizeValue value = spaceRuns core := by
  refine ⟨fun first parts => normalizeTag_parts some name, fun text free => ?_, fun value => ?_⟩
  · have alone := normalizeTag_parts some name (Separated.of_free free)
    rwa [List.flatMap_nil, List.flatMap_nil, List.append_nil] at alone
  · exact ⟨trimBy isPadding value, isTrimmed_trimBy isPadding value, collapseBlanks_eq_spaceRuns _⟩

/-- Two occurrences, one with the tag in its value and one with nothing in it. -/
def spelledTwice : List (Spelling × List Char) :=
  [(⟨[' '], ['\n'], "\x7b $n:if\n  = 1 \x7d".toList, List.all_eq_true.mp rfl,
      List.all_eq_true.mp rfl, by decide⟩, [' ']),
    (⟨[], [], "\x7b \x7d".toList, List.forall_mem_nil _, List.forall_mem_nil _, by decide⟩,
      ">n".toList)]

theorem normalizeTag_spelledTwice : normalizeTag "n:if".toList
    "<p n:if =\n\"\x7b $n:if\n  = 1 \x7d\" n:if=\"\x7b \x7d\">n".toList =
      "<p n:if=\"$n:if = 1\" >n".toList := by
  have name : ∀ c ∈ "n:if".toList, isSeparator c = false := by
    have passes : ("n:if".toList.all fun c => !isSeparator c) = true := by decide
    simpa using passes
  have separated : Separated "n:if".toList "<p ".toList spelledTwice := by
    refine ⟨by decide, by decide, ?_⟩
    intro text member last ends
    rcases List.mem_pair.mp member with rfl | rfl
    · cases ends
      decide
    · cases ends
      decide
  exact (normalizeTag_separated (by decide) name).1 "<p ".toList spelledTwice separated

end Templating.Source
