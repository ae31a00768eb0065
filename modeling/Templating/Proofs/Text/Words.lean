import Mathlib.Data.List.Induction
import Mathlib.Data.List.Nodup
import Templating.Proofs.Text.Blank

/-!
# Words

The words of a text are non-empty and have no blank in them, and a list of such words is read back
from the text in which a space stands between any two of them.

* `words_intercalate`: reading words back;
* `isWord_of_mem_words`: what is read is words;
* `firstAppearances_eraseDups`: words and other items, each once.
-/

namespace Templating.Text

/-- A text that is not empty and has no blank in it. -/
def IsWord (text : List Char) : Prop :=
  text ≠ [] ∧ ∀ c ∈ text, isBlank c = false

theorem wordsFrom_append {word : List Char} (dense : ∀ c ∈ word, isBlank c = false)
    (opened rest : List Char) :
    wordsFrom opened (word ++ rest) = wordsFrom (word.reverse ++ opened) rest := by
  induction word generalizing opened with
  | nil => rfl
  | cons c more ih =>
    have first := dense c List.mem_cons_self
    rw [List.cons_append, wordsFrom, if_neg (Bool.eq_false_iff.mp first),
      ih (fun d member => dense d (List.mem_cons_of_mem _ member)), List.reverse_cons,
      List.append_assoc]
    rfl

theorem words_word {word : List Char} (isWord : IsWord word) : words word = [word] := by
  have read := wordsFrom_append isWord.2 [] []
  rw [List.append_nil, List.append_nil] at read
  rw [words, read, wordsFrom, List.reverse_reverse, if_neg]
  simpa using isWord.1

theorem words_word_append {word : List Char} (isWord : IsWord word) (rest : List Char) :
    words (word ++ ' ' :: rest) = word :: words rest := by
  have space : isBlank ' ' = true := by decide
  rw [words, wordsFrom_append isWord.2, List.append_nil, wordsFrom, if_pos space, if_neg,
    List.reverse_reverse]
  · rfl
  · simpa using isWord.1

/-- **Reading words back** from the text in which they stand with a space between them. -/
theorem words_intercalate {parts : List (List Char)} (isWord : ∀ part ∈ parts, IsWord part) :
    words ([' '].intercalate parts) = parts := by
  induction parts with
  | nil => rfl
  | cons first rest ih =>
    have word := isWord first List.mem_cons_self
    cases rest with
    | nil =>
      rw [List.intercalate_singleton]
      exact words_word word
    | cons second more =>
      rw [List.intercalate_cons_cons, List.append_assoc, List.singleton_append,
        words_word_append word, ih fun part member => isWord part (List.mem_cons_of_mem _ member)]

theorem isWord_reverse {opened : List Char} (some : ¬ opened.isEmpty = true)
    (dense : ∀ c ∈ opened, isBlank c = false) : IsWord opened.reverse := by
  refine ⟨?_, fun c member => dense c (List.mem_reverse.mp member)⟩
  simpa using some

/-- What is read is words. -/
theorem isWord_of_mem_wordsFrom {opened text part : List Char}
    (dense : ∀ c ∈ opened, isBlank c = false) (member : part ∈ wordsFrom opened text) :
    IsWord part := by
  have clear : ∀ c ∈ ([] : List Char), isBlank c = false := fun _ none =>
    (List.not_mem_nil none).elim
  induction text generalizing opened with
  | nil =>
    rw [wordsFrom] at member
    split at member
    · cases member
    · rename_i some
      exact List.mem_singleton.mp member ▸ isWord_reverse some dense
  | cons c rest ih =>
    rw [wordsFrom] at member
    split at member
    · split at member
      · exact ih clear member
      · rename_i some
        rcases List.mem_cons.mp member with rfl | member
        · exact isWord_reverse some dense
        · exact ih clear member
    · rename_i solid
      refine ih (fun d inOpened => ?_) member
      rcases List.mem_cons.mp inOpened with rfl | inOpened
      · exact Bool.eq_false_iff.mpr solid
      · exact dense d inOpened

theorem isWord_of_mem_words {text part : List Char} (member : part ∈ words text) : IsWord part :=
  isWord_of_mem_wordsFrom (fun _ none => (List.not_mem_nil none).elim) member

/-! ## First appearances -/

/-- The items are those of `all`, each once, in the order in which they first appear there. -/
structure FirstAppearances {α : Type} [DecidableEq α] (all items : List α) : Prop where
  mem_iff : ∀ item, item ∈ items ↔ item ∈ all
  ordered : items.Pairwise fun left right => all.idxOf left < all.idxOf right

section

variable {α : Type} [DecidableEq α] {all items : List α}

theorem FirstAppearances.nodup (appear : FirstAppearances all items) : items.Nodup :=
  appear.ordered.imp fun less same => absurd (same ▸ less) (Nat.lt_irrefl _)

/-- One more item is listed unless it is there already. -/
theorem eraseDups_concat (items : List α) (last : α) :
    (items ++ [last]).eraseDups = items.eraseDups ++ if last ∈ items then [] else [last] := by
  rw [List.eraseDups_append]
  by_cases known : last ∈ items <;> simp [List.removeAll, List.eraseDups_cons, known]

theorem eraseDups_of_nodup (nodup : items.Nodup) : items.eraseDups = items := by
  induction items using List.reverseRecOn with
  | nil => rfl
  | append_singleton items last ih =>
    obtain ⟨nodup, -, apart⟩ := List.nodup_append.mp nodup
    have new : last ∉ items := fun member => apart last member last List.mem_cons_self rfl
    rw [eraseDups_concat, ih nodup, if_neg new]

/-- An item that is there already is not added to items without repetitions. -/
theorem eraseDups_concat_of_mem {last : α} (nodup : items.Nodup) (member : last ∈ items) :
    (items ++ [last]).eraseDups = items := by
  rw [eraseDups_concat, eraseDups_of_nodup nodup, if_pos member, List.append_nil]

theorem firstAppearances_eraseDups (all : List α) : FirstAppearances all all.eraseDups := by
  refine ⟨fun _ => List.mem_eraseDups, ?_⟩
  induction all using List.reverseRecOn with
  | nil => exact .nil
  | append_singleton all last ih =>
    have front : all.eraseDups.Pairwise fun left right =>
        (all ++ [last]).idxOf left < (all ++ [last]).idxOf right := by
      refine ih.imp_of_mem fun {left right} member member' less => ?_
      rw [List.idxOf_append_of_mem (List.mem_eraseDups.mp member),
        List.idxOf_append_of_mem (List.mem_eraseDups.mp member')]
      exact less
    rw [eraseDups_concat]
    split
    · rwa [List.append_nil]
    · rename_i new
      refine List.pairwise_append.mpr ⟨front, List.pairwise_singleton _ _, ?_⟩
      rintro item member _ here
      obtain rfl := List.mem_singleton.mp here
      have known : item ∈ all := List.mem_eraseDups.mp member
      rw [List.idxOf_append_of_mem known, List.idxOf_append_of_notMem new]
      exact Nat.lt_of_lt_of_le (List.idxOf_lt_length_of_mem known) (Nat.le_add_right _ _)

theorem nodup_eraseDups (all : List α) : all.eraseDups.Nodup :=
  (firstAppearances_eraseDups all).nodup

end

end Templating.Text
