import Mathlib.Data.List.Chain
import Mathlib.Data.List.DropRight
import Mathlib.Data.List.TakeWhile
import Templating.Text.Blank

/-!
# Solid characters

What is left of a text without its blanks. A step that only rewrites blanks keeps it. Collapsing
blanks is such a step, and a text in which they have been collapsed is not changed by it again.
Trimming takes blanks, or what else a test names, from the ends of a text.
-/

namespace Templating.Text

/-- The characters that are not blank, in order. -/
def solid (text : List Char) : List Char :=
  text.filter fun c => !isBlank c

theorem solid_cons_of_blank {c : Char} (blank : isBlank c = true) (rest : List Char) :
    solid (c :: rest) = solid rest := by
  simp [solid, blank]

/-- A text is blank when nothing solid is in it. -/
theorem allBlank_iff (text : List Char) : allBlank text = true ↔ solid text = [] := by
  simp [allBlank, solid]

/-- Collapsing blanks keeps what is solid. -/
theorem solid_collapseAfter (afterBlank : Bool) (text : List Char) :
    solid (collapseAfter afterBlank text) = solid text := by
  induction text generalizing afterBlank with
  | nil => rfl
  | cons c rest ih =>
    rw [collapseAfter]
    split
    · rename_i blank
      rw [solid_cons_of_blank blank]
      split
      · exact ih true
      · rw [solid_cons_of_blank (by decide), ih true]
    · rename_i dense
      rw [solid, solid, List.filter_cons_of_pos (by simp [dense]),
        List.filter_cons_of_pos (by simp [dense])]
      exact congrArg (c :: ·) (ih false)

/-- Collapsing blanks a second time changes nothing. -/
theorem collapseAfter_collapseAfter (afterBlank : Bool) (text : List Char) :
    collapseAfter afterBlank (collapseAfter afterBlank text) = collapseAfter afterBlank text := by
  induction text generalizing afterBlank with
  | nil => rfl
  | cons c rest ih =>
    cases blank : isBlank c with
    | true =>
      cases afterBlank with
      | true =>
        rw [collapseAfter, if_pos blank, if_pos rfl]
        exact ih true
      | false =>
        rw [collapseAfter, if_pos blank, if_neg Bool.false_ne_true]
        exact congrArg (' ' :: ·) (ih true)
    | false =>
      have dense : ¬ isBlank c = true := Bool.eq_false_iff.mp blank
      rw [collapseAfter, if_neg dense, collapseAfter, if_neg dense, ih false]

/-- What is blank collapses to a space, or to nothing behind one. -/
theorem collapseAfter_of_allBlank {text : List Char} (blank : ∀ c ∈ text, isBlank c = true) :
    collapseAfter true text = [] ∧ (collapseAfter false text = [] ∨
      collapseAfter false text = [' ']) := by
  induction text with
  | nil => exact ⟨rfl, .inl rfl⟩
  | cons c rest ih =>
    have first := blank c List.mem_cons_self
    have none := (ih fun d member => blank d (List.mem_cons_of_mem _ member)).1
    rw [collapseAfter, collapseAfter, if_pos first, if_pos first, if_pos rfl,
      if_neg Bool.false_ne_true, none]
    exact ⟨rfl, .inr rfl⟩

/-- No two neighbours are spaces, and a text that goes on behind a blank does not begin with one. -/
theorem isChain_collapseAfter (afterBlank : Bool) (text : List Char) :
    (collapseAfter afterBlank text).IsChain (fun left right => ¬ (left = ' ' ∧ right = ' ')) ∧
      (afterBlank = true → (collapseAfter afterBlank text).head? ≠ some ' ') := by
  induction text generalizing afterBlank with
  | nil => exact ⟨.nil, fun _ => Option.some_ne_none ' ' |>.symm⟩
  | cons c rest ih =>
    rw [collapseAfter]
    split
    · cases afterBlank with
      | true => exact ih true
      | false =>
        obtain ⟨chain, begins⟩ := ih true
        refine ⟨List.isChain_cons.mpr ⟨?_, chain⟩, fun behind => absurd behind Bool.false_ne_true⟩
        rintro d member ⟨-, rfl⟩
        exact begins rfl member
    · rename_i dense
      have noSpace : c ≠ ' ' := by
        rintro rfl
        exact dense (by decide)
      refine ⟨List.isChain_cons.mpr ⟨fun _ _ both => noSpace both.1, (ih false).1⟩,
        fun _ begins => ?_⟩
      exact noSpace (Option.some.inj begins)

theorem not_infix_collapseBlanks (text : List Char) : ¬ [' ', ' '] <:+: collapseBlanks text := by
  intro inside
  have chain := List.IsChain.infix (isChain_collapseAfter false text).1 inside
  exact (List.isChain_cons_cons.mp chain).1 ⟨rfl, rfl⟩

/-! ## Trimming -/

theorem dropTail_eq_rdropWhile (p : Char → Bool) (text : List Char) :
    dropTail p text = text.rdropWhile p := rfl

/-- What is dropped at the end satisfies the test, and what is left does not end in it. -/
theorem dropTail_eq (p : Char → Bool) (text : List Char) :
    ∃ back, text = dropTail p text ++ back ∧ (∀ c ∈ back, p c = true) ∧
      ∀ c ∈ (dropTail p text).getLast?, p c = false := by
  rw [dropTail_eq_rdropWhile]
  refine ⟨text.rtakeWhile p, List.rdropWhile_append_rtakeWhile.symm,
    fun c => List.mem_rtakeWhile_imp, fun c last => ?_⟩
  obtain ⟨filled, rfl⟩ := List.mem_getLast?_eq_getLast last
  exact Bool.eq_false_iff.mpr (List.rdropWhile_last_not p text filled)

/-- What is left of the text without all the characters at its ends that satisfy the test. -/
structure IsTrimmed (p : Char → Bool) (text core : List Char) : Prop where
  around : ∃ front back, text = front ++ (core ++ back) ∧
    (∀ c ∈ front, p c = true) ∧ ∀ c ∈ back, p c = true
  begins : ∀ c ∈ core.head?, p c = false
  ends : ∀ c ∈ core.getLast?, p c = false

theorem isTrimmed_trimBy (p : Char → Bool) (text : List Char) :
    IsTrimmed p text (trimBy p text) := by
  obtain ⟨back, split, passes, ends⟩ := dropTail_eq p (text.dropWhile p)
  refine ⟨⟨text.takeWhile p, back, ?_, ?_, passes⟩, fun c first => ?_, ends⟩
  · rw [trimBy, ← split, List.takeWhile_append_dropWhile]
  · exact fun _ => List.mem_takeWhile_imp
  · have first : (text.dropWhile p).head? = some c := by
      rw [split, List.head?_append]
      exact Option.or_eq_some_iff.mpr (.inl first)
    have stop := List.head?_dropWhile_not p text
    rw [first] at stop
    simpa using stop

end Templating.Text
