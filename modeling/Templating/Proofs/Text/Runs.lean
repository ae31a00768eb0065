import Mathlib.Data.List.SplitBy
import Templating.Proofs.Text.Blank

/-!
# Runs of blanks

Collapsing writes a space for each maximal run of blanks and nothing else. What it makes of a text
can be told piece by piece where no run goes over from one piece to the next.

* `collapseBlanks_eq_spaceRuns`: collapsing by the maximal runs of the text.
* `collapseAfter_append_of_begins`, `collapseAfter_append_of_ends`: collapsing piece by piece.
* `dropWhile_isBlank_collapseAfter`: collapsing what is left behind a run of blanks.
* `eq_of_length_collapseBlanks`: the beginnings of a text that end in no blank are told apart by how
  long they are when they are collapsed.
-/

namespace Templating.Text

variable {c : Char} {front back : List Char}

/-! ## Maximal runs -/

/-- Whether the characters are both blank or both not. -/
def blankAlike (left right : Char) : Bool :=
  isBlank left == isBlank right

/-- Writes each maximal run of blanks of a text as one space. -/
def spaceRuns (text : List Char) : List Char :=
  (text.splitBy blankAlike).flatMap fun run => if allBlank run then [' '] else run

theorem collapseAfter_cons_of_blank (blank : isBlank c = true) (afterBlank : Bool)
    (rest : List Char) : collapseAfter afterBlank (c :: rest) =
      if afterBlank then collapseAfter true rest else ' ' :: collapseAfter true rest := by
  rw [collapseAfter, if_pos blank]

theorem collapseAfter_cons_of_dense (dense : isBlank c = false) (afterBlank : Bool)
    (rest : List Char) : collapseAfter afterBlank (c :: rest) = c :: collapseAfter false rest := by
  rw [collapseAfter, if_neg (Bool.eq_false_iff.mp dense)]

/-- Text without blanks is kept. -/
theorem collapseAfter_dense_append (dense : ∀ c ∈ front, isBlank c = false) (some : front ≠ [])
    (afterBlank : Bool) (back : List Char) :
    collapseAfter afterBlank (front ++ back) = front ++ collapseAfter false back := by
  induction front generalizing afterBlank with
  | nil => exact absurd rfl some
  | cons c front ih =>
    rw [List.cons_append, collapseAfter_cons_of_dense (dense c List.mem_cons_self)]
    cases front with
    | nil => rfl
    | cons d front =>
      rw [ih (fun e member => dense e (List.mem_cons_of_mem c member)) (List.cons_ne_nil d front)]
      rfl

theorem collapseBlanks_dense_append (dense : ∀ c ∈ front, isBlank c = false) (back : List Char) :
    collapseBlanks (front ++ back) = front ++ collapseBlanks back := by
  by_cases some : front = []
  · rw [some]
    rfl
  · exact collapseAfter_dense_append dense some false back

theorem collapseBlanks_of_dense (dense : ∀ c ∈ front, isBlank c = false) :
    collapseBlanks front = front := by
  have nothing : collapseBlanks [] = [] := rfl
  have kept := collapseBlanks_dense_append dense []
  rwa [nothing, List.append_nil] at kept

/-- A run of blanks is a space, or nothing behind one. -/
theorem collapseAfter_blank_append (blank : ∀ c ∈ front, isBlank c = true) (some : front ≠ [])
    (afterBlank : Bool) (back : List Char) : collapseAfter afterBlank (front ++ back) =
      if afterBlank then collapseAfter true back else ' ' :: collapseAfter true back := by
  induction front generalizing afterBlank with
  | nil => exact absurd rfl some
  | cons c front ih =>
    rw [List.cons_append, collapseAfter_cons_of_blank (blank c List.mem_cons_self)]
    cases front with
    | nil => rfl
    | cons d front =>
      rw [ih (fun e member => blank e (List.mem_cons_of_mem c member)) (List.cons_ne_nil d front)]
      rfl

/-- A run that does not change between blanks and others is one of blanks or one of others. -/
theorem isBlank_eq_of_isChain {run : List Char}
    (uniform : run.IsChain fun left right => blankAlike left right = true)
    (begins : run.head? = some c) : ∀ d ∈ run, isBlank d = isBlank c := by
  induction run generalizing c with
  | nil => cases begins
  | cons first run ih =>
    obtain rfl := Option.some.inj begins
    intro d member
    rcases List.mem_cons.mp member with rfl | member
    · rfl
    · cases run with
      | nil => cases member
      | cons second run =>
        obtain ⟨same, uniform⟩ := List.isChain_cons_cons.mp uniform
        rw [ih uniform rfl d member, eq_of_beq same]

/-- Collapsing the text that is made of some runs, no two neighbours of which are alike. -/
theorem collapseAfter_flatten {runs : List (List Char)} (filled : [] ∉ runs)
    (uniform : ∀ run ∈ runs, run.IsChain fun left right => blankAlike left right = true)
    (apart : runs.IsChain fun left right =>
      ∃ some some', blankAlike (left.getLast some) (right.head some') = false)
    (afterBlank : Bool)
    (begins : afterBlank = true → ∀ run ∈ runs.head?, ∀ c ∈ run.head?, isBlank c = false) :
    collapseAfter afterBlank runs.flatten =
      runs.flatMap fun run => if allBlank run then [' '] else run := by
  induction runs generalizing afterBlank with
  | nil => rfl
  | cons run runs ih =>
    obtain ⟨differ, apart⟩ := List.isChain_cons.mp apart
    have rest := ih (fun member => filled (List.mem_cons_of_mem run member))
      (fun other member => uniform other (List.mem_cons_of_mem run member)) apart
    cases run with
    | nil => exact absurd List.mem_cons_self filled
    | cons c more =>
      have alike := isBlank_eq_of_isChain (uniform _ List.mem_cons_self) rfl
      rw [List.flatten_cons, List.flatMap_cons]
      cases blank : isBlank c with
      | false =>
        have mixed : allBlank (c :: more) = false := by simp [allBlank, blank]
        rw [collapseAfter_dense_append (fun d member => (alike d member).trans blank)
          (List.cons_ne_nil c more), rest false (by simp), mixed]
        rfl
      | true =>
        have all : allBlank (c :: more) = true :=
          List.all_eq_true.mpr fun d member => (alike d member).trans blank
        have fresh : afterBlank = false := by
          cases afterBlank with
          | false => rfl
          | true => exact absurd (begins rfl _ rfl c rfl) (by simp [blank])
        have behind : ∀ run ∈ runs.head?, ∀ d ∈ run.head?, isBlank d = false := by
          intro next isNext d isFirst
          obtain ⟨_, full, apart⟩ := differ next isNext
          have last := (alike _ (List.getLast_mem (List.cons_ne_nil c more))).trans blank
          rw [List.head?_eq_some_head full] at isFirst
          obtain rfl := Option.some.inj isFirst
          simpa [blankAlike, last] using apart
        rw [collapseAfter_blank_append (fun d member => (alike d member).trans blank)
          (List.cons_ne_nil c more), fresh, rest true fun _ => behind, all]
        rfl

/-- **Collapsing by runs**: a space is written for each maximal run of blanks. -/
theorem collapseBlanks_eq_spaceRuns (text : List Char) : collapseBlanks text = spaceRuns text := by
  have parts := collapseAfter_flatten (List.nil_notMem_splitBy _ text)
    (fun _ member => List.isChain_of_mem_splitBy member)
    (List.isChain_getLast_head_splitBy blankAlike text) false
    (fun behind => absurd behind Bool.false_ne_true)
  rwa [List.flatten_splitBy] at parts

/-! ## Pieces of a text -/

/-- What begins with no blank is collapsed in the same way wherever it stands. -/
theorem collapseAfter_of_begins {text : List Char} (begins : ∀ c ∈ text.head?, isBlank c = false)
    (afterBlank : Bool) : collapseAfter afterBlank text = collapseAfter false text := by
  cases text with
  | nil => rfl
  | cons c rest =>
    have dense := begins c rfl
    rw [collapseAfter_cons_of_dense dense, collapseAfter_cons_of_dense dense]

/-- No run goes over to a piece that begins with no blank. -/
theorem collapseAfter_append_of_begins (begins : ∀ c ∈ back.head?, isBlank c = false)
    (afterBlank : Bool) (front : List Char) : collapseAfter afterBlank (front ++ back) =
      collapseAfter afterBlank front ++ collapseAfter false back := by
  induction front generalizing afterBlank with
  | nil => exact collapseAfter_of_begins begins afterBlank
  | cons c front ih =>
    rw [List.cons_append]
    cases blank : isBlank c with
    | true =>
      rw [collapseAfter_cons_of_blank blank, collapseAfter_cons_of_blank blank, ih]
      split <;> rfl
    | false =>
      rw [collapseAfter_cons_of_dense blank, collapseAfter_cons_of_dense blank, ih,
        List.cons_append]

/-- No run goes on behind a piece that ends in no blank. -/
theorem collapseAfter_append_of_ends (ends : front.getLast? = some c) (dense : isBlank c = false)
    (afterBlank : Bool) (back : List Char) : collapseAfter afterBlank (front ++ back) =
      collapseAfter afterBlank front ++ collapseAfter false back := by
  obtain ⟨front, rfl⟩ := List.getLast?_eq_some_iff.mp ends
  have first (rest : List Char) : ∀ d ∈ (c :: rest).head?, isBlank d = false := by
    intro d isFirst
    rwa [← Option.some.inj isFirst]
  rw [List.append_assoc, List.singleton_append, collapseAfter_append_of_begins (first back),
    collapseAfter_append_of_begins (first []), collapseAfter_cons_of_dense dense,
    collapseAfter_cons_of_dense dense, List.append_assoc]
  rfl

/-- What does not begin the text does not begin it when it is collapsed, unless it is a space. -/
theorem head?_collapseBlanks_ne (noSpace : c ≠ ' ') {text : List Char}
    (other : text.head? ≠ some c) : (collapseBlanks text).head? ≠ some c := by
  cases text with
  | nil => exact other
  | cons d rest =>
    rw [collapseBlanks]
    cases blank : isBlank d with
    | true =>
      rw [collapseAfter_cons_of_blank blank, if_neg Bool.false_ne_true]
      exact fun same => noSpace (Option.some.inj same).symm
    | false =>
      rw [collapseAfter_cons_of_dense blank]
      exact other

/-- Blanks that have been collapsed can be collapsed behind a blank as well. -/
theorem collapseAfter_collapseBlanks (afterBlank : Bool) (text : List Char) :
    collapseAfter afterBlank (collapseBlanks text) = collapseAfter afterBlank text := by
  cases text with
  | nil => rfl
  | cons c rest =>
    rw [collapseBlanks]
    cases blank : isBlank c with
    | true =>
      rw [collapseAfter_cons_of_blank blank, collapseAfter_cons_of_blank blank,
        if_neg Bool.false_ne_true, collapseAfter_cons_of_blank (by decide),
        collapseAfter_collapseAfter]
    | false =>
      rw [collapseAfter_cons_of_dense blank, collapseAfter_cons_of_dense blank,
        collapseAfter_cons_of_dense blank, collapseAfter_collapseAfter]

theorem eq_nil_of_collapseBlanks {text : List Char} (nothing : collapseBlanks text = []) :
    text = [] := by
  cases text with
  | nil => rfl
  | cons c rest =>
    cases blank : isBlank c with
    | true =>
      rw [collapseBlanks, collapseAfter_cons_of_blank blank] at nothing
      cases nothing
    | false =>
      rw [collapseBlanks, collapseAfter_cons_of_dense blank] at nothing
      cases nothing

/-- **Beginnings of a text** that end in no blank are the same when they are as long as each other
when they are collapsed. -/
theorem eq_of_length_collapseBlanks {front' back' : List Char} {last last' : Char}
    (same : front ++ back = front' ++ back') (ends : front.getLast? = some last)
    (dense : isBlank last = false) (ends' : front'.getLast? = some last')
    (dense' : isBlank last' = false)
    (lengths : (collapseBlanks front).length = (collapseBlanks front').length) :
    front = front' := by
  have nothing {beginning ending : List Char} {last : Char} (ends : beginning.getLast? = some last)
      (dense : isBlank last = false) (lengths : (collapseBlanks beginning).length =
        (collapseBlanks (beginning ++ ending)).length) : ending = [] := by
    refine eq_nil_of_collapseBlanks (List.eq_nil_of_length_eq_zero ?_)
    rw [collapseBlanks, collapseBlanks, collapseAfter_append_of_ends ends dense,
      List.length_append] at lengths
    rw [collapseBlanks]
    omega
  rcases List.append_eq_append_iff.mp same with ⟨middle, rfl, -⟩ | ⟨middle, rfl, -⟩
  · rw [nothing ends dense lengths, List.append_nil]
  · rw [nothing ends' dense' lengths.symm, List.append_nil]

/-! ## Blanks in front -/

theorem takeWhile_isBlank_collapseAfter (afterBlank : Bool) (text : List Char) :
    (collapseAfter afterBlank text).takeWhile isBlank =
      collapseAfter afterBlank (text.takeWhile isBlank) := by
  induction text generalizing afterBlank with
  | nil => rfl
  | cons c rest ih =>
    have space : isBlank ' ' = true := by decide
    cases blank : isBlank c with
    | true =>
      rw [collapseAfter_cons_of_blank blank, List.takeWhile_cons_of_pos blank,
        collapseAfter_cons_of_blank blank]
      split
      · exact ih true
      · rw [List.takeWhile_cons_of_pos space, ih]
    | false =>
      have dense := Bool.eq_false_iff.mp blank
      rw [collapseAfter_cons_of_dense blank, List.takeWhile_cons_of_neg dense,
        List.takeWhile_cons_of_neg dense, collapseAfter_nil]

theorem dropWhile_isBlank_collapseAfter (afterBlank : Bool) (text : List Char) :
    (collapseAfter afterBlank text).dropWhile isBlank =
      collapseBlanks (text.dropWhile isBlank) := by
  induction text generalizing afterBlank with
  | nil => rfl
  | cons c rest ih =>
    have space : isBlank ' ' = true := by decide
    cases blank : isBlank c with
    | true =>
      rw [collapseAfter_cons_of_blank blank, List.dropWhile_cons_of_pos blank]
      split
      · exact ih true
      · rw [List.dropWhile_cons_of_pos space, ih]
    | false =>
      have dense := Bool.eq_false_iff.mp blank
      rw [collapseAfter_cons_of_dense blank, List.dropWhile_cons_of_neg dense,
        List.dropWhile_cons_of_neg dense, collapseBlanks, collapseAfter_cons_of_dense blank]

end Templating.Text
