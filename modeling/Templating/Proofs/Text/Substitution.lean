import Templating.Text.Letter
import Templating.Text.Substitution

/-!
# Names in a substituted text

A substitution can put a name into a text that did not hold it, because what it writes may complete
what stands around it. `startsWithName_of_substitute` and `startsWithName_of_cons_substitute` say
when it cannot: the first characters that the rule writes must not occur in the name.

`substitute_induction` is induction along the run of a substitution, with one case for a kept
character and one for a find.
-/

namespace Templating.Text

/-! ## Names, character by character -/

@[simp] theorem startsWithName_nil (text : List Char) : startsWithName [] text = true := by
  simp [startsWithName, lowerLetters]

@[simp] theorem startsWithName_cons_nil (p : Char) (pattern : List Char) :
    startsWithName (p :: pattern) [] = false := by
  simp [startsWithName, lowerLetters]

@[simp] theorem startsWithName_cons_cons (p c : Char) (pattern rest : List Char) :
    startsWithName (p :: pattern) (c :: rest) =
      (c.toLower == p.toLower && startsWithName pattern rest) := by
  simp [startsWithName, lowerLetters]

/-- A text that starts with a name starts with each beginning of the name. -/
theorem startsWithName_of_append {first second text : List Char}
    (starts : startsWithName (first ++ second) text = true) :
    startsWithName first text = true := by
  induction first generalizing text with
  | nil => exact startsWithName_nil text
  | cons p first ih =>
    cases text with
    | nil => simp at starts
    | cons c rest =>
      simp only [List.cons_append, startsWithName_cons_cons, Bool.and_eq_true] at starts ⊢
      exact ⟨starts.1, ih starts.2⟩

/-- A name is found where it is written as it stands. -/
theorem startsWithName_append (pattern rest : List Char) :
    startsWithName pattern (pattern ++ rest) = true := by
  induction pattern with
  | nil => exact startsWithName_nil rest
  | cons p pattern ih => simpa using ih

/-- The characters that make up a found name are those of the name, up to their case. -/
theorem toLower_mem_of_startsWithName {pattern text : List Char} {c : Char}
    (starts : startsWithName pattern text = true) (member : c ∈ text.take pattern.length) :
    c.toLower ∈ lowerLetters pattern := by
  have same : lowerLetters (text.take pattern.length) = lowerLetters pattern := by
    simpa [startsWithName] using starts
  rw [← same]
  exact List.mem_map_of_mem member

/-- A found name is as long as the name. -/
theorem length_le_of_startsWithName {pattern text : List Char}
    (starts : startsWithName pattern text = true) : pattern.length ≤ text.length := by
  have same : lowerLetters (text.take pattern.length) = lowerLetters pattern := by
    simpa [startsWithName] using starts
  have lengths := congrArg List.length same
  simp only [length_lowerLetters, List.length_take] at lengths
  omega

/-- A character that lower-casing gives and that is no lower-case letter was there before. -/
theorem eq_of_toLower_eq {c d : Char} (lower : c.toLower = d) (other : d.isLower = false) :
    c = d := by
  unfold Char.toLower at lower
  split at lower
  · rename_i upper
    have bounds : 65 ≤ c.val.toNat ∧ c.val.toNat ≤ 90 :=
      ⟨UInt32.le_iff_toNat_le.mp upper.1, UInt32.le_iff_toNat_le.mp upper.2⟩
    have range : 'a'.val ≤ d.val ∧ d.val ≤ 'z'.val := by
      subst lower
      simp only [UInt32.le_iff_toNat_le, UInt32.toNat_add]
      have : 'a'.val.toNat = 97 := rfl
      have : 'z'.val.toNat = 122 := rfl
      have : ('a'.val - 'A'.val).toNat = 32 := rfl
      omega
    have letter : d.isLower = true :=
      Bool.and_eq_true_iff.mpr ⟨decide_eq_true range.1, decide_eq_true range.2⟩
    rw [other] at letter
    cases letter
  · exact lower

/-! ## Runs of a substitution -/

/-- Induction along a substitution: past a kept character, or past what a find takes. -/
theorem substitute_induction {motive : List Char → Prop} (rule : Rule) (nil : motive [])
    (kept : ∀ c rest, rule (c :: rest) = none → motive rest → motive (c :: rest))
    (taken : ∀ c rest found, rule (c :: rest) = some found → motive (rest.drop found.extra) →
      motive (c :: rest))
    (text : List Char) : motive text := by
  match text with
  | [] => exact nil
  | c :: rest =>
    cases outcome : rule (c :: rest) with
    | none => exact kept c rest outcome (substitute_induction rule nil kept taken rest)
    | some found =>
      exact taken c rest found outcome
        (substitute_induction rule nil kept taken (rest.drop found.extra))
  termination_by text.length
  decreasing_by all_goals simp only [List.length_cons, List.length_drop]; omega

/-- A search that skips characters is a search in what is left of the text behind them. -/
theorem foundFrom_eq_drop (rule : Rule) (skip : Nat) (text : List Char) :
    foundFrom rule skip text = found rule (text.drop skip) := by
  induction skip generalizing text with
  | zero => rfl
  | succ skip ih =>
    cases text with
    | nil => rfl
    | cons c rest => exact ih rest

theorem found_cons_of_none {rule : Rule} {c : Char} {rest : List Char}
    (nothing : rule (c :: rest) = none) : found rule (c :: rest) = found rule rest := by
  simp [found, foundFrom, nothing]

theorem found_cons_of_some {rule : Rule} {c : Char} {rest : List Char} {piece : Found}
    (something : rule (c :: rest) = some piece) :
    found rule (c :: rest) =
      (c :: rest.take piece.extra) :: found rule (rest.drop piece.extra) := by
  simp only [found, foundFrom, something]
  rw [foundFrom_eq_drop]
  rfl

/-! ## Names that a substitution cannot complete -/

/-- Whatever the rule writes begins with two characters that do not occur in the name. -/
def Rule.ForeignTo (rule : Rule) (name : List Char) : Prop :=
  ∀ text found, rule text = some found → ∃ first second more,
    found.text = first :: second :: more ∧
      first.toLower ∉ lowerLetters name ∧ second.toLower ∉ lowerLetters name

/-- A name at the start of a substituted text was there before. -/
theorem startsWithName_of_substitute {rule : Rule} {name text : List Char}
    (foreign : rule.ForeignTo name) (starts : startsWithName name (substitute rule text) = true) :
    startsWithName name text = true := by
  -- `tail` is what is left of the name; all of the name stays foreign to the rule.
  suffices general : ∀ tail, tail <:+ name → ∀ text,
      startsWithName tail (substitute rule text) = true → startsWithName tail text = true from
    general name (List.suffix_refl name) text starts
  intro tail part
  induction tail with
  | nil => intro text _; exact startsWithName_nil text
  | cons p tail ih =>
    intro text starts
    have inName : p.toLower ∈ lowerLetters name :=
      List.mem_map_of_mem (part.subset List.mem_cons_self)
    cases text with
    | nil => exact starts
    | cons c rest =>
      cases outcome : rule (c :: rest) with
      | none =>
        rw [substitute_cons_of_none outcome] at starts
        simp only [startsWithName_cons_cons, Bool.and_eq_true] at starts ⊢
        exact ⟨starts.1, ih ((List.suffix_cons p tail).trans part) rest starts.2⟩
      | some found =>
        obtain ⟨first, second, more, written, firstForeign, -⟩ := foreign _ found outcome
        rw [substitute_cons_of_some outcome, written] at starts
        simp only [List.cons_append, startsWithName_cons_cons, Bool.and_eq_true,
          beq_iff_eq] at starts
        exact absurd (starts.1 ▸ inName) firstForeign

/-- A name behind two lead characters, the first of which stands in front of a substituted text,
was there before. Here a find may write the second lead character, but not the name behind it. -/
theorem startsWithName_of_cons_substitute {rule : Rule} {p q r c : Char} {name rest : List Char}
    (foreign : rule.ForeignTo (r :: name))
    (starts : startsWithName (p :: q :: r :: name) (c :: substitute rule rest) = true) :
    startsWithName (p :: q :: r :: name) (c :: rest) = true := by
  rw [startsWithName_cons_cons, Bool.and_eq_true] at starts ⊢
  refine ⟨starts.1, ?_⟩
  replace starts := starts.2
  cases rest with
  | nil => exact starts
  | cons d rest =>
    cases outcome : rule (d :: rest) with
    | none =>
      rw [substitute_cons_of_none outcome] at starts
      rw [startsWithName_cons_cons, Bool.and_eq_true] at starts ⊢
      exact ⟨starts.1, startsWithName_of_substitute foreign starts.2⟩
    | some found =>
      obtain ⟨first, second, more, written, -, secondForeign⟩ := foreign _ found outcome
      rw [substitute_cons_of_some outcome, written] at starts
      simp only [List.cons_append, startsWithName_cons_cons, Bool.and_eq_true,
        beq_iff_eq] at starts
      exact absurd (starts.2.1 ▸ List.mem_map_of_mem List.mem_cons_self) secondForeign

end Templating.Text
