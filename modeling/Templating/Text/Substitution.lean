/-!
# Leftmost substitution

A rule looks at the text from one place on. `substitute` runs through a text from left to right:
where the rule finds something, the found characters are replaced and the run goes on behind
them, so what is found never overlaps; every other character is kept. A rule always takes the
character that it stands on, hence a run is a plain recursion on the text.

`found` lists what a rule finds in the same order. `replaceAll` and `containsText` are the two
uses with a fixed text to look for.
-/

namespace Templating.Text

/-- What a rule finds at one place: it takes the character there and `extra` more, and writes
`text` for them. -/
structure Found where
  extra : Nat
  text : List Char
  deriving DecidableEq, Repr

/-- A rule sees the text from one place to the end. -/
abbrev Rule := List Char → Option Found

/-- Substitutes in the text behind its first `skip` characters, which a find has already taken. -/
def substituteFrom (rule : Rule) : Nat → List Char → List Char
  | _, [] => []
  | skip + 1, _ :: rest => substituteFrom rule skip rest
  | 0, c :: rest =>
    match rule (c :: rest) with
    | some found => found.text ++ substituteFrom rule found.extra rest
    | none => c :: substituteFrom rule 0 rest

/-- Replaces everything that the rule finds, from left to right and without overlap. -/
def substitute (rule : Rule) (text : List Char) : List Char :=
  substituteFrom rule 0 text

/-- The pieces that the rule finds behind the first `skip` characters. -/
def foundFrom (rule : Rule) : Nat → List Char → List (List Char)
  | _, [] => []
  | skip + 1, _ :: rest => foundFrom rule skip rest
  | 0, c :: rest =>
    match rule (c :: rest) with
    | some found => (c :: rest.take found.extra) :: foundFrom rule found.extra rest
    | none => foundFrom rule 0 rest

/-- The pieces of the text that the rule finds, as they are written in it. -/
def found (rule : Rule) (text : List Char) : List (List Char) :=
  foundFrom rule 0 text

/-! ## Fixed texts -/

/-- Finds `needle`, which has to be non-empty, and writes `replacement` for it. -/
def literalRule (needle replacement : List Char) : Rule := fun text =>
  if needle.isPrefixOf text then some ⟨needle.length - 1, replacement⟩ else none

/-- Replaces every `needle` from left to right without overlap. The empty needle stands before
every character and at the end of the text. -/
def replaceAll (needle replacement text : List Char) : List Char :=
  if needle.isEmpty then
    replacement ++ text.flatMap fun c => c :: replacement
  else
    substitute (literalRule needle replacement) text

/-- Whether `needle` stands somewhere in the text; the empty one always does. -/
def containsText (needle : List Char) : List Char → Bool
  | [] => needle.isEmpty
  | c :: rest => needle.isPrefixOf (c :: rest) || containsText needle rest

/-! ## First facts -/

@[simp] theorem substituteFrom_nil (rule : Rule) (skip : Nat) :
    substituteFrom rule skip [] = [] := by
  cases skip <;> rfl

/-- A run that skips characters is a run on what is left of the text behind them. -/
theorem substituteFrom_eq_drop (rule : Rule) (skip : Nat) (text : List Char) :
    substituteFrom rule skip text = substitute rule (text.drop skip) := by
  induction skip generalizing text with
  | zero => rfl
  | succ skip ih =>
    cases text with
    | nil => rfl
    | cons c rest => simpa [substituteFrom] using ih rest

@[simp] theorem substitute_nil (rule : Rule) : substitute rule [] = [] := rfl

theorem substitute_cons_of_none {rule : Rule} {c : Char} {rest : List Char}
    (nothing : rule (c :: rest) = none) :
    substitute rule (c :: rest) = c :: substitute rule rest := by
  simp [substitute, substituteFrom, nothing]

theorem substitute_cons_of_some {rule : Rule} {c : Char} {rest : List Char} {found : Found}
    (something : rule (c :: rest) = some found) :
    substitute rule (c :: rest) = found.text ++ substitute rule (rest.drop found.extra) := by
  simp only [substitute, substituteFrom, something]
  rw [substituteFrom_eq_drop]
  rfl

/-- A text in which the rule finds nothing is kept. -/
theorem substitute_eq_self {rule : Rule} {text : List Char}
    (nothing : ∀ tail, tail <:+ text → rule tail = none) : substitute rule text = text := by
  induction text with
  | nil => rfl
  | cons c rest ih =>
    rw [substitute_cons_of_none (nothing _ (List.suffix_refl _))]
    exact congrArg _ (ih fun tail later => nothing tail (later.trans (List.suffix_cons c rest)))

end Templating.Text
