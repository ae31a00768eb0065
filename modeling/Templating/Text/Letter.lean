/-!
# Letters without regard to case

Markup names and markers are compared without regard to the case of the ASCII letters; all
other characters must agree exactly. `lowerLetters` is the common form that decides it.
-/

namespace Templating.Text

/-- Writes the ASCII letters `A` to `Z` in lower case and keeps all else. -/
def lowerLetters (text : List Char) : List Char :=
  text.map Char.toLower

/-- Whether two names agree up to the case of their ASCII letters. -/
def sameName (left right : String) : Bool :=
  lowerLetters left.toList == lowerLetters right.toList

/-- Whether `text` starts with `pattern` up to the case of the ASCII letters. -/
def startsWithName (pattern text : List Char) : Bool :=
  lowerLetters (text.take pattern.length) == lowerLetters pattern

/-! ## First facts -/

@[simp] theorem length_lowerLetters (text : List Char) :
    (lowerLetters text).length = text.length := by
  simp [lowerLetters]

theorem sameName_refl (name : String) : sameName name name = true := by
  simp [sameName]

theorem sameName_comm (left right : String) : sameName left right = sameName right left := by
  simp only [sameName]
  exact Bool.beq_comm

theorem sameName_trans {left middle right : String} (first : sameName left middle = true)
    (second : sameName middle right = true) : sameName left right = true := by
  simp only [sameName, beq_iff_eq] at *
  exact first.trans second

end Templating.Text
