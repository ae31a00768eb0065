/-!
# Blank characters

The blank characters are those with the Unicode property `White_Space`. Everything that the
library does with blanks is here: trimming, splitting into words and collapsing runs.

`collapseBlanks` writes one plain space for each maximal run of blanks and keeps every other
character; `words` gives the maximal blank-free runs.
-/

namespace Templating.Text

/-- The characters with the Unicode property `White_Space`. -/
def isBlank (c : Char) : Bool :=
  let n := c.toNat
  (9 ≤ n && n ≤ 13) || n = 0x20 || n = 0x85 || n = 0xA0 || n = 0x1680 ||
    (0x2000 ≤ n && n ≤ 0x200A) || n = 0x2028 || n = 0x2029 || n = 0x202F || n = 0x205F ||
    n = 0x3000

/-- Whether every character is blank; true of the empty text. -/
def allBlank (text : List Char) : Bool :=
  text.all isBlank

/-! ## Trimming -/

/-- Drops the longest tail of characters that satisfy `p`. -/
def dropTail (p : Char → Bool) (text : List Char) : List Char :=
  (text.reverse.dropWhile p).reverse

/-- Drops the characters that satisfy `p` at both ends. -/
def trimBy (p : Char → Bool) (text : List Char) : List Char :=
  dropTail p (text.dropWhile p)

/-- Drops the blanks at both ends. -/
def trim (text : List Char) : List Char :=
  trimBy isBlank text

/-! ## Runs -/

/-- Writes one space for each run of blanks; `afterBlank` says that the run has been written. -/
def collapseAfter (afterBlank : Bool) : List Char → List Char
  | [] => []
  | c :: rest =>
    if isBlank c then
      if afterBlank then collapseAfter true rest else ' ' :: collapseAfter true rest
    else
      c :: collapseAfter false rest

/-- Writes one plain space for each maximal run of blanks. -/
def collapseBlanks (text : List Char) : List Char :=
  collapseAfter false text

/-- Splits into maximal blank-free runs, `opened` being the reversed run read so far. -/
def wordsFrom (opened : List Char) : List Char → List (List Char)
  | [] => if opened.isEmpty then [] else [opened.reverse]
  | c :: rest =>
    if isBlank c then
      if opened.isEmpty then wordsFrom [] rest else opened.reverse :: wordsFrom [] rest
    else
      wordsFrom (c :: opened) rest

/-- The maximal blank-free runs, in order. -/
def words (text : List Char) : List (List Char) :=
  wordsFrom [] text

/-! ## First facts -/

/-- Every character that the core library calls white space is blank. -/
theorem isBlank_of_isWhitespace {c : Char} (space : c.isWhitespace = true) : isBlank c = true := by
  simp only [Char.isWhitespace, Bool.or_eq_true, decide_eq_true_eq] at space
  rcases space with ((rfl | rfl) | rfl) | rfl <;> decide

@[simp] theorem collapseAfter_nil (afterBlank : Bool) : collapseAfter afterBlank [] = [] := rfl

/-- No blank other than the plain space is left after collapsing. -/
theorem eq_space_of_mem_collapseAfter {afterBlank : Bool} {text : List Char} {c : Char}
    (member : c ∈ collapseAfter afterBlank text) (blank : isBlank c = true) : c = ' ' := by
  induction text generalizing afterBlank with
  | nil => simp at member
  | cons d rest ih =>
    simp only [collapseAfter] at member
    split at member
    · split at member
      · exact ih member
      · rcases List.mem_cons.mp member with rfl | later
        · rfl
        · exact ih later
    · rename_i solid
      rcases List.mem_cons.mp member with rfl | later
      · exact absurd blank solid
      · exact ih later

end Templating.Text
