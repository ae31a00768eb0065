import Templating.Proofs.Text.Pieces
import Templating.Source.Preprocessor

/-!
# The layout of lines

Stripping lines and dropping empty ones only touches how the lines of a text are laid out. A layout
is given by the lines that are not empty and by how many empty ones stand below each. Two of them
are written one below the other, or with one empty line between them when there are any.

* `exists_laid`: any lines are laid out so.
* `joinLines_laid`: joining lines writes their layout.
* `joinLines_written`: what has been written is written again when it is split at its line feeds.
* `compactMinifier_layout` is the result for whole texts.
-/

namespace Templating.Source

open Templating.Text

/-! ## Layouts -/

/-- A line that is not empty, and how many empty lines are below it. -/
structure FilledLine where
  line : List Char
  below : Nat
  filled : line ≠ []

/-- The line and the empty lines below it. -/
def FilledLine.laid (entry : FilledLine) : List (List Char) :=
  entry.line :: List.replicate entry.below []

/-- What is written between two lines that are not empty, with so many empty ones between them. -/
def lineBreak (between : Nat) : List Char :=
  if between = 0 then ['\n'] else ['\n', '\n']

/-- The lines with breaks between them; nothing is in front of the first or behind the last. -/
def written : List FilledLine → List Char
  | [] => []
  | [last] => last.line
  | entry :: next :: rest => entry.line ++ lineBreak entry.below ++ written (next :: rest)

/-- Any lines are some empty ones above, and then lines that are not empty with empty ones below. -/
theorem exists_laid (lines : List (List Char)) : ∃ (above : Nat) (entries : List FilledLine),
    lines = List.replicate above [] ++ entries.flatMap FilledLine.laid := by
  induction lines with
  | nil => exact ⟨0, [], rfl⟩
  | cons line rest ih =>
    obtain ⟨above, entries, rfl⟩ := ih
    by_cases filled : line = []
    · subst filled
      exact ⟨above + 1, entries, rfl⟩
    · exact ⟨0, ⟨line, above, filled⟩ :: entries, rfl⟩

/-- The lines of a layout that are not empty. -/
theorem filter_laid (above : Nat) (entries : List FilledLine) :
    (List.replicate above [] ++ entries.flatMap FilledLine.laid).filter
      (fun line => !line.isEmpty) = entries.map FilledLine.line := by
  have none (count : Nat) :
      (List.replicate count ([] : List Char)).filter (fun line => !line.isEmpty) = [] :=
    List.filter_eq_nil_iff.mpr fun line member => by simp [List.eq_of_mem_replicate member]
  rw [List.filter_append, none, List.nil_append]
  induction entries with
  | nil => rfl
  | cons entry rest ih =>
    rw [List.flatMap_cons, List.filter_append, ih, FilledLine.laid,
      List.filter_cons_of_pos (by simpa using entry.filled), none]
    rfl

/-! ## Joining lines -/

/-- What is written in front of a line, when a line has been written and there is a gap. -/
def lineStart (started gap : Bool) : List Char :=
  if started then lineBreak gap.toNat else []

theorem lineStart_true (between : Nat) : lineStart true (between != 0) = lineBreak between := by
  cases between <;> rfl

/-- Empty lines make a gap. -/
theorem joinLines_replicate (started gap : Bool) (count : Nat) (rest : List (List Char)) :
    joinLines started gap (List.replicate count [] ++ rest) =
      joinLines started (gap || count != 0) rest := by
  induction count generalizing gap with
  | zero =>
    rw [bne_self_eq_false, Bool.or_false]
    rfl
  | succ count ih =>
    have step : joinLines started gap (List.replicate (count + 1) [] ++ rest) =
        joinLines started true (List.replicate count [] ++ rest) := rfl
    rw [step, ih]
    simp

/-- A line is written behind a break, and the empty lines below it make a gap. -/
theorem joinLines_filled {line : List Char} (filled : line ≠ []) (started gap : Bool) (below : Nat)
    (rest : List (List Char)) :
    joinLines started gap (line :: List.replicate below [] ++ rest) =
      lineStart started gap ++ line ++ joinLines true (below != 0) rest := by
  rw [List.cons_append, joinLines, if_neg (by simpa using filled), joinLines_replicate,
    Bool.false_or]
  cases started <;> cases gap <;> rfl

/-- **Joining lines** writes their layout. -/
theorem joinLines_laid (started gap : Bool) (entry : FilledLine) (rest : List FilledLine) :
    joinLines started gap ((entry :: rest).flatMap FilledLine.laid) =
      lineStart started gap ++ written (entry :: rest) := by
  induction rest generalizing started gap entry with
  | nil =>
    rw [List.flatMap_cons, FilledLine.laid, joinLines_filled entry.filled]
    exact List.append_nil _
  | cons next rest ih =>
    rw [List.flatMap_cons, FilledLine.laid, joinLines_filled entry.filled, ih, lineStart_true,
      written, List.append_assoc, List.append_assoc]

/-- Empty lines at the end are not written. -/
theorem joinLines_concat_nil (started gap : Bool) (lines : List (List Char)) :
    joinLines started gap (lines ++ [[]]) = joinLines started gap lines := by
  induction lines generalizing started gap with
  | nil => rfl
  | cons line rest ih => rw [List.cons_append, joinLines, joinLines, ih, ih]

/-! ## Splitting what is written -/

/-- A line that is split off as it is and has no blank at its end. -/
structure IsStripped (line : List Char) : Prop where
  whole : '\n' ∉ line
  stripped : dropTail isBlank line = line

theorem isStripped_of_mem {text line : List Char}
    (member : line ∈ (text.splitOn '\n').map (dropTail isBlank)) : IsStripped line := by
  obtain ⟨piece, isPiece, rfl⟩ := List.mem_map.mp member
  obtain ⟨blanks, split, -⟩ := dropTail_eq isBlank piece
  refine ⟨fun inside => not_mem_of_mem_splitOn isPiece ?_,
    List.rdropWhile_idempotent isBlank piece⟩
  rw [split]
  exact List.mem_append_left blanks inside

/-- Behind a line and a break there is one empty line at most. -/
theorem splitOn_lineBreak {line : List Char} (whole : '\n' ∉ line) (between : Nat)
    (text : List Char) : (line ++ lineBreak between ++ text).splitOn '\n' =
      line :: List.replicate (min between 1) [] ++ text.splitOn '\n' := by
  cases between with
  | zero =>
    rw [List.append_assoc]
    exact List.splitOn_append_cons_self_of_not_mem whole text
  | succ between =>
    have split := List.splitOn_append_cons_self_of_not_mem whole ('\n' :: text)
    have empty := List.splitOn_append_cons_self_of_not_mem (List.not_mem_nil (a := '\n')) text
    rw [← List.nil_append ('\n' :: text), empty] at split
    rw [List.append_assoc, Nat.min_eq_right (Nat.succ_le_succ (Nat.zero_le between))]
    exact split

theorem lineBreak_min (between : Nat) : lineBreak (min between 1) = lineBreak between := by
  cases between with
  | zero => rfl
  | succ between => rw [Nat.min_eq_right (Nat.succ_le_succ (Nat.zero_le between))]; rfl

/-- **Joining what has been written** writes it again. -/
theorem joinLines_written (started gap : Bool) (entry : FilledLine) (rest : List FilledLine)
    (stripped : ∀ other ∈ entry :: rest, IsStripped other.line) :
    joinLines started gap (((written (entry :: rest)).splitOn '\n').map (dropTail isBlank)) =
      lineStart started gap ++ written (entry :: rest) := by
  induction rest generalizing started gap entry with
  | nil =>
    have first := stripped entry List.mem_cons_self
    have line := joinLines_filled entry.filled started gap 0 []
    rw [written, List.splitOn_eq_singleton first.whole, List.map_singleton, first.stripped]
    exact line.trans (List.append_nil _)
  | cons next rest ih =>
    have first := stripped entry List.mem_cons_self
    have later := fun other member => stripped other (List.mem_cons_of_mem entry member)
    rw [written, splitOn_lineBreak first.whole, List.map_append, List.map_cons, first.stripped,
      List.map_replicate]
    refine (joinLines_filled entry.filled _ _ _ _).trans ?_
    rw [ih _ _ next later, lineStart_true, lineBreak_min,
      List.append_assoc, List.append_assoc]

/-! ## Whole texts -/

/-- Lines are written as they are laid out. -/
theorem joinLines_layout (above : Nat) (entries : List FilledLine) :
    joinLines false false (List.replicate above [] ++ entries.flatMap FilledLine.laid) =
      written entries := by
  rw [joinLines_replicate]
  cases entries with
  | nil => rfl
  | cons entry rest => exact joinLines_laid false _ entry rest

theorem compactLines_written {entries : List FilledLine}
    (stripped : ∀ entry ∈ entries, IsStripped entry.line) :
    compactLines (written entries) = written entries := by
  rw [compactLines, strippedLines]
  cases entries with
  | nil => rfl
  | cons entry rest => exact joinLines_written false false entry rest stripped

/-- The layout that is written holds the lines that are not empty. -/
theorem exists_compactLines_eq (text : List Char) : ∃ (above : Nat) (entries : List FilledLine),
    (textLines text).map (dropTail isBlank) =
      List.replicate above [] ++ entries.flatMap FilledLine.laid ∧
    entries.map FilledLine.line =
      ((textLines text).map (dropTail isBlank)).filter (fun line => !line.isEmpty) ∧
    compactLines text = written entries := by
  obtain ⟨last, empty, pieces⟩ := map_dropTail_splitOn text
  obtain ⟨above, entries, laid⟩ := exists_laid ((textLines text).map (dropTail isBlank))
  refine ⟨above, entries, laid, ?_, ?_⟩
  · rw [laid, filter_laid]
  · rw [compactLines, strippedLines, pieces, ← joinLines_layout above, ← laid]
    rcases empty with rfl | rfl
    · rw [List.append_nil]
    · exact joinLines_concat_nil _ _ _

/-- Compacting what is compact changes nothing. -/
theorem compactLines_compactLines (text : List Char) :
    compactLines (compactLines text) = compactLines text := by
  obtain ⟨above, entries, -, filled, output⟩ := exists_compactLines_eq text
  obtain ⟨last, -, pieces⟩ := map_dropTail_splitOn text
  rw [output]
  refine compactLines_written fun entry member => ?_
  have line : entry.line ∈ entries.map FilledLine.line := List.mem_map_of_mem member
  rw [filled] at line
  have piece : entry.line ∈ (text.splitOn '\n').map (dropTail isBlank) := by
    rw [pieces]
    exact List.mem_append_left last (List.mem_filter.mp line).1
  exact isStripped_of_mem piece

/-- **Only the layout of lines changes.** Take the lines of a text without the blanks at their ends:
what the minifier writes is those of them that are not empty, in order and unchanged, with one line
feed between two of them, or two when at least one empty line stands between them, and with nothing
in front of the first or behind the last. Minifying that again changes nothing. -/
theorem compactMinifier_layout (text : String) :
    (∃ (above : Nat) (entries : List FilledLine),
      (textLines text.toList).map (dropTail isBlank) =
        List.replicate above [] ++ entries.flatMap FilledLine.laid ∧
      entries.map FilledLine.line =
        ((textLines text.toList).map (dropTail isBlank)).filter (fun line => !line.isEmpty) ∧
      (compactMinifier text).toList = written entries) ∧
    compactMinifier (compactMinifier text) = compactMinifier text := by
  have output : (compactMinifier text).toList = compactLines text.toList := String.toList_ofList
  constructor
  · rw [output]
    exact exists_compactLines_eq text.toList
  · rw [compactMinifier, onText, ← compactMinifier, output, compactLines_compactLines]
    rfl

/-- A carriage return and the blanks of an empty line go with the end of the line in front. -/
example : compactLines " \n a  b \r\n \u00a0\n\n\tc\r".toList = " a  b\n\n\tc".toList := by
  decide

end Templating.Source
