import Mathlib.Data.List.Basic
import Templating.Proofs.Text.Blank

/-!
# Pieces between separators

A text is split at every character that satisfies a test, and no piece holds such a character. Lines
are the pieces between line feeds, but for what belongs to the end of a line, and for the last piece
when there is nothing in it.

* `clear_of_mem_splitOnPPrepend`, `not_mem_of_mem_splitOn`: no piece holds a separator.
* `map_dropTail_splitOn`: without the blanks at their ends, the pieces are the lines and maybe an
  empty one behind them.
-/

namespace Templating.Text

theorem clear_of_mem_splitOnPPrepend {p : Char → Bool} {opened text piece : List Char}
    (clear : ∀ c ∈ opened, p c = false) (member : piece ∈ text.splitOnPPrepend p opened) :
    ∀ c ∈ piece, p c = false := by
  induction text generalizing opened with
  | nil =>
    rw [List.splitOnPPrepend_nil, List.mem_singleton] at member
    exact fun c here => clear c (List.mem_reverse.mp (member ▸ here))
  | cons first rest ih =>
    rw [List.splitOnPPrepend_cons_eq_if, ← List.splitOnPPrepend_nil_right] at member
    cases splits : p first with
    | true =>
      rw [if_pos splits] at member
      rcases List.mem_cons.mp member with rfl | later
      · exact fun c here => clear c (List.mem_reverse.mp here)
      · exact ih (List.forall_mem_nil _) later
    | false =>
      rw [if_neg (Bool.eq_false_iff.mp splits)] at member
      refine ih (fun c here => ?_) member
      rcases List.mem_cons.mp here with rfl | old
      · exact splits
      · exact clear c old

theorem not_mem_of_mem_splitOn {separator : Char} {text piece : List Char}
    (member : piece ∈ text.splitOn separator) : separator ∉ piece := by
  rw [List.splitOn_eq_splitOnP, ← List.splitOnPPrepend_nil_right] at member
  intro inside
  have other := clear_of_mem_splitOnPPrepend (List.forall_mem_nil _) member separator inside
  rw [beq_self_eq_true] at other
  cases other

/-! ## Lines -/

/-- A piece without the carriage return at its end. -/
def dropReturn (piece : List Char) : List Char :=
  if piece.getLast? = some '\r' then piece.dropLast else piece

/-- The lines of a text. A line ends at a line feed, and a carriage return in front of this belongs
to the end of the line. What stands behind the last line feed is a line too, unless nothing does. -/
def textLines (text : List Char) : List (List Char) :=
  (text.splitOn '\n').dropLast.map dropReturn ++
    (text.splitOn '\n').getLast?.toList.filter fun last => !last.isEmpty

/-- A carriage return is one of the blanks at the end. -/
theorem dropTail_dropReturn (piece : List Char) :
    dropTail isBlank (dropReturn piece) = dropTail isBlank piece := by
  unfold dropReturn
  split
  · rename_i ends
    obtain ⟨front, rfl⟩ := List.getLast?_eq_some_iff.mp ends
    rw [List.dropLast_concat]
    exact (List.rdropWhile_concat_pos isBlank front '\r' (by decide)).symm
  · rfl

theorem map_dropTail_splitOn (text : List Char) :
    ∃ last, (last = [] ∨ last = [[]]) ∧ (text.splitOn '\n').map (dropTail isBlank) =
      (textLines text).map (dropTail isBlank) ++ last := by
  obtain ⟨front, last, pieces⟩ :=
    (List.eq_nil_or_concat' (text.splitOn '\n')).resolve_left (List.splitOn_ne_nil _ _)
  have returns : front.map (dropTail isBlank ∘ dropReturn) = front.map (dropTail isBlank) :=
    List.map_congr_left fun piece _ => dropTail_dropReturn piece
  rw [textLines, pieces, List.dropLast_concat, List.getLast?_concat, Option.toList_some,
    List.map_append, List.map_append, List.map_map, returns]
  by_cases empty : last = []
  · subst empty
    exact ⟨[[]], .inr rfl, by simp [dropTail]⟩
  · exact ⟨[], .inl rfl, by simp [empty]⟩

end Templating.Text
