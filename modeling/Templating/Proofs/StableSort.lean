/-!
# Stable sorting

Sorting keeps the order of items that stand for each other, so what a test picks is sorted by
itself, and an item more does not move the others.

* `mergeSort_cons_eq`, `mergeSort_eq_foldr`: sorting item by item.
* `filter_mergeSort`: sorting what a test picks.
* `exists_mergeSort_concat`: sorting with an item more.
-/

namespace Templating

variable {α : Type} {le : α → α → Bool}
  (trans : ∀ a b c, le a b = true → le b c = true → le a c = true)
  (total : ∀ a b, (le a b || le b a) = true)

include trans total

/-- Sorting puts the first item behind all that have to stand in front of it, and no further. -/
theorem mergeSort_cons_eq (first : α) (rest : List α) :
    (first :: rest).mergeSort le = (rest.mergeSort le).filter (!le first ·) ++
      first :: (rest.mergeSort le).filter (le first ·) := by
  obtain ⟨front, back, whole, others, before⟩ := List.mergeSort_cons trans total first rest
  have sorted := List.pairwise_mergeSort trans total (first :: rest)
  rw [whole, List.pairwise_append, List.pairwise_cons] at sorted
  have behind : ∀ item ∈ back, le first item = true := sorted.2.1.1
  have noneBefore : front.filter (le first ·) = [] :=
    List.filter_eq_nil_iff.mpr fun item member => by simpa using before item member
  have noneBehind : back.filter (!le first ·) = [] :=
    List.filter_eq_nil_iff.mpr fun item member => by simp [behind item member]
  rw [whole, others, List.filter_append, List.filter_append, List.filter_eq_self.mpr before,
    List.filter_eq_self.mpr behind, noneBefore, noneBehind, List.append_nil, List.nil_append]

/-- Sorting item by item, which is a form that can be evaluated. -/
theorem mergeSort_eq_foldr (items : List α) : items.mergeSort le =
    items.foldr (fun first sorted =>
      sorted.filter (!le first ·) ++ first :: sorted.filter (le first ·)) [] := by
  induction items with
  | nil => rw [List.mergeSort_nil, List.foldr_nil]
  | cons first rest ih => rw [mergeSort_cons_eq trans total, ih, List.foldr_cons]

/-- **What a test picks is sorted by itself.** -/
theorem filter_mergeSort (test : α → Bool) (items : List α) :
    (items.mergeSort le).filter test = (items.filter test).mergeSort le := by
  induction items with
  | nil => rw [List.mergeSort_nil, List.filter_nil, List.mergeSort_nil]
  | cons first rest ih =>
    by_cases picked : test first = true
    · have swap (other : α → Bool) : ((rest.mergeSort le).filter other).filter test =
          ((rest.filter test).mergeSort le).filter other := by
        rw [← ih, List.filter_filter, List.filter_filter]
        exact List.filter_congr fun item _ => Bool.and_comm _ _
      rw [mergeSort_cons_eq trans total, List.filter_append, List.filter_cons_of_pos picked,
        List.filter_cons_of_pos picked, swap, swap, mergeSort_cons_eq trans total]
    · obtain ⟨front, back, whole, others, -⟩ := List.mergeSort_cons trans total first rest
      rw [whole, List.filter_append, List.filter_cons_of_neg picked, List.filter_cons_of_neg picked,
        ← List.filter_append, ← others, ih]

/-- **An item more** goes between the others. -/
theorem exists_mergeSort_concat (items : List α) (item : α) : ∃ front back,
    (items ++ [item]).mergeSort le = front ++ item :: back ∧
      items.mergeSort le = front ++ back := by
  induction items with
  | nil => exact ⟨[], [], List.mergeSort_singleton item, List.mergeSort_nil⟩
  | cons first rest ih =>
    obtain ⟨front, back, whole, others⟩ := ih
    rw [List.cons_append, mergeSort_cons_eq trans total, mergeSort_cons_eq trans total, whole,
      others]
    simp only [List.filter_append]
    cases order : le first item with
    | true =>
      refine ⟨front.filter (!le first ·) ++ back.filter (!le first ·) ++
        first :: front.filter (le first ·), back.filter (le first ·), ?_, ?_⟩ <;> simp [order]
    | false =>
      refine ⟨front.filter (!le first ·), back.filter (!le first ·) ++
        first :: (front.filter (le first ·) ++ back.filter (le first ·)), ?_, ?_⟩ <;> simp [order]

end Templating
