/-!
# Tables

A table keeps at most one value under each key that was put into it. `get?_insert` and `get?_erase`
say what is under every key afterwards.
-/

namespace Templating

/-- Values under keys. -/
structure Table (κ ν : Type) where
  entries : List (κ × ν) := []

namespace Table

variable {κ ν : Type} [DecidableEq κ]

/-- The value under a key. -/
def get? (table : Table κ ν) (key : κ) : Option ν :=
  (table.entries.find? (·.1 = key)).map Prod.snd

/-- Keeps nothing under a key any more. -/
def erase (table : Table κ ν) (key : κ) : Table κ ν :=
  ⟨table.entries.filter (·.1 ≠ key)⟩

/-- Keeps a value under a key, in place of the one that was there. -/
def insert (table : Table κ ν) (key : κ) (value : ν) : Table κ ν :=
  ⟨(key, value) :: (table.erase key).entries⟩

/-- The keys that have a value. -/
def keys (table : Table κ ν) : List κ :=
  table.entries.map Prod.fst

/-! ## First facts -/

@[simp] theorem get?_empty (key : κ) : (⟨[]⟩ : Table κ ν).get? key = none := rfl

theorem get?_erase_self (table : Table κ ν) (key : κ) : (table.erase key).get? key = none := by
  simp [get?, erase]

/-- Other keys are kept when one is erased. -/
theorem get?_erase_of_ne (table : Table κ ν) {key other : κ} (differs : other ≠ key) :
    (table.erase key).get? other = table.get? other := by
  simp only [get?, erase, List.find?_filter]
  congr 2
  funext entry
  by_cases found : entry.1 = other
  · simp [found, differs]
  · simp [found]

theorem get?_insert_self (table : Table κ ν) (key : κ) (value : ν) :
    (table.insert key value).get? key = some value := by
  simp [get?, insert]

/-- Other keys are kept when a value is put under one. -/
theorem get?_insert_of_ne (table : Table κ ν) {key other : κ} (value : ν) (differs : other ≠ key) :
    (table.insert key value).get? other = table.get? other := by
  rw [← get?_erase_of_ne table differs]
  have passed : ¬ key = other := fun same => differs same.symm
  simp [get?, insert, passed]

end Table

end Templating
