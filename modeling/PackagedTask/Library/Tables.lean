import Mathlib.Data.List.AList

namespace PackagedTask.Library

variable {κ β : Type} [DecidableEq κ] {table : AList fun _ : κ => β} {key other : κ}
  {value found : β}

theorem lookup_insert_cases (here : (table.insert key value).lookup other = some found) :
    (other = key ∧ found = value) ∨ (other ≠ key ∧ table.lookup other = some found) := by
  by_cases same : other = key
  · rw [same, AList.lookup_insert] at here
    exact .inl ⟨same, (Option.some.inj here).symm⟩
  · rw [AList.lookup_insert_ne same] at here
    exact .inr ⟨same, here⟩

theorem lookup_of_erase (here : (table.erase key).lookup other = some found) :
    other ≠ key ∧ table.lookup other = some found := by
  by_cases same : other = key
  · rw [same, AList.lookup_erase] at here
    cases here
  · rw [AList.lookup_erase_ne same] at here
    exact ⟨same, here⟩

end PackagedTask.Library
