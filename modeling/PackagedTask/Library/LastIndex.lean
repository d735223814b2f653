import Mathlib

namespace PackagedTask.Library

variable {α : Type} [DecidableEq α]

/-- The last position that holds `value`: what a map filled in list order ends up with. -/
def lastIndex (value : α) : List α → Option Nat
  | [] => none
  | first :: rest => match lastIndex value rest with
      | some i => some (i + 1)
      | none => if first = value then some 0 else none

theorem lastIndex_concat (value last : α) (values : List α) :
    lastIndex value (values ++ [last]) =
      if last = value then some values.length else lastIndex value values := by
  induction values with
  | nil => rfl
  | cons first rest ih =>
      rw [List.cons_append, lastIndex, ih]
      by_cases same : last = value
      · simp [same]
      · simp [same, lastIndex]

theorem lastIndex_get {value : α} {values : List α} {i : Nat}
    (found : lastIndex value values = some i) : values[i]? = some value := by
  induction values generalizing i with
  | nil => simp [lastIndex] at found
  | cons first rest ih =>
      rw [lastIndex] at found
      cases later : lastIndex value rest with
      | some j =>
          rw [later] at found
          obtain rfl := Option.some.inj found
          exact ih later
      | none =>
          rw [later] at found
          by_cases same : first = value
          · simp only [same, ↓reduceIte, Option.some.injEq] at found
            simp [← found, same]
          · simp [same] at found

theorem lastIndex_lt {value : α} {values : List α} {i : Nat}
    (found : lastIndex value values = some i) : i < values.length :=
  (List.getElem?_eq_some_iff.mp (lastIndex_get found)).1

theorem lastIndex_eq_none_iff {value : α} {values : List α} :
    lastIndex value values = none ↔ value ∉ values := by
  induction values with
  | nil => simp [lastIndex]
  | cons first rest ih =>
      rw [lastIndex]
      cases later : lastIndex value rest with
      | some j =>
          have member := List.mem_of_getElem? (lastIndex_get later)
          simp [member]
      | none =>
          have absent := ih.mp later
          by_cases same : first = value
          · simp [same]
          · simp [absent, same, Ne.symm same]

theorem lastIndex_isSome_iff {value : α} {values : List α} :
    (lastIndex value values).isSome ↔ value ∈ values := by
  rw [Option.isSome_iff_ne_none, ne_eq, lastIndex_eq_none_iff, not_not]

end PackagedTask.Library
