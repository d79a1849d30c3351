import Mathlib.Order.MinMax

/-!
# Bounds of a list

The least and the greatest element of a list, as a fold computes them.
-/

variable {α : Type} [LinearOrder α] {values : List α} {init bound : α}

theorem le_foldl_min_iff :
    bound ≤ values.foldl min init ↔ bound ≤ init ∧ ∀ value ∈ values, bound ≤ value := by
  induction values generalizing init with
  | nil => simp
  | cons first rest ih => rw [List.foldl_cons, ih, le_min_iff, and_assoc, List.forall_mem_cons]

theorem foldl_max_le_iff : values.foldl max init ≤ bound ↔
    init ≤ bound ∧ ∀ value ∈ values, value ≤ bound :=
  le_foldl_min_iff (α := αᵒᵈ)
