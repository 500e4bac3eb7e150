import Mathlib.Data.List.Destutter
import Mathlib.Order.Lattice

/-! # Sort, then drop equal neighbours

A sorted list without equal neighbours has each of its elements once, in order.
-/

namespace AdjacentDedup

universe u

variable {α : Type u} [LinearOrder α] {a b : α} {l : List α}

theorem mem_destutter'_ne : a ∈ l.destutter' (· ≠ ·) b ↔ a = b ∨ a ∈ l := by
  induction l generalizing b with
  | nil => rw [List.destutter'_nil, List.mem_singleton, or_iff_left List.not_mem_nil]
  | cons c rest ih =>
    by_cases hEq : b = c
    · rw [List.destutter'_cons_neg (h := not_not.mpr hEq), ih, List.mem_cons, hEq]
      tauto
    · rw [List.destutter'_cons_pos (h := hEq), List.mem_cons, ih, List.mem_cons]

theorem mem_destutter_ne : a ∈ l.destutter (· ≠ ·) ↔ a ∈ l := by
  cases l with
  | nil => rfl
  | cons b rest => rw [List.destutter_cons', mem_destutter'_ne, List.mem_cons]

theorem pairwise_destutter_ne (hSorted : l.Pairwise (· ≤ ·)) : (l.destutter (· ≠ ·)).Pairwise (· < ·) := by
  have hLe := (hSorted.sublist (List.destutter_sublist (· ≠ ·) l)).isChain
  have hNe := List.isChain_destutter (· ≠ ·) l
  rw [List.isChain_iff_getElem] at hLe hNe
  apply List.isChain_iff_pairwise.mp
  apply List.isChain_iff_getElem.mpr
  intro i hi
  exact lt_of_le_of_ne (hLe i hi) (hNe i hi)

end AdjacentDedup
