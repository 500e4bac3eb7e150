import Mathlib.Data.Finset.Lattice.Fold

/-! # Greedy selection of disjoint items

Items are taken in order, each one that has no part in common with those already taken.
-/

namespace GreedySelection

universe u v

variable {α : Type u} {ι : Type v} [DecidableEq ι]

/-- Which items are taken depends on their parts only. -/
def flags : Finset ι → List (Finset ι) → List Bool
  | _, [] => []
  | used, s :: rest => if Disjoint s used then true :: flags (used ∪ s) rest else false :: flags used rest

def chosen (items : List α) (flags : List Bool) : List α :=
  (items.zip flags).filterMap fun item => if item.2 then some item.1 else none

variable (parts : α → Finset ι)

def select (used : Finset ι) (items : List α) : List α := chosen items (flags used (items.map parts))

variable {parts} {used : Finset ι} {x : α} {items : List α}

@[simp] theorem select_nil : select parts used [] = [] := rfl

theorem select_cons_of_disjoint (h : Disjoint (parts x) used) :
    select parts used (x :: items) = x :: select parts (used ∪ parts x) items := by
  simp [select, flags, chosen, h]

theorem select_cons_of_not_disjoint (h : ¬Disjoint (parts x) used) :
    select parts used (x :: items) = select parts used items := by
  simp [select, flags, chosen, h]

/-- The first item is taken whatever its parts are. -/
theorem select_head? (items : List α) : (select parts ∅ items).head? = items.head? := by
  cases items with
  | nil => rfl
  | cons x rest => rw [select_cons_of_disjoint (Finset.disjoint_empty_right _), List.head?_cons, List.head?_cons]

theorem select_sublist (used : Finset ι) (items : List α) : (select parts used items).Sublist items := by
  induction items generalizing used with
  | nil => exact List.Sublist.slnil
  | cons x rest ih =>
    by_cases h : Disjoint (parts x) used
    · rw [select_cons_of_disjoint h]
      exact (ih _).cons_cons x
    · rw [select_cons_of_not_disjoint h]
      exact (ih used).cons x

theorem select_disjoint_used {y : α} (hy : y ∈ select parts used items) : Disjoint (parts y) used := by
  induction items generalizing used with
  | nil => cases hy
  | cons x rest ih =>
    by_cases h : Disjoint (parts x) used
    · rw [select_cons_of_disjoint h] at hy
      rcases List.mem_cons.mp hy with rfl | hRest
      · exact h
      · exact (ih hRest).mono_right Finset.subset_union_left
    · rw [select_cons_of_not_disjoint h] at hy
      exact ih hy

theorem select_pairwise (used : Finset ι) (items : List α) :
    (select parts used items).Pairwise fun x y => Disjoint (parts x) (parts y) := by
  induction items generalizing used with
  | nil => exact List.Pairwise.nil
  | cons x rest ih =>
    by_cases h : Disjoint (parts x) used
    · rw [select_cons_of_disjoint h, List.pairwise_cons]
      constructor
      · intro y hy
        exact ((select_disjoint_used hy).mono_right Finset.subset_union_right).symm
      · exact ih _
    · rw [select_cons_of_not_disjoint h]
      exact ih used

/-- An item in its place is taken there, or it has a part in common with what was used
from the start or with an item taken before it. -/
theorem select_at (parts : α → Finset ι) (used : Finset ι) {before after : List α} (hItems : items = before ++ x :: after) :
    (∃ kept left, select parts used items = kept ++ x :: left ∧ kept.Sublist before ∧ left.Sublist after) ∨
      ¬Disjoint (parts x) used ∨
      ∃ y ∈ before, y ∈ select parts used items ∧ ¬Disjoint (parts y) (parts x) := by
  subst hItems
  induction before generalizing used with
  | nil =>
    by_cases h : Disjoint (parts x) used
    · left
      exact ⟨[], select parts (used ∪ parts x) after, select_cons_of_disjoint h, List.Sublist.slnil, select_sublist _ _⟩
    · exact .inr (.inl h)
  | cons y rest ih =>
    rw [List.cons_append]
    by_cases h : Disjoint (parts y) used
    · rw [select_cons_of_disjoint h]
      obtain ⟨kept, left, hSelect, hKept, hLeft⟩ | hUsed | ⟨z, hz, hTaken, hShare⟩ := ih (used ∪ parts y)
      · left
        exact ⟨y :: kept, left, by rw [hSelect, List.cons_append], hKept.cons_cons y, hLeft⟩
      · right
        by_cases hOld : Disjoint (parts x) used
        · right
          refine ⟨y, List.mem_cons_self, List.mem_cons_self, fun hNew => hUsed ?_⟩
          exact Finset.disjoint_union_right.mpr ⟨hOld, hNew.symm⟩
        · exact .inl hOld
      · right
        right
        exact ⟨z, List.mem_cons_of_mem y hz, List.mem_cons_of_mem y hTaken, hShare⟩
    · rw [select_cons_of_not_disjoint h]
      obtain ⟨kept, left, hSelect, hKept, hLeft⟩ | hUsed | ⟨z, hz, hTaken, hShare⟩ := ih used
      · left
        exact ⟨kept, left, hSelect, hKept.cons y, hLeft⟩
      · exact .inr (.inl hUsed)
      · right
        right
        exact ⟨z, List.mem_cons_of_mem y hz, hTaken, hShare⟩

end GreedySelection
