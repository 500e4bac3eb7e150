import Mathlib.Algebra.Order.Ring.Nat
import Mathlib.Data.List.Basic

/-! # Lists of tasks

One task of a list takes a step: relations between the tasks carry over.
-/

namespace TaskList

universe u

variable {α : Type u} {R : α → α → Prop} {xs : List α} {a a' : α} {i : Nat}

theorem pairwise_set (h : xs.Pairwise R) (ha : xs[i]? = some a) (hLater : ∀ b ∈ xs, R b a → R b a')
    (hEarlier : ∀ b ∈ xs, R a b → R a' b) : (xs.set i a').Pairwise R := by
  induction xs generalizing i with
  | nil => exact List.Pairwise.nil
  | cons x rest ih =>
    obtain ⟨hFirst, hRest⟩ := List.pairwise_cons.mp h
    cases i with
    | zero =>
      obtain rfl := Option.some.inj ha
      apply List.pairwise_cons.mpr
      exact ⟨fun b hb => hEarlier b (List.mem_cons_of_mem x hb) (hFirst b hb), hRest⟩
    | succ j =>
      have hMem : a ∈ rest := List.mem_of_getElem? ha
      apply List.pairwise_cons.mpr
      constructor
      · intro b hb
        obtain hb | rfl := List.mem_or_eq_of_mem_set hb
        · exact hFirst b hb
        · exact hLater x List.mem_cons_self (hFirst a hMem)
      · apply ih hRest ha
        · exact fun b hb => hLater b (List.mem_cons_of_mem x hb)
        · exact fun b hb => hEarlier b (List.mem_cons_of_mem x hb)

theorem pairwise_ne (h : xs.Pairwise R) {b : α} {j : Nat} (ha : xs[i]? = some a) (hb : xs[j]? = some b)
    (hne : i ≠ j) : R a b ∨ R b a := by
  obtain ⟨hi, rfl⟩ := List.getElem?_eq_some_iff.mp ha
  obtain ⟨hj, rfl⟩ := List.getElem?_eq_some_iff.mp hb
  have hPairs := List.pairwise_iff_getElem.mp h
  obtain hLt | hLt := Nat.lt_or_gt_of_ne hne
  · exact .inl (hPairs i j hi hj hLt)
  · exact .inr (hPairs j i hj hi hLt)

theorem sum_map_set {xs : List α} (f : α → Nat) (ha : xs[i]? = some a) (a' : α) :
    ((xs.set i a').map f).sum + f a = (xs.map f).sum + f a' := by
  induction xs generalizing i with
  | nil => cases ha
  | cons x rest ih =>
    cases i with
    | zero =>
      obtain rfl := Option.some.inj ha
      simp only [List.set_cons_zero, List.map_cons, List.sum_cons]
      omega
    | succ j =>
      have hRest := ih ha
      simp only [List.set_cons_succ, List.map_cons, List.sum_cons]
      omega

end TaskList
