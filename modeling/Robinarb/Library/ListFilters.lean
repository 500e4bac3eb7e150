import Mathlib.Data.List.Basic

/-! # Filtering sorted lists by ranges, guarded selections, and lists side by side

A list sorted by a key splits into consecutive ranges of the key. A selection
under a guard is the whole selection exactly when the guard refuses nothing that
would be selected.
-/

namespace ListFilters

universe u v

variable {α : Type u} {β : Type v}

def inRange (key : α → Nat) (low high : Nat) (x : α) : Bool := decide (low ≤ key x) && decide (key x ≤ high)

theorem filter_inRange_append {key : α → Nat} {xs : List α}
    (hSorted : xs.Pairwise fun x y => key x ≤ key y) {low mid high : Nat} (hLow : low ≤ mid + 1)
    (hHigh : mid ≤ high) :
    xs.filter (inRange key low mid) ++ xs.filter (inRange key (mid + 1) high) =
      xs.filter (inRange key low high) := by
  induction xs with
  | nil => rfl
  | cons x xs ih =>
    obtain ⟨hFirst, hRest⟩ := List.pairwise_cons.mp hSorted
    have ih := ih hRest
    by_cases hMid : key x ≤ mid
    · have hRight : inRange key (mid + 1) high x = false := by
        simp only [inRange, Bool.and_eq_false_iff, decide_eq_false_iff_not]
        omega
      have hSame : inRange key low high x = inRange key low mid x := by
        simp only [inRange, hMid, Nat.le_trans hMid hHigh]
      rw [List.filter_cons, List.filter_cons (p := inRange key (mid + 1) high), List.filter_cons, hRight, hSame]
      split
      · simp only [Bool.false_eq_true, if_false, List.cons_append, ih]
      · simpa using ih
    · have hNone : xs.filter (inRange key low mid) = [] := by
        rw [List.filter_eq_nil_iff]
        intro y hy
        have hLe := hFirst y hy
        simp only [inRange, Bool.and_eq_true, decide_eq_true_eq]
        omega
      have hLeft : inRange key low mid x = false := by
        simp only [inRange, Bool.and_eq_false_iff, decide_eq_false_iff_not]
        omega
      have hSame : inRange key low high x = inRange key (mid + 1) high x := by
        have hBounds : (low ≤ key x) ↔ (mid + 1 ≤ key x) := by omega
        simp only [inRange, hBounds]
      rw [hNone, List.nil_append] at ih
      rw [List.filter_cons, hLeft, List.filter_cons, List.filter_cons, hSame, hNone, ih]
      rfl

theorem filterMap_guard_length_le (p : α → Bool) (g : α → Option β) (xs : List α) :
    (xs.filterMap fun x => if p x then g x else none).length ≤ (xs.filterMap g).length := by
  induction xs with
  | nil => exact Nat.le_refl _
  | cons x xs ih =>
    cases hg : g x with
    | none => simpa [hg] using ih
    | some y =>
      by_cases hp : p x = true
      · simpa [hg, hp] using ih
      · simp only [List.filterMap_cons, hp, hg, Bool.false_eq_true, if_false, List.length_cons]
        omega

theorem filterMap_guard_eq_iff (p : α → Bool) (g : α → Option β) (xs : List α) :
    (xs.filterMap fun x => if p x then g x else none) = xs.filterMap g ↔
      ∀ x ∈ xs, (g x).isSome → p x = true := by
  induction xs with
  | nil => simp
  | cons x xs ih =>
    cases hg : g x with
    | none => simpa [hg] using ih
    | some y =>
      by_cases hp : p x = true
      · simpa [hg, hp] using ih
      · have hLength := filterMap_guard_length_le p g xs
        refine iff_of_false (fun hEq => ?_) (fun hAll => hp (hAll x List.mem_cons_self (by rw [hg]; rfl)))
        simp only [List.filterMap_cons, hp, hg, Bool.false_eq_true, if_false] at hEq
        rw [hEq, List.length_cons] at hLength
        omega

/-- Lists related position by position, at one position. -/
theorem forall₂_getElem? {R : α → β → Prop} {xs : List α} {ys : List β} (h : List.Forall₂ R xs ys) {i : Nat} {x : α}
    (hx : xs[i]? = some x) : ∃ y, ys[i]? = some y ∧ R x y := by
  induction h generalizing i with
  | nil => cases hx
  | @cons first other xs ys hFirst hRest ih =>
    cases i with
    | zero =>
      obtain rfl := Option.some.inj hx
      exact ⟨other, rfl, hFirst⟩
    | succ i => exact ih hx

end ListFilters
