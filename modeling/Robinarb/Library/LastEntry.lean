import Mathlib.Logic.Function.Basic

/-! # Maps built entry by entry

A list read into a map by a key, where a later entry replaces an earlier one.
-/

namespace LastEntry

universe u v

variable {α : Type u} {κ : Type v} [DecidableEq κ] (key : α → κ)

def insert (entries : κ → Option α) (x : α) : κ → Option α := Function.update entries (key x) (some x)

def ofList (xs : List α) : κ → Option α := xs.foldl (insert key) fun _ => none

variable {key}

/-- An entry is of the list or was there before it, and stands at its own key. -/
theorem foldl_insert_eq_some {xs : List α} {entries : κ → Option α} {k : κ} {x : α}
    (h : xs.foldl (insert key) entries k = some x) : (x ∈ xs ∧ key x = k) ∨ entries k = some x := by
  induction xs generalizing entries with
  | nil => exact .inr h
  | cons first rest ih =>
    obtain ⟨hMem, hKey⟩ | hBefore := ih h
    · exact .inl ⟨List.mem_cons_of_mem first hMem, hKey⟩
    · by_cases hHere : k = key first
      · rw [hHere, insert, Function.update_self] at hBefore
        rw [← Option.some.inj hBefore]
        exact .inl ⟨List.mem_cons_self, hHere.symm⟩
      · rw [insert, Function.update_of_ne hHere] at hBefore
        exact .inr hBefore

theorem ofList_eq_some {xs : List α} {k : κ} {x : α} (h : ofList key xs k = some x) : x ∈ xs ∧ key x = k :=
  (foldl_insert_eq_some h).resolve_right nofun

theorem foldl_insert_isSome {xs : List α} {entries : κ → Option α} {k : κ}
    (h : k ∈ xs.map key ∨ (entries k).isSome) : (xs.foldl (insert key) entries k).isSome := by
  induction xs generalizing entries with
  | nil => exact h.resolve_left List.not_mem_nil
  | cons first rest ih =>
    apply ih
    by_cases hHere : k = key first
    · right
      rw [hHere, insert, Function.update_self]
      rfl
    · rw [insert, Function.update_of_ne hHere]
      rw [List.map_cons, List.mem_cons] at h
      exact h.imp_left fun hMem => hMem.resolve_left hHere

/-- The keys of a map are those of its list. -/
theorem ofList_isSome {xs : List α} {k : κ} (h : k ∈ xs.map key) : ∃ x, ofList key xs k = some x ∧ x ∈ xs ∧ key x = k := by
  have hSome : (ofList key xs k).isSome := foldl_insert_isSome (.inl h)
  obtain ⟨x, hx⟩ := Option.isSome_iff_exists.mp hSome
  exact ⟨x, hx, ofList_eq_some hx⟩

end LastEntry
