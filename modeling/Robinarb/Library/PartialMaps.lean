import Mathlib.Data.List.ReduceOption
import Mathlib.Data.List.Forall2

/-! # Lists under a partial map

A map that may fail succeeds on a list when it does on each element, and the results
stand at the places of their elements. A map that may also pass an element over keeps
the others in their order.
-/

namespace PartialMaps

universe u

variable {α β : Type u} {f : α → Option β} {xs : List α}

/-- A step that succeeds, and then one that does on every result it can have. -/
theorem bind_isSome {x : Option α} {k : α → Option β} (h : x.isSome) (hNext : ∀ a, x = some a → (k a).isSome) :
    (x >>= k).isSome := by
  obtain ⟨a, rfl⟩ := Option.isSome_iff_exists.mp h
  exact hNext a rfl

theorem mapM_isSome (h : ∀ x ∈ xs, (f x).isSome) : ∃ ys, xs.mapM f = some ys := by
  induction xs with
  | nil => exact ⟨[], rfl⟩
  | cons x rest ih =>
    obtain ⟨hFirst, hRest⟩ := List.forall_mem_cons.mp h
    obtain ⟨y, hy⟩ := Option.isSome_iff_exists.mp hFirst
    obtain ⟨ys, hys⟩ := ih hRest
    refine ⟨y :: ys, ?_⟩
    rw [List.mapM_cons, hy, hys]
    rfl

theorem mapM_eq_map {g : α → β} (h : ∀ x ∈ xs, f x = some (g x)) : xs.mapM f = some (xs.map g) := by
  induction xs with
  | nil => rfl
  | cons x rest ih =>
    obtain ⟨hFirst, hRest⟩ := List.forall_mem_cons.mp h
    rw [List.mapM_cons, hFirst, ih hRest]
    rfl

theorem forall₂_of_mapM {ys : List β} (h : xs.mapM f = some ys) : List.Forall₂ (fun x y => f x = some y) xs ys := by
  induction xs generalizing ys with
  | nil =>
    cases h
    exact .nil
  | cons x rest ih =>
    rw [List.mapM_cons] at h
    obtain ⟨y, hy, hTail⟩ := Option.bind_eq_some_iff.mp h
    obtain ⟨others, hOthers, hEnd⟩ := Option.bind_eq_some_iff.mp hTail
    cases hEnd
    exact .cons hy (ih hOthers)

theorem length_of_mapM {ys : List β} (h : xs.mapM f = some ys) : ys.length = xs.length :=
  (forall₂_of_mapM h).length_eq.symm

theorem isSome_of_mapM {ys : List β} (h : xs.mapM f = some ys) : ∀ x ∈ xs, (f x).isSome := by
  intro x hMem
  obtain ⟨i, hi, rfl⟩ := List.mem_iff_getElem.mp hMem
  have hAt := (forall₂_of_mapM h).get hi (by rwa [length_of_mapM h])
  exact Option.isSome_of_eq_some hAt

theorem getElem?_of_mapM {ys : List β} (h : xs.mapM f = some ys) (i : Nat) : ys[i]? = xs[i]?.bind f := by
  induction xs generalizing ys i with
  | nil =>
    cases h
    rfl
  | cons x rest ih =>
    rw [List.mapM_cons] at h
    obtain ⟨y, hy, hTail⟩ := Option.bind_eq_some_iff.mp h
    obtain ⟨others, hOthers, hEnd⟩ := Option.bind_eq_some_iff.mp hTail
    cases hEnd
    cases i with
    | zero => exact hy.symm
    | succ i => exact ih hOthers i

theorem mapM_of_forall {g : α → Option β} {ys : List β} (h : xs.mapM f = some ys)
    (hAgree : ∀ x ∈ xs, ∀ y, f x = some y → g x = some y) : xs.mapM g = some ys := by
  induction xs generalizing ys with
  | nil => exact h
  | cons x rest ih =>
    rw [List.mapM_cons] at h ⊢
    obtain ⟨hFirst, hRest⟩ := List.forall_mem_cons.mp hAgree
    obtain ⟨y, hy, hTail⟩ := Option.bind_eq_some_iff.mp h
    obtain ⟨others, hOthers, hEnd⟩ := Option.bind_eq_some_iff.mp hTail
    rw [hFirst y hy, Option.bind_eq_bind, Option.bind_some, ih hOthers hRest]
    exact hEnd

/-- A map that may also pass an element over keeps what it finds. -/
theorem mapM_reduceOption {g : α → Option (Option β)} (h : ∀ x ∈ xs, (g x).isSome) :
    (xs.mapM g).map List.reduceOption = some (xs.filterMap fun x => (g x).join) := by
  induction xs with
  | nil => rfl
  | cons x rest ih =>
    obtain ⟨hFirst, hRest⟩ := List.forall_mem_cons.mp h
    obtain ⟨y, hy⟩ := Option.isSome_iff_exists.mp hFirst
    obtain ⟨ys, hys⟩ := mapM_isSome hRest
    have hKept := ih hRest
    rw [hys, Option.map_some, Option.some.injEq] at hKept
    rw [List.mapM_cons, hy, hys, List.filterMap_cons, hy, ← hKept]
    cases y <;> rfl

end PartialMaps
