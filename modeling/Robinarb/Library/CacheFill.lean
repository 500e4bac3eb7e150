import Mathlib.Data.List.Basic

/-! # Filling a cache from the completions of a batch

A batch of keys is read concurrently. Its completions arrive in any order, each
with a value or without one, and every value is inserted as it arrives. The
rules say what a key holds afterwards, whatever the order and the failures.
-/

namespace CacheFill

universe u v

variable {κ : Type u} {ν : Type v} [DecidableEq κ]

abbrev Cache (κ : Type u) (ν : Type v) := κ → Option ν

/-- One completed read: `none` is a failure. -/
abbrev Completion (κ : Type u) (ν : Type v) := κ × Option ν

def insert (cache : Cache κ ν) (key : κ) (value : ν) : Cache κ ν :=
  fun other => if other = key then some value else cache other

def complete (cache : Cache κ ν) (completion : Completion κ ν) : Cache κ ν :=
  match completion.2 with
  | some value => insert cache completion.1 value
  | none => cache

def fill (cache : Cache κ ν) (completions : List (Completion κ ν)) : Cache κ ν :=
  completions.foldl complete cache

/-- Every key of the batch completes as often as it was asked for. -/
def Completes (keys : List κ) (completions : List (Completion κ ν)) : Prop :=
  (completions.map Prod.fst).Perm keys

@[simp] theorem fill_nil (cache : Cache κ ν) : fill cache [] = cache := rfl

@[simp] theorem fill_cons (cache : Cache κ ν) (completion : Completion κ ν)
    (rest : List (Completion κ ν)) : fill cache (completion :: rest) = fill (complete cache completion) rest :=
  rfl

theorem fill_append (cache : Cache κ ν) (first second : List (Completion κ ν)) :
    fill cache (first ++ second) = fill (fill cache first) second :=
  List.foldl_append

theorem complete_cases (cache : Cache κ ν) (completion : Completion κ ν) (key : κ) :
    complete cache completion key = cache key ∨
      completion.1 = key ∧ ∃ value, completion.2 = some value ∧ complete cache completion key = some value := by
  obtain ⟨target, _ | value⟩ := completion
  · exact .inl rfl
  · by_cases hKey : key = target
    · exact .inr ⟨hKey.symm, value, rfl, by simp [complete, insert, hKey]⟩
    · exact .inl (by simp [complete, insert, hKey])

theorem fill_cases (cache : Cache κ ν) (completions : List (Completion κ ν)) (key : κ) :
    fill cache completions key = cache key ∨
      ∃ value, (key, some value) ∈ completions ∧ fill cache completions key = some value := by
  induction completions generalizing cache with
  | nil => exact .inl rfl
  | cons completion rest ih =>
    obtain hSame | ⟨value, hMem, hValue⟩ := ih (complete cache completion)
    · obtain hKeep | ⟨hKey, value, hResult, hValue⟩ := complete_cases cache completion key
      · exact .inl (by rw [fill_cons, hSame, hKeep])
      · refine .inr ⟨value, ?_, by rw [fill_cons, hSame, hValue]⟩
        rw [← hKey, ← hResult]
        exact List.mem_cons_self
    · exact .inr ⟨value, List.mem_cons_of_mem _ hMem, hValue⟩

theorem fill_of_notMem {keys : List κ} {completions : List (Completion κ ν)} (h : Completes keys completions)
    {key : κ} (hKey : key ∉ keys) (cache : Cache κ ν) : fill cache completions key = cache key := by
  obtain hSame | ⟨value, hMem, _⟩ := fill_cases cache completions key
  · exact hSame
  · exact absurd (h.subset (List.mem_map_of_mem hMem)) hKey

theorem complete_isSome {cache : Cache κ ν} {key : κ} (h : (cache key).isSome)
    (completion : Completion κ ν) : (complete cache completion key).isSome := by
  obtain hSame | ⟨_, value, _, hValue⟩ := complete_cases cache completion key
  · rwa [hSame]
  · rw [hValue]
    rfl

theorem fill_isSome {cache : Cache κ ν} {key : κ} (h : (cache key).isSome)
    (completions : List (Completion κ ν)) : (fill cache completions key).isSome := by
  induction completions generalizing cache with
  | nil => exact h
  | cons completion rest ih => exact ih (complete_isSome h completion)

theorem fill_of_completed {completions : List (Completion κ ν)} {key : κ} {value : ν}
    (h : (key, some value) ∈ completions) (cache : Cache κ ν) :
    ∃ last, (key, some last) ∈ completions ∧ fill cache completions key = some last := by
  induction completions generalizing cache with
  | nil => cases h
  | cons completion rest ih =>
    obtain rfl | h := List.mem_cons.mp h
    · obtain hSame | ⟨last, hMem, hLast⟩ := fill_cases (complete cache (key, some value)) rest key
      · exact ⟨value, List.mem_cons_self, by rw [fill_cons, hSame]; simp [complete, insert]⟩
      · exact ⟨last, List.mem_cons_of_mem _ hMem, hLast⟩
    · obtain ⟨last, hMem, hLast⟩ := ih h (complete cache completion)
      exact ⟨last, List.mem_cons_of_mem _ hMem, hLast⟩

theorem fill_isSome_iff {cache : Cache κ ν} {completions : List (Completion κ ν)} {key : κ} :
    (fill cache completions key).isSome ↔ (cache key).isSome ∨ ∃ value, (key, some value) ∈ completions := by
  constructor
  · intro h
    obtain hSame | ⟨value, hMem, -⟩ := fill_cases cache completions key
    · exact .inl (hSame ▸ h)
    · exact .inr ⟨value, hMem⟩
  · rintro (h | ⟨value, hMem⟩)
    · exact fill_isSome h completions
    · obtain ⟨last, -, hLast⟩ := fill_of_completed hMem cache
      rw [hLast]
      rfl

theorem fill_of_mem {keys : List κ} {completions : List (Completion κ ν)} (h : Completes keys completions)
    (hOk : ∀ completion ∈ completions, completion.2.isSome) {key : κ} (hKey : key ∈ keys) (cache : Cache κ ν) :
    ∃ value, (key, some value) ∈ completions ∧ fill cache completions key = some value := by
  obtain ⟨⟨_, result⟩, hMem, rfl⟩ := List.mem_map.mp (h.symm.subset hKey)
  obtain ⟨value, rfl⟩ := Option.isSome_iff_exists.mp (hOk _ hMem)
  exact fill_of_completed hMem cache

section Served

variable {truth : κ → ν} {completions : List (Completion κ ν)}

/-- Entries that agree with one source keep agreeing with it when that source serves a batch. -/
theorem fill_served_keep (hServed : ∀ completion ∈ completions, completion.2 = some (truth completion.1))
    {cache : Cache κ ν} {key : κ} (h : cache key = some (truth key)) :
    fill cache completions key = some (truth key) := by
  obtain hSame | ⟨value, hMem, hValue⟩ := fill_cases cache completions key
  · rw [hSame, h]
  · rw [hValue, ← hServed _ hMem]

theorem fill_served {keys : List κ} (h : Completes keys completions)
    (hServed : ∀ completion ∈ completions, completion.2 = some (truth completion.1)) {key : κ}
    (hKey : key ∈ keys) (cache : Cache κ ν) : fill cache completions key = some (truth key) := by
  obtain ⟨value, hMem, hValue⟩ := fill_of_mem h (fun c hc => by rw [hServed c hc]; rfl) hKey cache
  rw [hValue, ← hServed _ hMem]

end Served

end CacheFill
