import Mathlib.Data.List.Basic
import Mathlib.Data.List.Pairwise

/-! # The first match of a scan

A scan tries the elements of a list in turn until one of them gives a result. A step may
also fail, and that ends the scan. Over a list in some order, what a scan ends with is the
result of the least element that gives one.
-/

namespace FirstMatch

universe u v

variable {α β γ : Type u} {ε : Type v}

/-- A bind that succeeds is a success and one more behind it. -/
theorem bind_eq_ok {x : Except ε α} {f : α → Except ε β} {r : β} :
    (x >>= f) = .ok r ↔ ∃ a, x = .ok a ∧ f a = .ok r := by
  cases x with
  | error e =>
    constructor
    · rintro ⟨⟩
    · rintro ⟨a, ⟨⟩, -⟩
  | ok a =>
    constructor
    · exact fun h => ⟨a, rfl, h⟩
    · rintro ⟨a, ⟨⟩, h⟩
      exact h

variable (f : α → Except ε (Option β))

def first : List α → Except ε (Option β)
  | [] => .ok none
  | x :: rest => do
    match ← f x with
    | some y => return some y
    | none => first rest

variable {f} {xs : List α}

theorem first_cons_of_some {x : α} {y : β} (h : f x = .ok (some y)) (rest : List α) : first f (x :: rest) = .ok (some y) := by
  rw [first, h]
  rfl

theorem first_cons_of_none {x : α} (h : f x = .ok none) (rest : List α) : first f (x :: rest) = first f rest := by
  rw [first, h]
  rfl

theorem first_eq_none_iff : first f xs = .ok none ↔ ∀ x ∈ xs, f x = .ok none := by
  induction xs with
  | nil => exact ⟨fun _ x hx => absurd hx List.not_mem_nil, fun _ => rfl⟩
  | cons x rest ih =>
    rw [List.forall_mem_cons]
    constructor
    · intro h
      obtain ⟨found, hFound, hRest⟩ := bind_eq_ok.mp h
      cases found with
      | some y => cases hRest
      | none => exact ⟨hFound, ih.mp hRest⟩
    · rintro ⟨hFirst, hRest⟩
      rw [first_cons_of_none hFirst]
      exact ih.mpr hRest

/-- In any list, the result is that of an element behind others that gave none. -/
theorem first_eq_some_iff_append {y : β} : first f xs = .ok (some y) ↔
    ∃ passed x rest, xs = passed ++ x :: rest ∧ f x = .ok (some y) ∧ ∀ z ∈ passed, f z = .ok none := by
  induction xs with
  | nil =>
    constructor
    · rintro ⟨⟩
    · rintro ⟨passed, x, rest, hSplit, -⟩
      cases passed <;> cases hSplit
  | cons x rest ih =>
    constructor
    · intro h
      obtain ⟨found, hFound, hRest⟩ := bind_eq_ok.mp h
      cases found with
      | some here =>
        cases hRest
        exact ⟨[], x, rest, rfl, hFound, fun z hz => absurd hz List.not_mem_nil⟩
      | none =>
        obtain ⟨passed, found, after, rfl, hHere, hPassed⟩ := ih.mp hRest
        exact ⟨x :: passed, found, after, rfl, hHere, List.forall_mem_cons.mpr ⟨hFound, hPassed⟩⟩
    · rintro ⟨passed, found, after, hSplit, hHere, hPassed⟩
      cases passed with
      | nil =>
        cases hSplit
        exact first_cons_of_some hHere rest
      | cons z passed =>
        cases hSplit
        obtain ⟨hFirst, hOthers⟩ := List.forall_mem_cons.mp hPassed
        rw [first_cons_of_none hFirst]
        exact ih.mpr ⟨passed, found, after, rfl, hHere, hOthers⟩

/-- Over a list in some order, the result is that of the least element that gives one. -/
theorem first_eq_some_iff {r : α → α → Prop} [Std.Irrefl r] [Std.Asymm r] (hSorted : xs.Pairwise r) {y : β} :
    first f xs = .ok (some y) ↔ ∃ x ∈ xs, f x = .ok (some y) ∧ ∀ z ∈ xs, r z x → f z = .ok none := by
  rw [first_eq_some_iff_append]
  constructor
  · rintro ⟨passed, x, rest, rfl, hHere, hPassed⟩
    obtain ⟨-, hTail, -⟩ := List.pairwise_append.mp hSorted
    have hAbove := (List.pairwise_cons.mp hTail).1
    refine ⟨x, List.mem_append_right _ List.mem_cons_self, hHere, fun z hz hBefore => ?_⟩
    obtain hz | hz := List.mem_append.mp hz
    · exact hPassed z hz
    obtain rfl | hz := List.mem_cons.mp hz
    · exact absurd hBefore (Std.Irrefl.irrefl z)
    · exact absurd hBefore (Std.Asymm.asymm x z (hAbove z hz))
  · rintro ⟨x, hMem, hHere, hBefore⟩
    obtain ⟨passed, rest, rfl⟩ := List.append_of_mem hMem
    obtain ⟨-, -, hApart⟩ := List.pairwise_append.mp hSorted
    exact ⟨passed, x, rest, rfl, hHere, fun z hz =>
      hBefore z (List.mem_append_left _ hz) (hApart z hz x List.mem_cons_self)⟩

/-- A map that fails on some elements fails with the first of them. -/
theorem mapM_guarded {bad : α → Bool} {e : α → ε} {g : α → β} (xs : List α) :
    xs.mapM (fun x => if bad x then .error (e x) else .ok (g x) : α → Except ε β) =
      match xs.find? bad with
      | some x => .error (e x)
      | none => .ok (xs.map g) := by
  induction xs with
  | nil => rfl
  | cons x rest ih =>
    rw [List.mapM_cons, List.find?_cons]
    cases hBad : bad x with
    | true =>
      simp only [if_true]
      rfl
    | false =>
      simp only [Bool.false_eq_true, if_false]
      rw [ih]
      cases rest.find? bad <;> rfl

section Indices

variable (check : Nat → Except ε Bool)

def index (n : Nat) : Except ε (Option Nat) := do
  if ← check n then return some n else return none

/-- The first index below a bound where the check holds; before it the check comes out false. -/
structure Least (bound n : Nat) : Prop where
  inside : n < bound
  holds : check n = .ok true
  before : ∀ m < n, check m = .ok false

variable {check} {bound n : Nat}

theorem index_eq_some_iff {m : Nat} : index check m = .ok (some n) ↔ check n = .ok true ∧ m = n := by
  rw [index, bind_eq_ok]
  constructor
  · rintro ⟨_ | _, hCheck, ⟨⟩⟩
    exact ⟨hCheck, rfl⟩
  · rintro ⟨hCheck, rfl⟩
    exact ⟨true, hCheck, rfl⟩

theorem index_eq_none_iff : index check n = .ok none ↔ check n = .ok false := by
  rw [index, bind_eq_ok]
  constructor
  · rintro ⟨_ | _, hCheck, ⟨⟩⟩
    exact hCheck
  · exact fun hCheck => ⟨false, hCheck, rfl⟩

theorem first_index_iff : first (index check) (List.range bound) = .ok (some n) ↔ Least check bound n := by
  rw [first_eq_some_iff List.pairwise_lt_range]
  simp only [List.mem_range, index_eq_some_iff, index_eq_none_iff]
  constructor
  · rintro ⟨m, hBound, ⟨hCheck, rfl⟩, hBefore⟩
    exact ⟨hBound, hCheck, fun k hk => hBefore k (Nat.lt_trans hk hBound) hk⟩
  · intro h
    exact ⟨n, h.inside, ⟨h.holds, rfl⟩, fun k _ hk => h.before k hk⟩

/-- A search of a list for an index goes through the same checks. -/
theorem findIdx?_iff {xs : List β} {p : β → Bool} (hCheck : ∀ i, (hi : i < xs.length) → check i = .ok (p xs[i])) :
    xs.findIdx? p = some n ↔ Least check xs.length n := by
  rw [List.findIdx?_eq_some_iff_getElem]
  constructor
  · rintro ⟨hn, hHere, hBefore⟩
    refine ⟨hn, (hCheck n hn).trans (congrArg _ hHere), fun m hm => ?_⟩
    exact (hCheck m (Nat.lt_trans hm hn)).trans (congrArg _ (eq_false_of_ne_true (hBefore m hm)))
  · rintro ⟨hn, hHere, hBefore⟩
    refine ⟨hn, Except.ok.inj ((hCheck n hn).symm.trans hHere), fun m hm hMatch => ?_⟩
    have hEarlier := (hCheck m (Nat.lt_trans hm hn)).symm.trans (hBefore m hm)
    rw [hMatch] at hEarlier
    cases hEarlier

/-- The first entry of a list that gives a result, its place taken into account. -/
theorem findSome?_zipIdx_iff {g : α × Nat → Option β} {y : β} :
    xs.zipIdx.findSome? g = some y ↔
      ∃ i x, xs[i]? = some x ∧ g (x, i) = some y ∧ ∀ j < i, ∀ z, xs[j]? = some z → g (z, j) = none := by
  rw [List.findSome?_eq_some_iff]
  constructor
  · rintro ⟨before, ⟨x, i⟩, after, hSplit, hHere, hBefore⟩
    have hPlace : ∀ j : Nat, xs.zipIdx[j]? = (before ++ (x, i) :: after)[j]? := fun (j : Nat) => by rw [hSplit]
    simp only [List.getElem?_zipIdx, Nat.zero_add] at hPlace
    have hLength := hPlace before.length
    rw [List.getElem?_append_right (Nat.le_refl _), Nat.sub_self, List.getElem?_cons_zero] at hLength
    obtain ⟨found, hFound, hPair⟩ := Option.map_eq_some_iff.mp hLength
    obtain ⟨rfl, rfl⟩ := Prod.mk.inj hPair
    refine ⟨before.length, found, hFound, hHere, fun j hj z hz => ?_⟩
    have hAt := hPlace j
    rw [hz, Option.map_some, List.getElem?_append_left hj] at hAt
    exact hBefore _ (List.mem_of_getElem? hAt.symm)
  · rintro ⟨i, x, hx, hHere, hBefore⟩
    have hInside := (List.getElem?_eq_some_iff.mp hx).1
    have hDrop : xs.zipIdx.drop i = (x, i) :: xs.zipIdx.drop (i + 1) := by
      rw [List.drop_eq_getElem_cons (by simpa using hInside), List.getElem_zipIdx, Nat.zero_add,
        (List.getElem?_eq_some_iff.mp hx).2]
    refine ⟨xs.zipIdx.take i, (x, i), xs.zipIdx.drop (i + 1), ?_, hHere, ?_⟩
    · rw [← hDrop, List.take_append_drop]
    · rintro ⟨z, j⟩ hMem
      obtain ⟨k, hk, hGet⟩ := List.mem_take_iff_getElem.mp hMem
      rw [List.getElem_zipIdx, Nat.zero_add] at hGet
      obtain ⟨rfl, rfl⟩ := Prod.mk.inj hGet
      rw [List.length_zipIdx] at hk
      exact hBefore k (by omega) _ (List.getElem?_eq_getElem (by omega))

/-- Such a search for a result goes through the same checks, too. -/
theorem findSome?_iff {xs : List β} {g : β × Nat → Option γ} {y : γ}
    (hCheck : ∀ i, (hi : i < xs.length) → check i = .ok (g (xs[i], i)).isSome) :
    xs.zipIdx.findSome? g = some y ↔ ∃ i, Least check xs.length i ∧ ∃ x, xs[i]? = some x ∧ g (x, i) = some y := by
  rw [findSome?_zipIdx_iff]
  constructor
  · rintro ⟨i, x, hx, hHere, hBefore⟩
    obtain ⟨hi, rfl⟩ := List.getElem?_eq_some_iff.mp hx
    refine ⟨i, ⟨hi, ?_, fun m hm => ?_⟩, xs[i], hx, hHere⟩
    · rw [hCheck i hi, hHere]
      rfl
    · have hm' := Nat.lt_trans hm hi
      rw [hCheck m hm', hBefore m hm _ (List.getElem?_eq_getElem hm')]
      rfl
  · rintro ⟨i, hLeast, x, hx, hHere⟩
    refine ⟨i, x, hx, hHere, fun m hm z hz => ?_⟩
    obtain ⟨hm', rfl⟩ := List.getElem?_eq_some_iff.mp hz
    have hFalse := (hCheck m hm').symm.trans (hLeast.before m hm)
    exact Option.not_isSome_iff_eq_none.mp (Bool.eq_false_iff.mp (Except.ok.inj hFalse))

end Indices

end FirstMatch
