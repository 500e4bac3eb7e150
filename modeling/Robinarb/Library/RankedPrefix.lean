import Mathlib.Data.List.Sort

/-! # The first few of a ranked list

A list in order of a falling key, cut after a number of elements.
-/

namespace RankedPrefix

universe u v

variable {α : Type u} {L : Type v} [LinearOrder L] (key : α → L)

def ranked (xs : List α) : List α := xs.insertionSort fun x y => key y ≤ key x

def ahead (xs : List α) (x : α) : Nat := (xs.filter fun y => decide (key x < key y)).length

theorem ranked_perm (xs : List α) : (ranked key xs).Perm xs := List.perm_insertionSort _ xs

theorem ranked_pairwise (xs : List α) : (ranked key xs).Pairwise fun x y => key y ≤ key x := by
  have hTotal : Std.Total fun x y : α => key y ≤ key x := ⟨fun x y => le_total (key y) (key x)⟩
  have hTrans : IsTrans α fun x y => key y ≤ key x := ⟨fun x y z hxy hyz => hyz.trans hxy⟩
  exact List.pairwise_insertionSort _ xs

variable {key}

theorem ahead_perm {xs ys : List α} (h : xs.Perm ys) (x : α) : ahead key xs x = ahead key ys x :=
  (h.filter _).length_eq

/-- Only the keys count. -/
theorem ahead_congr {β : Type u} {other : β → L} {xs : List α} {ys : List β} {x : α} {y : β}
    (hKeys : xs.map key = ys.map other) (hKey : key x = other y) : ahead key xs x = ahead other ys y := by
  have hCount := congrArg (fun keys => (keys.filter fun k => decide (key x < k)).length) hKeys
  simp only [List.filter_map, List.length_map] at hCount
  rw [hKey] at hCount
  unfold ahead
  rw [hKey]
  exact hCount

theorem ahead_lt_length {xs : List α} {x : α} (hMem : x ∈ xs) : ahead key xs x < xs.length := by
  apply List.length_filter_lt_length_iff_exists.mpr
  exact ⟨x, hMem, by simp⟩

theorem ahead_anti {x y : α} (h : key x ≤ key y) (xs : List α) : ahead key xs y ≤ ahead key xs x := by
  apply (List.monotone_filter_right xs _).length_le
  intro z hz
  rw [decide_eq_true_eq] at hz ⊢
  exact h.trans_lt hz

/-- An element that ties with no other is among the first few exactly when fewer are ahead. -/
theorem mem_take_ranked_iff {xs : List α} {x : α} (hMem : x ∈ xs) (hAlone : ∀ y ∈ xs, key y = key x → y = x)
    (k : Nat) : x ∈ (ranked key xs).take k ↔ ahead key xs x < k := by
  have hPerm := ranked_perm key xs
  have hSorted := ranked_pairwise key xs
  obtain ⟨before, after, hSplit, hFirst⟩ := List.eq_append_cons_of_mem (hPerm.mem_iff.mpr hMem)
  rw [hSplit, List.pairwise_append, List.pairwise_cons] at hSorted
  obtain ⟨-, ⟨hAfter, -⟩, hBefore⟩ := hSorted
  have hAhead : ahead key xs x = before.length := by
    have hLarger : ∀ y ∈ before, decide (key x < key y) = true := by
      intro y hy
      have hIn : y ∈ xs := by
        rw [← hPerm.mem_iff, hSplit]
        exact List.mem_append_left _ hy
      apply decide_eq_true
      apply lt_of_le_of_ne (hBefore y hy x List.mem_cons_self)
      intro hTie
      exact hFirst (hAlone y hIn hTie.symm ▸ hy)
    have hNone : (x :: after).filter (fun y => decide (key x < key y)) = [] := by
      apply List.filter_eq_nil_iff.mpr
      intro y hy
      rw [decide_eq_true_eq, not_lt]
      rcases List.mem_cons.mp hy with rfl | hy
      · exact le_rfl
      · exact hAfter y hy
    rw [← ahead_perm hPerm, ahead, hSplit, List.filter_append, hNone, List.append_nil,
      List.filter_eq_self.mpr hLarger]
  rw [hAhead, hSplit]
  constructor
  · intro hTake
    by_contra hLe
    rw [List.take_append_of_le_length (by omega)] at hTake
    exact hFirst (List.mem_of_mem_take hTake)
  · intro hLt
    rw [List.take_append, List.mem_append]
    right
    rw [List.take_cons (by omega)]
    exact List.mem_cons_self

/-- Of two properties that go with a higher key, one that holds of no more elements implies
the other. -/
theorem imp_of_length_le {xs : List α} {p q : α → Prop} [DecidablePred p] [DecidablePred q]
    (hp : ∀ x ∈ xs, ∀ y ∈ xs, key x ≤ key y → p x → p y) (hq : ∀ x ∈ xs, ∀ y ∈ xs, key x ≤ key y → q x → q y)
    (hLength : (xs.filter p).length ≤ (xs.filter q).length) {x : α} (hMem : x ∈ xs) (hpx : p x) : q x := by
  by_contra hqx
  have hWithin : xs.filter q = (xs.filter p).filter q := by
    rw [List.filter_filter]
    apply List.filter_congr
    intro y hy
    by_cases hqy : q y
    · rcases le_total (key x) (key y) with hLe | hLe
      · simp [hqy, hp x hMem y hy hLe hpx]
      · exact absurd (hq y hy x hMem hLe hqy) hqx
    · simp [hqy]
  have hFewer : ((xs.filter p).filter q).length < (xs.filter p).length :=
    List.length_filter_lt_length_iff_exists.mpr ⟨x, List.mem_filter.mpr ⟨hMem, by simpa using hpx⟩, by simpa using hqx⟩
  rw [← hWithin] at hFewer
  omega

/-- Ties among the first few do not matter to who is ahead of them. -/
theorem ahead_lt_of_mem_take {xs : List α} {x : α} {k : Nat} (hMem : x ∈ (ranked key xs).take k) :
    ahead key xs x < k := by
  have hPerm := ranked_perm key xs
  have hSorted := ranked_pairwise key xs
  rw [← List.take_append_drop k (ranked key xs), List.pairwise_append] at hSorted
  obtain ⟨-, -, hRest⟩ := hSorted
  have hNone : ((ranked key xs).drop k).filter (fun y => decide (key x < key y)) = [] := by
    apply List.filter_eq_nil_iff.mpr
    intro y hy
    rw [decide_eq_true_eq, not_lt]
    exact hRest x hMem y hy
  rw [← ahead_perm hPerm, ahead, ← List.take_append_drop k (ranked key xs), List.filter_append, hNone, List.append_nil]
  have hFewer : (((ranked key xs).take k).filter fun y => decide (key x < key y)).length < ((ranked key xs).take k).length :=
    List.length_filter_lt_length_iff_exists.mpr ⟨x, hMem, by simp⟩
  exact hFewer.trans_le (List.length_take_le k _)

/-- An element is among the first few when no more than that many are as high. -/
theorem mem_take_ranked_of_le {xs : List α} {x : α} (hMem : x ∈ xs) {k : Nat}
    (hFew : (xs.filter fun y => decide (key x ≤ key y)).length ≤ k) : x ∈ (ranked key xs).take k := by
  have hPerm := ranked_perm key xs
  have hSorted := ranked_pairwise key xs
  rw [← (hPerm.filter _).length_eq] at hFew
  obtain ⟨before, after, hSplit⟩ := List.append_of_mem (hPerm.mem_iff.mpr hMem)
  rw [hSplit] at hFew hSorted ⊢
  have hAll : before.filter (fun y => decide (key x ≤ key y)) = before := by
    apply List.filter_eq_self.mpr
    intro y hy
    exact decide_eq_true ((List.pairwise_append.mp hSorted).2.2 y hy x List.mem_cons_self)
  rw [List.filter_append, hAll, List.length_append, List.filter_cons_of_pos (by simp), List.length_cons] at hFew
  rw [List.take_append, List.mem_append]
  right
  rw [List.take_cons (by omega)]
  exact List.mem_cons_self

end RankedPrefix
