import Mathlib.Data.List.Basic

/-! # Ranges in pieces

An interval of numbers cut into chunks of a size, or halved again and again.
-/

namespace RangeChunks

def span (r : Nat × Nat) : List Nat := List.range' r.1 (r.2 + 1 - r.1)

theorem span_append {first mid last : Nat} (hFirst : first ≤ mid + 1) (hLast : mid ≤ last) :
    span (first, mid) ++ span (mid + 1, last) = span (first, last) := by
  have hMid : mid + 1 = first + (mid + 1 - first) := by omega
  have hSize : last + 1 - first = (mid + 1 - first) + (last + 1 - (mid + 1)) := by omega
  unfold span
  dsimp only
  rw [hSize, ← List.range'_append_1, ← hMid]

def chunks (size first last : Nat) : List (Nat × Nat) :=
  if first ≤ last ∧ 0 < size then
    (first, min (first + size - 1) last) :: chunks size (min (first + size - 1) last + 1) last
  else []
termination_by last + 1 - first

/-- One chunk after the other, every number of the interval once. -/
theorem chunks_cover {size : Nat} (hSize : 0 < size) (first last : Nat) :
    (chunks size first last).flatMap span = span (first, last) := by
  induction first using chunks.induct size last with
  | case1 first h ih =>
    rw [chunks, if_pos h, List.flatMap_cons, ih]
    exact span_append (by omega) (by omega)
  | case2 first h =>
    rw [chunks, if_neg h, span, Nat.sub_eq_zero_of_le (by dsimp only; omega)]
    rfl

theorem chunks_within {size first last : Nat} {r : Nat × Nat} (hMem : r ∈ chunks size first last) :
    first ≤ r.1 ∧ r.1 ≤ r.2 ∧ r.2 ≤ last := by
  induction first using chunks.induct size last with
  | case1 first h ih =>
    rw [chunks, if_pos h] at hMem
    rcases List.mem_cons.mp hMem with rfl | hRest
    · dsimp only
      omega
    · have hIn := ih hRest
      omega
  | case2 first h =>
    rw [chunks, if_neg h] at hMem
    cases hMem

theorem chunks_length_le (size first last : Nat) : (chunks size first last).length ≤ last + 1 - first := by
  induction first using chunks.induct size last with
  | case1 first h ih =>
    rw [chunks, if_pos h, List.length_cons]
    omega
  | case2 first h =>
    rw [chunks, if_neg h]
    exact Nat.zero_le _

/-- The intervals that halving reaches: an interval of one number is not cut. -/
inductive Bisects : Nat × Nat → Nat × Nat → Prop where
  | whole (r : Nat × Nat) : Bisects r r
  | left {first last : Nat} {r : Nat × Nat} (h : first < last) :
      Bisects (first, first + (last - first) / 2) r → Bisects (first, last) r
  | right {first last : Nat} {r : Nat × Nat} (h : first < last) :
      Bisects (first + (last - first) / 2 + 1, last) r → Bisects (first, last) r

theorem Bisects.within {whole r : Nat × Nat} (h : Bisects whole r) (hWhole : whole.1 ≤ whole.2) :
    whole.1 ≤ r.1 ∧ r.1 ≤ r.2 ∧ r.2 ≤ whole.2 := by
  induction h with
  | whole r => exact ⟨Nat.le_refl _, hWhole, Nat.le_refl _⟩
  | left h _ ih =>
    have hIn := ih (by dsimp only; omega)
    dsimp only at hIn ⊢
    omega
  | right h _ ih =>
    have hIn := ih (by dsimp only; omega)
    dsimp only at hIn ⊢
    omega

/-- An interval around a number of the left half is the whole or comes from that half. -/
theorem Bisects.of_left {first last block : Nat} {r : Nat × Nat} (h : Bisects (first, last) r)
    (hBlock : block ≤ first + (last - first) / 2) (hLow : r.1 ≤ block) :
    r = (first, last) ∨ Bisects (first, first + (last - first) / 2) r := by
  cases h with
  | whole => exact .inl rfl
  | left _ hLeft => exact .inr hLeft
  | right hLt hRight =>
    have hIn := hRight.within (by dsimp only; omega)
    dsimp only at hIn
    omega

theorem Bisects.of_right {first last block : Nat} {r : Nat × Nat} (h : Bisects (first, last) r)
    (hBlock : first + (last - first) / 2 < block) (hHigh : block ≤ r.2) :
    r = (first, last) ∨ Bisects (first + (last - first) / 2 + 1, last) r := by
  cases h with
  | whole => exact .inl rfl
  | left hLt hLeft =>
    have hIn := hLeft.within (by dsimp only; omega)
    dsimp only at hIn
    omega
  | right _ hRight => exact .inr hRight

theorem Bisects.of_single {block : Nat} {r : Nat × Nat} (h : Bisects (block, block) r) : r = (block, block) := by
  cases h with
  | whole => rfl
  | left h => exact absurd h (Nat.lt_irrefl block)
  | right h => exact absurd h (Nat.lt_irrefl block)

end RangeChunks
