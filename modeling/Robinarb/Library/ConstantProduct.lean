import Mathlib.Algebra.Order.Field.Basic
import Mathlib.Data.Nat.Cast.Order.Field

/-! # Constant-product exchange

A market holds `r` of what it takes and `s` of what it gives, and keeps the product of
the two from falling. In whole units the most it can give for `a` is a floor division.
-/

namespace ConstantProduct

def out (r s a : Nat) : Nat := a * s / (r + a)

variable {r s a : Nat}

theorem out_lt (hr : 0 < r) (hs : 0 < s) : out r s a < s := by
  apply Nat.div_lt_of_lt_mul
  exact Nat.mul_lt_mul_of_pos_right (Nat.lt_add_of_pos_left hr) hs

theorem out_le (r s a : Nat) : out r s a ≤ s := by
  apply Nat.div_le_of_le_mul
  exact Nat.mul_le_mul_right s (Nat.le_add_left a r)

/-- An output is small enough for the product exactly when it is at most `out`. -/
theorem keeps_iff (hr : 0 < r) (hs : 0 < s) (o : Nat) : r * s ≤ (r + a) * (s - o) ↔ o ≤ out r s a := by
  have hWhole : (r + a) * s = r * s + a * s := Nat.add_mul r a s
  have hProduct : 0 < r * s := Nat.mul_pos hr hs
  rw [out, Nat.le_div_iff_mul_le (Nat.add_pos_left hr a), Nat.mul_sub, Nat.mul_comm o]
  omega

theorem out_mono (r s : Nat) : Monotone (out r s) := by
  intro a b hab
  rcases Nat.eq_zero_or_pos (r + a) with hNone | hPos
  · have hZero : a = 0 := (Nat.add_eq_zero_iff.mp hNone).2
    simp only [out, hZero, Nat.zero_mul, Nat.zero_div, Nat.zero_le]
  · have hPos' : 0 < r + b := Nat.lt_of_lt_of_le hPos (Nat.add_le_add_left hab r)
    apply (Nat.le_div_iff_mul_le hPos').mpr
    -- `a / (r + a)` grows with `a`
    have hCross : a * (r + b) ≤ b * (r + a) := by
      have hGrow : a * r ≤ b * r := Nat.mul_le_mul_right r hab
      rw [Nat.mul_add, Nat.mul_add, Nat.mul_comm a b]
      exact Nat.add_le_add_right hGrow _
    have hFloor : out r s a * (r + a) ≤ a * s := Nat.div_mul_le_self _ _
    apply Nat.le_of_mul_le_mul_right _ hPos
    calc out r s a * (r + b) * (r + a)
        = out r s a * (r + a) * (r + b) := Nat.mul_right_comm _ _ _
      _ ≤ a * s * (r + b) := Nat.mul_le_mul_right _ hFloor
      _ = a * (r + b) * s := Nat.mul_right_comm _ _ _
      _ ≤ b * (r + a) * s := Nat.mul_le_mul_right _ hCross
      _ = b * s * (r + a) := Nat.mul_right_comm _ _ _

section Marginal

variable {K : Type*} [Field K] [LinearOrder K] [IsStrictOrderedRing K]

theorem out_le_exact (r s a : Nat) : (out r s a : K) ≤ a * s / (r + a) := by
  have hFloor : (out r s a : K) ≤ ((a * s : Nat) : K) / ((r + a : Nat) : K) := Nat.cast_div_le
  rwa [Nat.cast_mul, Nat.cast_add] at hFloor

theorem out_le_marginal (hr : 0 < r) (s a : Nat) : (out r s a : K) ≤ a * (s / r) := by
  have hr' : (0 : K) < r := Nat.cast_pos.mpr hr
  calc (out r s a : K)
      ≤ a * s / (r + a) := out_le_exact r s a
    _ ≤ a * s / r := by
      apply div_le_div_of_nonneg_left _ hr' _
      · exact mul_nonneg (Nat.cast_nonneg a) (Nat.cast_nonneg s)
      · exact le_add_of_nonneg_right (Nat.cast_nonneg a)
    _ = a * (s / r) := mul_div_assoc _ _ _

end Marginal

end ConstantProduct
