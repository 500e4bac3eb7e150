import Robinarb.Library.Numerals
import Mathlib.Algebra.Order.Field.Basic
import Mathlib.Tactic.Linarith
import Mathlib.Tactic.Positivity
import Mathlib.Tactic.Ring

/-! # Newton's step on a cubic with an inexact slope

The curve `a u^3 + b u` bends upwards, so a step along its tangent lands above it. A step
along a slope that is up to `e` too flat lands above it less what `e` costs.
-/

namespace CubicNewton

open scoped Numerals

variable {K : Type*} [Field K]

def level (a b u : K) : K := a * u ^ 3 + b * u

def tangent (a b u : K) : K := 3 * a * u ^ 2 + b

theorem level_sub (a b u q : K) :
    level a b (u - q) = level a b u - tangent a b u * q + a * q ^ 2 * (3 * u - q) := by
  unfold level tangent
  ring

theorem level_add (a b u q : K) :
    level a b (u + q) = level a b u + tangent a b u * q + a * q ^ 2 * (3 * u + q) := by
  unfold level tangent
  ring

variable [LinearOrder K] [IsStrictOrderedRing K] {a b u q s e : K}

theorem level_mono (ha : 0 ≤ a) (hb : 0 ≤ b) {w : K} (hu : 0 ≤ u) (hw : u ≤ w) : level a b u ≤ level a b w := by
  unfold level
  gcongr

/-- Where a step down lands. -/
theorem step_down {n : K} (ha : 0 ≤ a) (hq : 0 ≤ q) (hqu : q ≤ u) (hSlope : tangent a b u ≤ s + e) (hStep : s * q ≤ n) :
    level a b u - n - (e * q - 2 * a * u * q ^ 2) ≤ level a b (u - q) := by
  have hTangent : tangent a b u * q ≤ n + e * q := by
    have hWide := mul_le_mul_of_nonneg_right hSlope hq
    linarith
  have hBend : 2 * a * u * q ^ 2 ≤ a * q ^ 2 * (3 * u - q) := by
    have hFree : 0 ≤ a * q ^ 2 * (u - q) := mul_nonneg (mul_nonneg ha (sq_nonneg q)) (sub_nonneg.mpr hqu)
    linarith
  rw [level_sub]
  linarith

/-- What a step up, too short to use up `m`, gains. -/
theorem step_up {m : K} (hq : 0 ≤ q) (hSlope : tangent a b u ≤ s + e) (hStep : s * q < m) :
    level a b (u + q) < level a b u + m + e * q + a * q ^ 2 * (3 * u + q) := by
  have hTangent : tangent a b u * q < m + e * q := by
    have hWide := mul_le_mul_of_nonneg_right hSlope hq
    linarith
  rw [level_add]
  linarith

/-- The cost of a slope that is too flat, against what the bend gives back. -/
theorem cost_le {r : K} (h : e ^ 2 ≤ 8 * (a * u) * r) (hau : 0 < a * u) : e * q - 2 * a * u * q ^ 2 ≤ r := by
  have hSquare : 0 ≤ (e - 4 * (a * u) * q) ^ 2 := sq_nonneg _
  have hScaled : 8 * (a * u) * (e * q - 2 * a * u * q ^ 2) ≤ 8 * (a * u) * r := by linarith
  exact le_of_mul_le_mul_left hScaled (by positivity)

end CubicNewton
