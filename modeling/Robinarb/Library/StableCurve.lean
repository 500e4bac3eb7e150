import Robinarb.Library.Numerals
import Mathlib.Analysis.Calculus.Deriv.Add
import Mathlib.Analysis.Calculus.Deriv.Comp
import Mathlib.Analysis.Calculus.Deriv.Mul
import Mathlib.Analysis.Calculus.Deriv.Slope
import Mathlib.Analysis.Calculus.TangentCone.Real
import Mathlib.Topology.Algebra.Module.ModuleTopology
import Mathlib.Topology.Order.IntermediateValue
import Mathlib.Analysis.Normed.Group.Basic
import Mathlib.Tactic.FieldSimp
import Mathlib.Tactic.Positivity

/-! # The stable-swap curve

`x^3 y + x y^3 = k` has one root `y` for each positive `x`. From a point of the curve on,
the root falls at the rate `(3 x^2 y + y^3) / (x^3 + 3 x y^2)`.
-/

namespace StableCurve

open Set Filter Topology
open scoped Numerals

def level (x y : ℝ) : ℝ := x * x * x * y + x * y * y * y

def IsRoot (x k y : ℝ) : Prop := 0 ≤ y ∧ level x y = k

/-- What is lost of `y` when `x` grows. -/
noncomputable def marginal (x y : ℝ) : ℝ := (3 * x * x * y + y * y * y) / (x * x * x + 3 * x * y * y)

variable {x y X Y : ℝ}

theorem gap_mul (hLevel : level X Y = level x y) :
    (y - Y) * (X * X * X + X * (Y * Y + Y * y + y * y)) = (X - x) * (y * (X * X + X * x + x * x) + y * y * y) := by
  unfold level at hLevel
  linear_combination -hLevel

theorem weight_pos (hX : 0 < X) (hY : 0 ≤ Y) (hy : 0 ≤ y) : 0 < X * X * X + X * (Y * Y + Y * y + y * y) := by
  positivity

theorem root_unique (hX : 0 < X) {k : ℝ} (hY : IsRoot X k Y) (hy : IsRoot X k y) : Y = y := by
  have hGap := gap_mul (hY.2.trans hy.2.symm)
  rw [sub_self, zero_mul] at hGap
  have hZero := (mul_eq_zero.mp hGap).resolve_right (weight_pos hX hY.1 hy.1).ne'
  exact (sub_eq_zero.mp hZero).symm

theorem exists_root (hX : 0 < X) {k : ℝ} (hk : 0 ≤ k) : ∃ Y, IsRoot X k Y := by
  have hTop : 0 ≤ k / (X * X * X) := div_nonneg hk (by positivity)
  have hContinuous : ContinuousOn (level X) (Icc 0 (k / (X * X * X))) := by
    unfold level
    fun_prop
  have hLow : level X 0 = 0 := by
    unfold level
    ring
  have hHigh : k ≤ level X (k / (X * X * X)) := by
    have hCube : X * X * X * (k / (X * X * X)) = k := mul_div_cancel₀ k (by positivity)
    unfold level
    rw [hCube]
    exact le_add_of_nonneg_right (by positivity)
  obtain ⟨Y, hY, hRoot⟩ := intermediate_value_Icc hTop hContinuous (show k ∈ _ from ⟨hLow.trans_le hk, hHigh⟩)
  exact ⟨Y, hY.1, hRoot⟩

open Classical in
/-- The root, zero where there is none. -/
noncomputable def root (x k : ℝ) : ℝ := if h : ∃ y, IsRoot x k y then h.choose else 0

theorem root_isRoot (hX : 0 < X) {k : ℝ} (hk : 0 ≤ k) : IsRoot X k (root X k) := by
  unfold root
  rw [dif_pos (exists_root hX hk)]
  exact (exists_root hX hk).choose_spec

section Fall

variable {r : ℝ → ℝ} (hx : 0 < x) (hy : 0 < y) (hRoot : ∀ X, x ≤ X → IsRoot X (level x y) (r X))

include hx hy hRoot in
theorem root_start : r x = y := root_unique hx (hRoot x le_rfl) ⟨hy.le, rfl⟩

include hx hy hRoot in
theorem gap_eq (hX : x ≤ X) : y - r X = (X - x) * ((y * (X * X + X * x + x * x) + y * y * y) /
    (X * X * X + X * (r X * r X + r X * y + y * y))) := by
  have hWeight := weight_pos (hx.trans_le hX) (hRoot X hX).1 hy.le
  rw [mul_div_assoc', eq_div_iff hWeight.ne']
  exact gap_mul (hRoot X hX).2

include hx hy hRoot in
theorem root_le (hX : x ≤ X) : r X ≤ y := by
  have hPositive : 0 < X := hx.trans_le hX
  have hWeight := weight_pos hPositive (hRoot X hX).1 hy.le
  have hGap : 0 ≤ y - r X := by
    rw [gap_eq hx hy hRoot hX]
    apply mul_nonneg (sub_nonneg.mpr hX)
    exact div_nonneg (by positivity) hWeight.le
  exact sub_nonneg.mp hGap

include hx hy hRoot in
theorem root_tendsto : Tendsto r (𝓝[Ioi x] x) (𝓝 y) := by
  have hId : Tendsto (fun X : ℝ => X) (𝓝[Ioi x] x) (𝓝 x) := tendsto_id.mono_left nhdsWithin_le_nhds
  have hBound : Tendsto (fun X => (X - x) * ((y * (X * X + X * x + x * x) + y * y * y) / (X * X * X)))
      (𝓝[Ioi x] x) (𝓝 0) := by
    have hLimit := (hId.sub_const x).mul
      ((((((hId.mul hId).add (hId.mul_const x)).add_const (x * x)).const_mul y).add_const (y * y * y)).div
        ((hId.mul hId).mul hId) (by positivity))
    rwa [sub_self, zero_mul] at hLimit
  have hGap : Tendsto (fun X => y - r X) (𝓝[Ioi x] x) (𝓝 0) := by
    apply squeeze_zero' _ _ hBound
    · filter_upwards [self_mem_nhdsWithin] with X hX
      exact sub_nonneg.mpr (root_le hx hy hRoot (le_of_lt hX))
    · filter_upwards [self_mem_nhdsWithin] with X hX
      have hX : x < X := hX
      have hPositive : 0 < X := hx.trans hX
      have hNonneg := (hRoot X hX.le).1
      rw [gap_eq hx hy hRoot hX.le]
      apply mul_le_mul_of_nonneg_left _ (sub_nonneg.mpr hX.le)
      apply div_le_div_of_nonneg_left (by positivity) (by positivity)
      exact le_add_of_nonneg_right (by positivity)
  have hBack := hGap.const_sub y
  simpa using hBack

include hx hy hRoot in
theorem root_hasDeriv : HasDerivWithinAt r (-marginal x y) (Ici x) x := by
  rw [← hasDerivWithinAt_Ioi_iff_Ici, hasDerivWithinAt_iff_tendsto_slope' self_notMem_Ioi]
  have hId : Tendsto (fun X : ℝ => X) (𝓝[Ioi x] x) (𝓝 x) := tendsto_id.mono_left nhdsWithin_le_nhds
  have hr := root_tendsto hx hy hRoot
  have hWeight : x * x * x + x * (y * y + y * y + y * y) ≠ 0 := by positivity
  have hRate := ((((((hId.mul hId).add (hId.mul_const x)).add_const (x * x)).const_mul y).add_const (y * y * y)).div
    (((hId.mul hId).mul hId).add (hId.mul (((hr.mul hr).add (hr.mul_const y)).add_const (y * y)))) hWeight).neg
  have hLimit : -((y * (x * x + x * x + x * x) + y * y * y) / (x * x * x + x * (y * y + y * y + y * y))) =
      -marginal x y := by
    unfold marginal
    congr 1
    congr 1 <;> ring
  rw [hLimit] at hRate
  apply hRate.congr'
  filter_upwards [self_mem_nhdsWithin] with X hX
  have hX : x < X := hX
  have hGap := gap_eq hx hy hRoot hX.le
  rw [slope_def_field, root_start hx hy hRoot, ← neg_sub y (r X), hGap, neg_div,
    mul_div_cancel_left₀ _ (sub_pos.mpr hX).ne']
  rfl

include hx hy hRoot in
/-- What is given for `t`, of which a share `c` moves the curve. -/
theorem gain_hasDeriv {c : ℝ} (hc : 0 ≤ c) :
    HasDerivWithinAt (fun t => y - r (x + t * c)) (marginal x y * c) (Ici 0) 0 := by
  have hInner : HasDerivWithinAt (fun t => x + t * c) c (Ici 0) 0 := by
    have hLinear := ((hasDerivAt_id' (0 : ℝ)).mul_const c).const_add x
    rw [one_mul] at hLinear
    exact hLinear.hasDerivWithinAt
  have hMaps : MapsTo (fun t => x + t * c) (Ici 0) (Ici x) := by
    intro t ht
    exact le_add_of_nonneg_right (mul_nonneg ht hc)
  have hStart : x = x + 0 * c := by rw [zero_mul, add_zero]
  have hGain := ((root_hasDeriv hx hy hRoot).comp_of_eq 0 hInner hMaps hStart).const_sub y
  rw [neg_mul, neg_neg] at hGain
  exact hGain

end Fall

end StableCurve
