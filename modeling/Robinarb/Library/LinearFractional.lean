import Mathlib.Analysis.Convex.Function
import Mathlib.Tactic.FieldSimp
import Mathlib.Tactic.Linarith
import Mathlib.Tactic.Ring

/-! # Linear-fractional gain

A chain of constant-product exchanges gives `a * x / (b + c * x)` for `x`. Its gain over `x`
has one peak, at `(r - b) / c` for a root `r` of `a * b`.
-/

namespace LinearFractional

variable {K : Type*} [Field K]

def give (a b c x : K) : K := a * x / (b + c * x)

theorem give_zero (a b c : K) : give a b c 0 = 0 := by
  rw [give, mul_zero, zero_div]

theorem give_give {b₁ c₁ x : K} (h : b₁ + c₁ * x ≠ 0) (a₁ a₂ b₂ c₂ : K) :
    give a₂ b₂ c₂ (give a₁ b₁ c₁ x) = give (a₂ * a₁) (b₂ * b₁) (b₂ * c₁ + c₂ * a₁) x := by
  have hDivisor : (b₂ + c₂ * (a₁ * x / (b₁ + c₁ * x))) * (b₁ + c₁ * x) =
      b₂ * b₁ + (b₂ * c₁ + c₂ * a₁) * x := by
    rw [add_mul, mul_assoc c₂, div_mul_cancel₀ _ h]
    ring
  unfold give
  rw [← hDivisor, mul_div_assoc', div_div, mul_comm (b₁ + c₁ * x), mul_assoc a₂]

/-- The gain through the divisor: it falls with the sum of `a * b / t` and `t`. -/
theorem gain_eq {b c x : K} (h : b + c * x ≠ 0) (a : K) :
    c * (give a b c x - x) = a + b - (a * b / (b + c * x) + (b + c * x)) := by
  have hGive : c * give a b c x = a - a * b / (b + c * x) := by
    unfold give
    field_simp
    ring
  rw [mul_sub, hGive]
  ring

variable [LinearOrder K] [IsStrictOrderedRing K] {a b c r x y : K}

theorem divisor_pos (hb : 0 < b) (hc : 0 ≤ c) (hx : 0 ≤ x) : 0 < b + c * x :=
  lt_of_lt_of_le hb (le_add_of_nonneg_right (mul_nonneg hc hx))

theorem give_nonneg (ha : 0 ≤ a) (hb : 0 < b) (hc : 0 ≤ c) (hx : 0 ≤ x) : 0 ≤ give a b c x :=
  div_nonneg (mul_nonneg ha hx) (divisor_pos hb hc hx).le

theorem give_mono (ha : 0 ≤ a) (hb : 0 < b) (hc : 0 ≤ c) (hx : 0 ≤ x) (hxy : x ≤ y) :
    give a b c x ≤ give a b c y := by
  have hs := divisor_pos hb hc hx
  have ht := divisor_pos hb hc (hx.trans hxy)
  apply (div_le_div_iff₀ hs ht).mpr
  have hCross : a * b * x ≤ a * b * y := mul_le_mul_of_nonneg_left hxy (mul_nonneg ha hb.le)
  have hDifference : a * x * (b + c * y) - a * y * (b + c * x) = a * b * x - a * b * y := by ring
  linarith only [hCross, hDifference]

theorem give_le_tangent {z : K} (ha : 0 ≤ a) (hb : 0 < b) (hc : 0 ≤ c) (hx : 0 ≤ x) (hz : 0 ≤ z) :
    give a b c x ≤ give a b c z + a * b / (b + c * z) ^ 2 * (x - z) := by
  have hs := divisor_pos hb hc hx
  have ht := divisor_pos hb hc hz
  have hGap : give a b c z + a * b / (b + c * z) ^ 2 * (x - z) - give a b c x =
      a * b * c * (x - z) ^ 2 / ((b + c * z) ^ 2 * (b + c * x)) := by
    have hs' := hs.ne'
    have ht' := ht.ne'
    unfold give
    field_simp
    ring
  apply sub_nonneg.mp
  rw [hGap]
  apply div_nonneg
  · exact mul_nonneg (mul_nonneg (mul_nonneg ha hb.le) hc) (sq_nonneg _)
  · exact mul_nonneg (sq_nonneg _) hs.le

theorem give_concave (ha : 0 ≤ a) (hb : 0 < b) (hc : 0 ≤ c) : ConcaveOn K (Set.Ici 0) (give a b c) := by
  constructor
  · exact convex_Ici 0
  · intro x hx y hy u v hu hv huv
    have hz : 0 ≤ u * x + v * y := add_nonneg (mul_nonneg hu hx) (mul_nonneg hv hy)
    have hLeft := mul_le_mul_of_nonneg_left (give_le_tangent ha hb hc hx hz) hu
    have hRight := mul_le_mul_of_nonneg_left (give_le_tangent ha hb hc hy hz) hv
    -- the two tangent terms cancel at the mean
    have hMean : u * (x - (u * x + v * y)) + v * (y - (u * x + v * y)) = 0 := by
      rw [eq_sub_of_add_eq huv]
      ring
    rw [smul_eq_mul, smul_eq_mul, smul_eq_mul, smul_eq_mul]
    calc u * give a b c x + v * give a b c y
        ≤ (u + v) * give a b c (u * x + v * y) + a * b / (b + c * (u * x + v * y)) ^ 2 *
          (u * (x - (u * x + v * y)) + v * (y - (u * x + v * y))) := by linarith only [hLeft, hRight]
      _ = give a b c (u * x + v * y) := by rw [hMean, huv, mul_zero, add_zero, one_mul]

theorem give_le_self (hb : 0 < b) (hc : 0 ≤ c) (hab : a ≤ b) (hx : 0 ≤ x) : give a b c x ≤ x := by
  apply (div_le_iff₀ (divisor_pos hb hc hx)).mpr
  calc a * x ≤ b * x := mul_le_mul_of_nonneg_right hab hx
    _ ≤ x * (b + c * x) := by
      rw [mul_add, mul_comm b x]
      exact le_add_of_nonneg_right (mul_nonneg hx (mul_nonneg hc hx))

theorem balance_antitone {s t : K} (hs : 0 < s) (hst : s ≤ t) (htr : t ≤ r) : r * r / t + t ≤ r * r / s + s := by
  have ht : 0 < t := lt_of_lt_of_le hs hst
  have hDifference : r * r / s + s - (r * r / t + t) = (t - s) * (r * r - s * t) / (s * t) := by
    field_simp
    ring
  have hProduct : s * t ≤ r * r :=
    mul_le_mul (hst.trans htr) htr ht.le (ht.le.trans htr)
  apply sub_nonneg.mp
  rw [hDifference]
  exact div_nonneg (mul_nonneg (sub_nonneg.mpr hst) (sub_nonneg.mpr hProduct)) (mul_pos hs ht).le

theorem balance_monotone {s t : K} (hr : 0 < r) (hrs : r ≤ s) (hst : s ≤ t) : r * r / s + s ≤ r * r / t + t := by
  have hs : 0 < s := lt_of_lt_of_le hr hrs
  have ht : 0 < t := lt_of_lt_of_le hs hst
  have hDifference : r * r / t + t - (r * r / s + s) = (t - s) * (s * t - r * r) / (s * t) := by
    field_simp
    ring
  have hProduct : r * r ≤ s * t := mul_le_mul hrs (hrs.trans hst) hr.le hs.le
  apply sub_nonneg.mp
  rw [hDifference]
  exact div_nonneg (mul_nonneg (sub_nonneg.mpr hst) (sub_nonneg.mpr hProduct)) (mul_pos hs ht).le

def peak (r b c : K) : K := (r - b) / c

section Peak

variable (hb : 0 < b) (hc : 0 < c) (hr : 0 < r) (hRoot : r * r = a * b)

include hb hc hRoot in
theorem gain_le_of_le_peak (hx : 0 ≤ x) (hxy : x ≤ y) (hy : y ≤ peak r b c) :
    give a b c x - x ≤ give a b c y - y := by
  have hs : 0 < b + c * x := divisor_pos hb hc.le hx
  have ht : 0 < b + c * y := divisor_pos hb hc.le (hx.trans hxy)
  have hst : b + c * x ≤ b + c * y := add_le_add_right (mul_le_mul_of_nonneg_left hxy hc.le) b
  have htr : b + c * y ≤ r := by
    have hScaled : y * c ≤ r - b := (le_div_iff₀ hc).mp hy
    linarith only [hScaled, mul_comm y c]
  have hBalance := balance_antitone hs hst htr
  apply le_of_mul_le_mul_left _ hc
  rw [gain_eq hs.ne', gain_eq ht.ne', ← hRoot]
  exact sub_le_sub_left hBalance _

include hb hc hr hRoot in
theorem gain_le_of_peak_le (hx : 0 ≤ x) (hxy : x ≤ y) (hPeak : peak r b c ≤ x) :
    give a b c y - y ≤ give a b c x - x := by
  have hs : 0 < b + c * x := divisor_pos hb hc.le hx
  have ht : 0 < b + c * y := divisor_pos hb hc.le (hx.trans hxy)
  have hst : b + c * x ≤ b + c * y := add_le_add_right (mul_le_mul_of_nonneg_left hxy hc.le) b
  have hrs : r ≤ b + c * x := by
    have hScaled : r - b ≤ x * c := (div_le_iff₀ hc).mp hPeak
    linarith only [hScaled, mul_comm x c]
  have hBalance := balance_monotone hr hrs hst
  apply le_of_mul_le_mul_left _ hc
  rw [gain_eq hs.ne', gain_eq ht.ne', ← hRoot]
  exact sub_le_sub_left hBalance _

include hb hc hr hRoot in
/-- On a range the gain is largest at the point of the range next to the peak. -/
theorem gain_le_of_mem {lo hi : K} (hlo : 0 ≤ lo) (hx : lo ≤ x) (hx' : x ≤ hi) :
    give a b c x - x ≤ give a b c (max lo (min (peak r b c) hi)) - max lo (min (peak r b c) hi) := by
  rcases le_total (peak r b c) lo with hLow | hLow
  · rw [max_eq_left ((min_le_left _ _).trans hLow)]
    exact gain_le_of_peak_le hb hc hr hRoot hlo hx hLow
  · rcases le_total hi (peak r b c) with hHigh | hHigh
    · rw [min_eq_right hHigh, max_eq_right (hx.trans hx')]
      exact gain_le_of_le_peak hb hc hRoot (hlo.trans hx) hx' hHigh
    · rw [min_eq_left hHigh, max_eq_right hLow]
      rcases le_total x (peak r b c) with hSide | hSide
      · exact gain_le_of_le_peak hb hc hRoot (hlo.trans hx) hSide le_rfl
      · exact gain_le_of_peak_le hb hc hr hRoot (hlo.trans hLow) hSide le_rfl

end Peak

end LinearFractional
