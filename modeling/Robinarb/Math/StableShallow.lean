import Mathlib.Tactic.IntervalCases
import Robinarb.Math.StableSolver

/-! # The solver of a shallow stable pool

Below two tokens on the side that is paid, the roundings can outweigh a step. A target
eight units or more below the start leaves them room: no pass rises back to it.
-/

namespace Robinarb.AeroStable

open CubicNewton

theorem bend_le {G r c m : ℝ} (hG : 0 ≤ G) (hr : 0 ≤ r) (hc : 0 < c) (h : (2 * G + c) * r < m) :
    8 * c * (G * r ^ 2) ≤ m ^ 2 := by
  have hUsed : 0 ≤ (2 * G + c) * r := by positivity
  have hMean : 8 * c * G ≤ (2 * G + c) ^ 2 := by linarith only [sq_nonneg (2 * G - c)]
  calc 8 * c * (G * r ^ 2) = 8 * c * G * r ^ 2 := by ring
    _ ≤ (2 * G + c) ^ 2 * r ^ 2 := by gcongr
    _ = ((2 * G + c) * r) ^ 2 := by ring
    _ ≤ m ^ 2 := pow_le_pow_left₀ hUsed h.le 2

section Thin

variable {X t v u r D : ℝ} {m : ℕ} (hv : 0 ≤ v) (hThin : v < 2) (hu : 0 < u) (ht : 0 ≤ t) (hr : 0 ≤ r)
  (hm : 1 ≤ m) (hMissing : (m : ℝ) < 15 / 7 + v + v * u) (hLevel : (m : ℝ) - 1 / 7 ≤ level X t u)
  (hSlope : tangent X t u ≤ D + (3 * v + 1)) (hShort : D * (r * u) < m)

include hu hr hSlope hShort in
theorem share_lt : (3 * (X * u ^ 3) + t * u - (3 * v + 1) * u) * r < m := by
  have hFlat := mul_le_mul_of_nonneg_right hSlope (mul_nonneg hr hu.le)
  unfold tangent at hFlat
  linarith

include hv hThin hu hr hm hMissing hLevel hSlope hShort in
theorem budget_low (hX : 0 ≤ X) (hLow : u ≤ 1 / 100) :
    2 + v + v * u + (3 * v + 1) * (r * u) + X * u ^ 3 * (r ^ 2 * (3 + r)) ≤ 8 := by
  have hCube : 0 ≤ X * u ^ 3 := by positivity
  have hBound : v * u ≤ 2 / 100 := by nlinarith only [hv, hThin, hu, hLow]
  have hCost : (3 * v + 1) * u ≤ 7 / 100 := by nlinarith only [hv, hThin, hu, hLow]
  have hFour : m ≤ 4 := by
    have hFive : (m : ℝ) < (5 : ℕ) := by
      push_cast
      linarith only [hMissing, hBound, hThin]
    exact Nat.lt_succ_iff.mp (Nat.cast_lt.mp hFive)
  have hOne : (1 : ℝ) ≤ m := by exact_mod_cast hm
  have hMove : (2 * (X * u ^ 3) + (m - 3 / 14)) * r < m := by
    have hShare := share_lt hu hr hSlope hShort
    have hLess : 2 * (X * u ^ 3) + (m - 3 / 14) ≤ 3 * (X * u ^ 3) + t * u - (3 * v + 1) * u := by
      unfold level at hLevel
      linarith only [hLevel, hCost]
    exact (mul_le_mul_of_nonneg_right hLess hr).trans_lt hShare
  have hRatio : r ≤ 13 / 10 := by
    have hPart : (m - 3 / 14) * r < m := by nlinarith only [hMove, mul_nonneg hCube hr]
    by_contra hMore
    nlinarith only [hPart, hMore, hOne]
  have hBend : X * u ^ 3 * r ^ 2 ≤ 6 / 10 := by
    have hMean := bend_le hCube hr (by linarith only [hOne]) hMove
    interval_cases m <;> norm_num at hMean <;> linarith only [hMean]
  have hCubic : X * u ^ 3 * (r ^ 2 * (3 + r)) ≤ 6 / 10 * (3 + r) := by
    rw [← mul_assoc]
    exact mul_le_mul_of_nonneg_right hBend (by linarith only [hr])
  have hLinear : (3 * v + 1) * (r * u) ≤ 7 / 100 * r := by
    rw [mul_comm r, ← mul_assoc]
    exact mul_le_mul_of_nonneg_right hCost hr
  linarith only [hCubic, hLinear, hRatio, hBound, hThin]

include hu hr hShort in
theorem cube_share_lt {c : ℝ} (hRate : c * (X * u ^ 2) ≤ D) : c * (X * u ^ 2) * (r * u) < m :=
  (mul_le_mul_of_nonneg_right hRate (mul_nonneg hr hu.le)).trans_lt hShort

theorem cube_rate_lt {c : ℝ} (hX : X = 10 ^ 18 * v) (hc : 0 ≤ c * (X * u ^ 2)) (hOne : 1 / 10 ^ 18 ≤ r * u)
    (hShare : c * (X * u ^ 2) * (r * u) < m) : c * (v * u ^ 2) < m := by
  have hUnit := mul_le_mul_of_nonneg_left hOne hc
  subst hX
  linarith only [hUnit, hShare]

include hThin hu ht hr hMissing hSlope hShort in
theorem budget_high (hX : X = 10 ^ 18 * v) (hWide : 10 ^ 12 ≤ X) (hHigh : 1 / 100 < u) (hOne : 1 / 10 ^ 18 ≤ r * u) :
    2 + v + v * u + (3 * v + 1) * (r * u) + X * u ^ 3 * (r ^ 2 * (3 + r)) ≤ 8 := by
  have hSquare : 10 ^ 8 ≤ X * u ^ 2 := by nlinarith only [hWide, hHigh]
  have hRate : 29 / 10 * (X * u ^ 2) ≤ D := by
    unfold tangent at hSlope
    linarith only [hSlope, hSquare, ht, hThin]
  have hShare := cube_share_lt hu hr hShort hRate
  have hLimit := cube_rate_lt hX (by linarith only [hSquare]) hOne hShare
  have hBound : v * u ≤ 7 / 2 := by
    by_contra hMore
    push Not at hMore
    have hTall : 7 / 4 ≤ u := by nlinarith only [hMore, hThin, hu]
    nlinarith only [hLimit, hMissing, hMore, hTall, hThin]
  have hEight : (m : ℝ) < 8 := by linarith only [hMissing, hBound, hThin]
  have hGap : r * u ≤ 1 / 10 ^ 7 := by
    have hUsed := mul_le_mul_of_nonneg_right hSquare (mul_nonneg hr hu.le)
    linarith only [hUsed, hShare, hEight]
  have hRatio : r ≤ 1 / 10 ^ 5 := by nlinarith only [hGap, hHigh, hr]
  have hUsed : X * u ^ 2 * (r * u) ≤ 3 := by linarith only [hShare, hEight]
  have hCubic : X * u ^ 3 * (r ^ 2 * (3 + r)) ≤ 3 * ((3 + r) * r) := by
    calc X * u ^ 3 * (r ^ 2 * (3 + r)) = X * u ^ 2 * (r * u) * ((3 + r) * r) := by ring
      _ ≤ 3 * ((3 + r) * r) := by gcongr
  nlinarith only [hCubic, hRatio, hr, hGap, hBound, hThin]

include hu hr hm hMissing hLevel hSlope hShort in
theorem budget_dust (hX : X = 10 ^ 18 * v) (hSome : 1 ≤ X) (hNone : t = 0) (hDust : v ≤ 1 / 10 ^ 6)
    (hOne : 1 / 10 ^ 18 ≤ r * u) :
    2 + v + v * u + (3 * v + 1) * (r * u) + X * u ^ 3 * (r ^ 2 * (3 + r)) ≤ 8 := by
  subst hNone
  have hUnit : (1 : ℝ) ≤ m := by exact_mod_cast hm
  have hCube : m - 1 / 7 ≤ X * u ^ 3 := by
    unfold level at hLevel
    linarith only [hLevel]
  have hSquare : 6 / 7 ≤ X * u ^ 2 := by
    rcases le_or_gt u 1 with hLow | hHigh
    · have hLess : X * u ^ 3 ≤ X * u ^ 2 := by
        apply mul_le_mul_of_nonneg_left _ (by linarith only [hSome])
        exact pow_le_pow_of_le_one hu.le hLow (by norm_num)
      linarith only [hCube, hLess, hUnit]
    · nlinarith only [hSome, hHigh]
  have hRate : 18 / 10 * (X * u ^ 2) ≤ D := by
    unfold tangent at hSlope
    linarith only [hSlope, hSquare, hDust]
  have hShare := cube_share_lt hu hr hShort hRate
  have hLimit := cube_rate_lt hX (by linarith only [hSquare]) hOne hShare
  have hBound : v * u ≤ 1 / 100 := by
    by_contra hMore
    push Not at hMore
    have hTall : 10 ^ 4 ≤ u := by nlinarith only [hMore, hDust, hu]
    nlinarith only [hLimit, hMissing, hMore, hTall, hDust]
  have hTwo : m ≤ 2 := by
    have hThree : (m : ℝ) < (3 : ℕ) := by
      push_cast
      linarith only [hMissing, hBound, hDust]
    exact Nat.lt_succ_iff.mp (Nat.cast_lt.mp hThree)
  have hTwo : (m : ℝ) ≤ 2 := by exact_mod_cast hTwo
  have hUsed : X * u ^ 3 * r ≤ m / (18 / 10) := by linarith only [hShare]
  have hRatio : r ≤ 7 / 10 := by
    by_contra hMore
    nlinarith only [hUsed, hMore, hCube, hUnit]
  have hGap : r * u ≤ 14 / 10 := by nlinarith only [hShare, hSquare, hTwo, hr, hu, mul_nonneg hr hu.le]
  have hCubic : X * u ^ 3 * (r ^ 2 * (3 + r)) ≤ m / (18 / 10) * (r * (3 + r)) := by
    calc X * u ^ 3 * (r ^ 2 * (3 + r)) = X * u ^ 3 * r * (r * (3 + r)) := by ring
      _ ≤ m / (18 / 10) * (r * (3 + r)) := by gcongr
  nlinarith only [hCubic, hTwo, hRatio, hr, hGap, hBound, hDust, hUnit, mul_nonneg hr hu.le]

end Thin

section Dust

theorem cubeExact_dust {x : Nat} (h : x < 10 ^ 12) : cubeExact x = 0 := by
  have hSquare : x * x / 10 ^ 18 ≤ 10 ^ 6 := by
    apply Nat.div_le_of_le_mul
    calc x * x ≤ 10 ^ 12 * 10 ^ 12 := Nat.mul_le_mul h.le h.le
      _ = 10 ^ 18 * 10 ^ 6 := by norm_num
  apply Nat.div_eq_of_lt
  calc x * x / 10 ^ 18 * x ≤ 10 ^ 6 * x := Nat.mul_le_mul_right x hSquare
    _ < 10 ^ 6 * 10 ^ 12 := Nat.mul_lt_mul_of_pos_left h (by norm_num)
    _ = 10 ^ 18 := by norm_num

theorem units_dust {x : Nat} (h : x < 10 ^ 12) : units x ≤ 1 / 10 ^ 6 := by
  have hx := units_le h.le
  unfold units at hx ⊢
  push_cast at hx
  linarith only [hx]

theorem fExact_dust {x : Nat} (h : x < 10 ^ 12) (y : Nat) : fExact x y = x * cubeExact y / 10 ^ 18 := by
  unfold fExact
  rw [cubeExact_dust h, Nat.zero_mul, Nat.zero_div, Nat.add_zero]

theorem dExact_dust {x : Nat} (h : x < 10 ^ 12) (y : Nat) : dExact x y = 3 * x * (y * y / 10 ^ 18) / 10 ^ 18 := by
  unfold dExact
  rw [cubeExact_dust h, Nat.add_zero]

theorem fExact_dust_le {x : Nat} (h : x < 10 ^ 12) (y : Nat) :
    (fExact x y : ℝ) ≤ units x * (y * y / 10 ^ 18 : Nat) * units y := by
  have hCube : (cubeExact y : ℝ) ≤ (y * y / 10 ^ 18 : Nat) * units y := (scaled_le _).trans_eq (units_mul _ _)
  have hProduct : (fExact x y : ℝ) ≤ units x * cubeExact y := by
    rw [fExact_dust h, mul_comm x, mul_comm (units x)]
    exact (scaled_le _).trans_eq (units_mul _ _)
  refine hProduct.trans ?_
  rw [mul_assoc]
  exact mul_le_mul_of_nonneg_left hCube (units_nonneg x)

/-- A pass down that starts with a slope of three or more leaves one. -/
theorem slope_left {z w D : ℝ} (hz : 3 ≤ z) (hzD : z < D + 1) (hDz : D ≤ z) (hWhole : D = 3 ∨ 4 ≤ D)
    (hw : w * (3 * D) ≤ z) : 12 / 10 ≤ z * (1 - w) ^ 2 := by
  obtain rfl | hFour := hWhole
  · have hKept : 1 - z / 9 ≤ 1 - w := by linarith
    have hSquare : (1 - z / 9) ^ 2 ≤ (1 - w) ^ 2 := pow_le_pow_left₀ (by linarith) hKept 2
    have hLeft : 12 / 10 ≤ z * (1 - z / 9) ^ 2 := by nlinarith [mul_nonneg (sub_nonneg.mpr hz) (sub_nonneg.mpr hzD.le)]
    exact hLeft.trans (mul_le_mul_of_nonneg_left hSquare (by linarith))
  · have hKept : 7 / 12 ≤ 1 - w := by nlinarith
    have hSquare : (7 / 12) ^ 2 ≤ (1 - w) ^ 2 := pow_le_pow_left₀ (by norm_num) hKept 2
    nlinarith

theorem dust_slope {x xy y : Nat} (hDust : x < 10 ^ 12) (h : xy ≤ fExact x y) (hSome : fExact x y ≠ 0) :
    dExact x (stepExact x xy y) ≠ 0 := by
  have hd := dExact_dust hDust y
  have hWeight := weight_ge (fExact_dust hDust y ▸ hSome)
  have hThree : 3 ≤ dExact x y := by
    rw [hd, Nat.le_div_iff_mul_le (by decide), mul_assoc]
    exact Nat.mul_le_mul_left 3 hWeight
  have hWhole : (dExact x y : ℝ) = 3 ∨ 4 ≤ (dExact x y : ℝ) := by
    rcases hThree.eq_or_lt with hEq | hLess
    · left
      exact_mod_cast hEq.symm
    · right
      exact_mod_cast hLess
  have hLow : (dExact x y : ℝ) ≤ 3 * (units x * (y * y / 10 ^ 18 : Nat)) := by
    rw [hd, ← units_triple]
    exact scaled_le _
  have hHigh : 3 * (units x * (y * y / 10 ^ 18 : Nat)) < (dExact x y : ℝ) + 1 := by
    rw [hd, ← units_triple]
    exact units_lt_scaled _
  have hValue := fExact_dust_le hDust y
  have hOne : (1 : ℝ) ≤ fExact x y := by exact_mod_cast Nat.one_le_iff_ne_zero.mpr hSome
  obtain ⟨q, hq, hWithin, hLands, hMove⟩ := step_units h
  have hu : 0 < units y := by
    rcases (units_nonneg y).eq_or_lt with hZero | hPos
    · rw [← hZero, mul_zero] at hValue
      linarith only [hOne, hValue]
    · exact hPos
  have hShare : q / units y * (3 * dExact x y) ≤ 3 * (units x * (y * y / 10 ^ 18 : Nat)) := by
    rw [div_mul_eq_mul_div, div_le_iff₀ hu]
    have hTarget : (0 : ℝ) ≤ xy := Nat.cast_nonneg xy
    linarith only [hMove, hValue, hTarget]
  have hWeightLow : 3 ≤ 3 * (units x * (y * y / 10 ^ 18 : Nat)) := by
    have hCast : (3 : ℝ) ≤ dExact x y := by exact_mod_cast hThree
    exact hCast.trans hLow
  have hLeft := slope_left hWeightLow hHigh hLow hWhole hShare
  have hSquare : units x * (y * y / 10 ^ 18 : Nat) * (1 - q / units y) ^ 2 ≤ x * (units y - q) ^ 2 := by
    have hRatio : units y - q = units y * (1 - q / units y) := by
      field_simp
    have hFull : units x * (y * y / 10 ^ 18 : Nat) ≤ x * units y ^ 2 := by
      calc units x * (y * y / 10 ^ 18 : Nat) ≤ units x * (y * units y) :=
            mul_le_mul_of_nonneg_left (square_le y) (units_nonneg x)
        _ = x * units y ^ 2 := by
          unfold units
          ring
    rw [hRatio, mul_pow, ← mul_assoc]
    exact mul_le_mul_of_nonneg_right hFull (sq_nonneg _)
  have hSlope := d_gt x (stepExact x xy y)
  have hSmall := units_dust hDust
  rw [hLands, cubeExact_dust hDust] at hSlope
  unfold tangent at hSlope
  push_cast at hSlope
  intro hNone
  rw [hNone] at hSlope
  push_cast at hSlope
  linarith only [hSlope, hSmall, hSquare, hLeft]

end Dust

section Shallow

variable {x y y0 xy : Nat}

theorem units_shallow (h : x < 2 * 10 ^ 18) : units x < 2 := by
  have hx : (x : ℝ) < 2 * 10 ^ 18 := by exact_mod_cast h
  unfold units
  rw [div_lt_iff₀ (by positivity)]
  exact hx

theorem pos_of_value (h : fExact x y ≠ 0) : 1 ≤ x := by
  rcases Nat.eq_zero_or_pos x with rfl | hPos
  · refine absurd ?_ h
    unfold fExact cubeExact
    simp only [Nat.zero_mul, Nat.zero_div, Nat.add_zero]
  · exact hPos

theorem weight_of_level {X u : ℝ} (hX : 1 ≤ X) (hu : 0 ≤ u) (h : 1 ≤ X * u ^ 3) : 1 ≤ X * u := by
  rcases le_or_gt u 1 with hLow | hHigh
  · apply h.trans
    apply mul_le_mul_of_nonneg_left _ (zero_le_one.trans hX)
    calc u ^ 3 ≤ u ^ 1 := pow_le_pow_of_le_one hu hLow (by norm_num)
      _ = u := pow_one u
  · calc (1 : ℝ) ≤ X * 1 := by linarith only [hX]
      _ ≤ X * u := mul_le_mul_of_nonneg_left hHigh.le (zero_le_one.trans hX)

theorem shallow_cost (hShallow : x < 2 * 10 ^ 18) (hSome : fExact x y ≠ 0) {q : ℝ} (hq : 0 ≤ q) (hqu : q ≤ units y) :
    (3 * units x + 1) * q - 2 * x * units y * q ^ 2 ≤ 1 / 7 := by
  have hv := units_nonneg x
  have hThin := units_shallow hShallow
  rcases Nat.lt_or_ge x (10 ^ 12) with hDust | hWide
  · have hWeight : 1 ≤ x * units y := by
      have hValue : (1 : ℝ) ≤ fExact x y := by exact_mod_cast Nat.one_le_iff_ne_zero.mpr hSome
      have hLevel := hValue.trans (f_le x y)
      rw [cubeExact_dust hDust, level, Nat.cast_zero, zero_mul, add_zero] at hLevel
      exact weight_of_level (by exact_mod_cast pos_of_value hSome) (units_nonneg y) hLevel
    have hSmall := units_dust hDust
    apply cost_le _ (by linarith only [hWeight])
    nlinarith only [hWeight, hSmall, hv]
  · have hWideX : (10 : ℝ) ^ 12 ≤ x := by exact_mod_cast hWide
    rcases le_or_gt (units y) (1 / 100) with hLow | hHigh
    · have hFree : 0 ≤ 2 * x * units y * q ^ 2 := mul_nonneg (mul_nonneg (by positivity) (units_nonneg y)) (sq_nonneg q)
      have hRate : (3 * units x + 1) * q ≤ 7 * (1 / 100) := by
        apply mul_le_mul _ (hqu.trans hLow) hq (by norm_num)
        linarith only [hThin]
      linarith only [hRate, hFree]
    · have hWeight : 10 ^ 10 ≤ x * units y := by nlinarith only [hWideX, hHigh]
      apply cost_le _ (by linarith only [hWeight])
      nlinarith only [hWeight, hThin, hv]

theorem shallow_lands (hShallow : x < 2 * 10 ^ 18) (h : xy ≤ fExact x y) (hSome : fExact x y ≠ 0) :
    xy - 1 / 7 ≤ level (x : ℝ) (cubeExact x) (units (stepExact x xy y)) := by
  obtain ⟨q, hq, hqu, hLand⟩ := landing h
  have hCost := shallow_cost hShallow hSome hq hqu
  linarith

/-- With the target eight units below the start, what is missing at a landing does not
carry a pass back to the start. -/
theorem budget (hShallow : x < 2 * 10 ^ 18) (hx : 1 ≤ x) {m : Nat} {r : ℝ} (hm : 1 ≤ m) (hr : 0 ≤ r) (hu : 0 < units y)
    (hMissing : (m : ℝ) < 15 / 7 + units x + units x * units y)
    (hLevel : (m : ℝ) - 1 / 7 ≤ level (x : ℝ) (cubeExact x) (units y)) (hShort : dExact x y * (r * units y) < (m : ℝ))
    (hOne : 1 / 10 ^ 18 ≤ r * units y) :
    2 + units x + units x * units y + (3 * units x + 1) * (r * units y) + x * units y ^ 3 * (r ^ 2 * (3 + r)) ≤ 8 := by
  have hv := units_nonneg x
  have hThin := units_shallow hShallow
  rcases Nat.lt_or_ge x (10 ^ 12) with hDust | hWide
  · apply budget_dust hu hr hm hMissing hLevel (slope_le x y) hShort (cast_eq_units x) _ _ (units_dust hDust) hOne
    · exact_mod_cast hx
    · exact_mod_cast cubeExact_dust hDust
  · rcases le_or_gt (units y) (1 / 100) with hLow | hHigh
    · exact budget_low hv hThin hu hr hm hMissing hLevel (slope_le x y) hShort (Nat.cast_nonneg x) hLow
    · apply budget_high hThin hu (Nat.cast_nonneg _) hr hMissing (slope_le x y) hShort (cast_eq_units x) _ hHigh hOne
      exact_mod_cast hWide

theorem shallow_rises (hShallow : x < 2 * 10 ^ 18) (hSlope : dExact x y ≠ 0) (hBound : y ≤ y0)
    (hBelow : fExact x y < xy) (hLevel : xy - 1 / 7 ≤ level (x : ℝ) (cubeExact x) (units y))
    (hRoom : xy + 8 ≤ fExact x y0) : stepExact x xy y ≤ y0 := by
  by_contra hAbove
  have hx : 1 ≤ x := pos_of_value (y := y0) (by omega)
  obtain ⟨m, rfl⟩ : ∃ m, xy = fExact x y + m := Nat.exists_eq_add_of_le hBelow.le
  have hm : 1 ≤ m := by omega
  -- the way to the start, which is shorter than the step
  have hGap : y < y0 := by
    rcases hBound.eq_or_lt with rfl | hLess
    · omega
    · exact hLess
  have hWay : (y0 - y) * dExact x y < m * 10 ^ 18 := by
    have hMoved : stepExact x (fExact x y + m) y = y + m * 10 ^ 18 / dExact x y := by
      unfold stepExact
      rw [if_pos hBelow, Nat.add_sub_cancel_left]
    have hMore : y0 - y < m * 10 ^ 18 / dExact x y := by omega
    calc (y0 - y) * dExact x y < m * 10 ^ 18 / dExact x y * dExact x y :=
          Nat.mul_lt_mul_of_pos_right hMore (Nat.pos_of_ne_zero hSlope)
      _ ≤ m * 10 ^ 18 := Nat.div_mul_le_self _ _
  have hShort : dExact x y * units (y0 - y) < (m : ℝ) := by
    have hCast : ((y0 - y : Nat) : ℝ) * dExact x y < m * 10 ^ 18 := by exact_mod_cast hWay
    rw [units, ← mul_div_assoc, div_lt_iff₀ (by positivity), mul_comm]
    exact hCast
  have hOne : 1 / 10 ^ 18 ≤ units (y0 - y) := by
    have hCast : (1 : ℝ) ≤ (y0 - y : Nat) := by exact_mod_cast Nat.sub_pos_of_lt hGap
    unfold units
    gcongr
  -- what is missing is what the roundings lose
  have hValue := f_gt x y
  have hMissing : (m : ℝ) < 15 / 7 + units x + units x * units y := by
    push_cast at hLevel
    linarith
  have hCover : (m : ℝ) - 1 / 7 ≤ level (x : ℝ) (cubeExact x) (units y) := by
    have hNonneg : (0 : ℝ) ≤ fExact x y := Nat.cast_nonneg _
    push_cast at hLevel
    linarith
  have hu : 0 < units y := by
    rcases (units_nonneg y).eq_or_lt with hZero | hPos
    · have hCast : (1 : ℝ) ≤ m := by exact_mod_cast hm
      rw [← hZero] at hCover
      unfold level at hCover
      linarith
    · exact hPos
  have hRatio : units (y0 - y) = units (y0 - y) / units y * units y := by
    field_simp
  have hStep := step_up (units_nonneg (y0 - y)) (slope_le x y) hShort
  have hStart : units y + units (y0 - y) = units y0 := by
    rw [units_sub hBound]
    ring
  have hReach : ((fExact x y + m + 8 : Nat) : ℝ) ≤ level (x : ℝ) (cubeExact x) (units y0) :=
    (Nat.cast_le.mpr hRoom).trans (f_le x y0)
  rw [hRatio] at hShort hOne
  have hBudget := budget hShallow hx hm (div_nonneg (units_nonneg _) hu.le) hu hMissing hCover hShort hOne
  rw [← hRatio] at hBudget
  rw [hStart] at hStep
  have hBend : x * units y ^ 3 * ((units (y0 - y) / units y) ^ 2 * (3 + units (y0 - y) / units y)) =
      x * units (y0 - y) ^ 2 * (3 * units y + units (y0 - y)) := by
    field_simp
  rw [hBend] at hBudget
  push_cast at hReach
  linarith

theorem dExact_mono {z : Nat} (h : y ≤ z) : dExact x y ≤ dExact x z := by
  unfold dExact
  have hSquare : y * y / 10 ^ 18 ≤ z * z / 10 ^ 18 := Nat.div_le_div_right (Nat.mul_le_mul h h)
  exact Nat.add_le_add_right (Nat.div_le_div_right (Nat.mul_le_mul_left _ hSquare)) _

theorem stepExact_ge (h : fExact x y < xy) : y ≤ stepExact x xy y := by
  unfold stepExact
  rw [if_pos h]
  exact Nat.le_add_right _ _

theorem shallow_slope (h : xy ≤ fExact x y) (hSome : fExact x y ≠ 0) : dExact x (stepExact x xy y) ≠ 0 := by
  rcases Nat.lt_or_ge x (10 ^ 12) with hDust | hWide
  · exact dust_slope hDust h hSome
  · exact dExact_ne_zero hWide _

theorem value_of_moved (h : xy ≤ fExact x y) (hMoved : ¬Near (stepExact x xy y) y) : fExact x y ≠ 0 := by
  intro hNone
  refine hMoved ?_
  unfold stepExact Near
  rw [if_neg h.not_gt, hNone, Nat.zero_sub, Nat.zero_mul, Nat.zero_div, Nat.sub_zero]
  exact ⟨Nat.le_succ y, Nat.le_succ y⟩

/-- A pass that moves leaves a slope to divide by. -/
theorem slope_next (hSlope : dExact x y ≠ 0) (hMoved : ¬Near (stepExact x xy y) y) :
    dExact x (stepExact x xy y) ≠ 0 := by
  rcases Nat.lt_or_ge (fExact x y) xy with hBelow | hAbove
  · exact ((Nat.pos_of_ne_zero hSlope).trans_le (dExact_mono (stepExact_ge hBelow))).ne'
  · exact shallow_slope hAbove (value_of_moved hAbove hMoved)

theorem shallow_descends (hShallow : x < 2 * 10 ^ 18) (hRoom : xy + 8 ≤ fExact x y0) :
    Descends x xy y0 fun y =>
      y ≤ y0 ∧ dExact x y ≠ 0 ∧ xy - 1 / 7 ≤ level (x : ℝ) (cubeExact x) (units y) := by
  constructor
  · rintro y ⟨-, hSlope, -⟩
    exact hSlope
  · rintro y ⟨hBound, hSlope, hLevel⟩
    rcases Nat.lt_or_ge (fExact x y) xy with hBelow | hAbove
    · exact shallow_rises hShallow hSlope hBound hBelow hLevel hRoom
    · exact (stepExact_le hAbove).trans hBound
  · rintro y ⟨hBound, hSlope, hLevel⟩ hMoved
    have hNext := slope_next hSlope hMoved
    rcases Nat.lt_or_ge (fExact x y) xy with hBelow | hAbove
    · refine ⟨shallow_rises hShallow hSlope hBound hBelow hLevel hRoom, hNext, ?_⟩
      exact hLevel.trans (level_mono (Nat.cast_nonneg x) (Nat.cast_nonneg _) (units_nonneg y)
        (units_le (stepExact_ge hBelow)))
    · exact ⟨(stepExact_le hAbove).trans hBound, hNext,
        shallow_lands hShallow hAbove (value_of_moved hAbove hMoved)⟩

end Shallow

end Robinarb.AeroStable
