import Mathlib.Tactic.GCongr
import Mathlib.Tactic.NormNum
import Robinarb.Math.StableExact

/-! # The solver of a stable pool

Where Newton's iteration of `get_y` goes.
-/

namespace Robinarb.AeroStable

open CheckedWord CubicNewton

def stepExact (x xy y : Nat) : Nat :=
  if fExact x y < xy then y + (xy - fExact x y) * 10 ^ 18 / dExact x y
  else y - (fExact x y - xy) * 10 ^ 18 / dExact x y

section Step

theorem square_ge {y : Nat} (h : 10 ^ 18 ≤ y) : 10 ^ 18 ≤ y * y / 10 ^ 18 := by
  rw [Nat.le_div_iff_mul_le (by decide)]
  exact Nat.mul_le_mul h h

/-- A product of the curve that is not all lost is made of factors that are not small. -/
theorem weight_ge {x y : Nat} (h : x * cubeExact y / 10 ^ 18 ≠ 0) : 10 ^ 18 ≤ x * (y * y / 10 ^ 18) := by
  have hProduct : 10 ^ 18 ≤ x * cubeExact y := Nat.le_of_not_lt fun hLess => h (Nat.div_eq_of_lt hLess)
  rcases le_or_gt (10 ^ 18) y with hWide | hNarrow
  · have hx : 0 < x := by
      rcases Nat.eq_zero_or_pos x with rfl | hx
      · rw [Nat.zero_mul] at hProduct
        omega
      · exact hx
    calc 10 ^ 18 ≤ y * y / 10 ^ 18 := square_ge hWide
      _ ≤ x * (y * y / 10 ^ 18) := Nat.le_mul_of_pos_left _ hx
  · have hCube : cubeExact y ≤ y * y / 10 ^ 18 := by
      apply Nat.div_le_of_le_mul
      rw [mul_comm]
      exact Nat.mul_le_mul_right _ hNarrow.le
    exact hProduct.trans (Nat.mul_le_mul_left x hCube)

/-- A step down never takes more than there is. -/
theorem f_mul_le (x y : Nat) : fExact x y * 10 ^ 18 ≤ dExact x y * y := by
  have hRight : cubeExact x * y / 10 ^ 18 * 10 ^ 18 ≤ cubeExact x * y := Nat.div_mul_le_self _ _
  have hLeft : x * cubeExact y / 10 ^ 18 * 10 ^ 18 ≤ 3 * x * (y * y / 10 ^ 18) / 10 ^ 18 * y := by
    rcases Nat.eq_zero_or_pos (x * cubeExact y / 10 ^ 18) with hNone | hSome
    · rw [hNone, Nat.zero_mul]
      exact Nat.zero_le _
    · have hWeight := weight_ge hSome.ne'
      have hThird : x * (y * y / 10 ^ 18) ≤ 3 * x * (y * y / 10 ^ 18) / 10 ^ 18 * 10 ^ 18 := by
        rw [mul_assoc 3]
        omega
      have hCube : cubeExact y * 10 ^ 18 ≤ y * y / 10 ^ 18 * y := Nat.div_mul_le_self _ _
      apply Nat.le_of_mul_le_mul_right (c := 10 ^ 18) _ (by decide)
      calc x * cubeExact y / 10 ^ 18 * 10 ^ 18 * 10 ^ 18
          ≤ x * cubeExact y * 10 ^ 18 := Nat.mul_le_mul_right _ (Nat.div_mul_le_self _ _)
        _ = x * (cubeExact y * 10 ^ 18) := mul_assoc _ _ _
        _ ≤ x * (y * y / 10 ^ 18 * y) := Nat.mul_le_mul_left x hCube
        _ = x * (y * y / 10 ^ 18) * y := (mul_assoc _ _ _).symm
        _ ≤ 3 * x * (y * y / 10 ^ 18) / 10 ^ 18 * 10 ^ 18 * y := Nat.mul_le_mul_right y hThird
        _ = 3 * x * (y * y / 10 ^ 18) / 10 ^ 18 * y * 10 ^ 18 := mul_right_comm _ _ _
  unfold fExact dExact
  rw [Nat.add_mul, Nat.add_mul]
  exact Nat.add_le_add hLeft hRight

theorem down_le (x xy y : Nat) : (fExact x y - xy) * 10 ^ 18 / dExact x y ≤ y := by
  apply Nat.div_le_of_le_mul
  exact (Nat.mul_le_mul_right _ (Nat.sub_le _ _)).trans (f_mul_le x y)

theorem stepExact_le {x xy y : Nat} (h : xy ≤ fExact x y) : stepExact x xy y ≤ y := by
  unfold stepExact
  rw [if_neg (Nat.not_lt.mpr h)]
  exact Nat.sub_le _ _

theorem move_ends {x y gap : U256} {p : U256 → Prop} {next : U256 → Except Fault U256}
    (hSlope : (d x y).toNat = dExact x.toNat y.toNat → dExact x.toNat y.toNat ≠ 0)
    (hNext : (d x y).toNat = dExact x.toNat y.toNat →
      ∀ dy, dy.toNat = gap.toNat * 10 ^ 18 / dExact x.toNat y.toNat → Ends p (next dy)) :
    Ends p (do
      let scaled ← mul gap e18
      let slope ← dChecked x y
      let dy ← div scaled slope
      next dy) := by
  apply (ends_mul gap e18).bind
  rintro scaled ⟨-, hScaled⟩
  apply (dChecked_ends x y).bind
  rintro _ ⟨rfl, hRate⟩
  have hNonzero : d x y ≠ 0#256 := by
    intro hZero
    apply hSlope hRate
    rw [← hRate, hZero]
    rfl
  apply (ends_div hNonzero).bind
  rintro dy rfl
  apply hNext hRate
  rw [BitVec.toNat_udiv, hScaled, hRate]
  rfl

/-- The numbers of a pass are the exact ones. -/
def Exact (x y : U256) : Prop :=
  (f x y).toNat = fExact x.toNat y.toNat ∧ (d x y).toNat = dExact x.toNat y.toNat

theorem newtonStepChecked_ends {x xy y : U256} {p : U256 → Prop}
    (hSlope : Exact x y → dExact x.toNat y.toNat ≠ 0)
    (hFits : Exact x y → stepExact x.toNat xy.toNat y.toNat < 2 ^ 256)
    (hNext : Exact x y → ∀ v, v.toNat = stepExact x.toNat xy.toNat y.toNat → p v) :
    Ends p (newtonStepChecked x xy y) := by
  apply (fChecked_ends x y).bind
  rintro _ ⟨rfl, hVal⟩
  have hOrder : f x y < xy ↔ fExact x.toNat y.toNat < xy.toNat := by rw [BitVec.lt_def, hVal]
  unfold stepExact at hFits hNext
  rcases Nat.lt_or_ge (fExact x.toNat y.toNat) xy.toNat with hBelow | hAbove
  · simp only [if_pos hBelow] at hFits hNext
    rw [if_pos (hOrder.mpr hBelow)]
    apply (ends_sub (hVal ▸ hBelow.le)).bind
    rintro gap ⟨-, hGap⟩
    apply move_ends fun hRate => hSlope ⟨hVal, hRate⟩
    intro hRate dy hMove
    rw [hGap, hVal] at hMove
    apply hNext ⟨hVal, hRate⟩
    rw [BitVec.toNat_add, hMove, Nat.mod_eq_of_lt (hFits ⟨hVal, hRate⟩)]
  · simp only [if_neg hAbove.not_gt] at hFits hNext
    rw [if_neg (mt hOrder.mp hAbove.not_gt)]
    apply (ends_sub (hVal ▸ hAbove)).bind
    rintro gap ⟨-, hGap⟩
    apply move_ends fun hRate => hSlope ⟨hVal, hRate⟩
    intro hRate dy hMove
    rw [hGap, hVal] at hMove
    apply (ends_sub (hMove ▸ down_le _ _ _)).imp
    rintro v ⟨-, hv⟩
    apply hNext ⟨hVal, hRate⟩
    rw [hv, hMove]

end Step

section Loop

def Near (a b : Nat) : Prop := a ≤ b + 1 ∧ b ≤ a + 1

theorem settled_iff (y yPrev : U256) : settled y yPrev = true ↔ Near y.toNat yPrev.toNat := by
  unfold settled Near
  have hOne : (1#256 : U256).toNat = 1 := rfl
  split
  · rename_i h
    have hLess := BitVec.lt_def.mp h
    rw [decide_eq_true_iff, BitVec.le_def, BitVec.toNat_sub_of_le (BitVec.le_def.mpr hLess.le), hOne]
    omega
  · rename_i h
    have hLe : y.toNat ≤ yPrev.toNat := Nat.le_of_not_lt fun hLess => h (BitVec.lt_def.mpr hLess)
    rw [decide_eq_true_iff, BitVec.le_def, BitVec.toNat_sub_of_le (BitVec.le_def.mpr hLe), hOne]
    omega

/-- What the passes of the loop keep: each can divide, none ends above the bound, and one
that does not settle ends where the next may start. -/
structure Descends (x xy bound : Nat) (I : Nat → Prop) : Prop where
  slope : ∀ y, I y → dExact x y ≠ 0
  step : ∀ y, I y → stepExact x xy y ≤ bound
  next : ∀ y, I y → ¬Near (stepExact x xy y) y → I (stepExact x xy y)

section Passes

variable {x xy bound : U256} {I : Nat → Prop}

/-- A pass that divides, ends below the bound and, where it moved, hands over to a loop that ends there. -/
theorem pass_ends {n : Nat} {y : U256} (hSlope : Exact x y → dExact x.toNat y.toNat ≠ 0)
    (hStep : Exact x y → stepExact x.toNat xy.toNat y.toNat ≤ bound.toNat)
    (hRest : Exact x y → ¬Near (stepExact x.toNat xy.toNat y.toNat) y.toNat → ∀ next : U256,
      next.toNat = stepExact x.toNat xy.toNat y.toNat → newtonStep x xy y = some next →
      Ends (fun v => v.toNat ≤ bound.toNat) (getYLoopChecked x xy n next)) :
    Ends (fun v => v.toNat ≤ bound.toNat) (getYLoopChecked x xy (n + 1) y) := by
  have hPass : Ends (fun v => Exact x y ∧ v.toNat = stepExact x.toNat xy.toNat y.toNat) (newtonStepChecked x xy y) :=
    newtonStepChecked_ends hSlope (fun hExact => (hStep hExact).trans_lt bound.isLt) fun hExact _ hv => ⟨hExact, hv⟩
  apply (hPass.and_follows (newtonStepChecked_follows x xy y)).bind
  rintro next ⟨⟨hExact, hNext⟩, hCode⟩
  split
  · change next.toNat ≤ bound.toNat
    rw [hNext]
    exact hStep hExact
  · rename_i hMoved
    rw [settled_iff, hNext] at hMoved
    exact hRest hExact hMoved next hNext hCode

theorem getYLoopChecked_ends (h : Descends x.toNat xy.toNat bound.toNat I) (n : Nat) {y : U256} (hy : I y.toNat)
    (hBound : y.toNat ≤ bound.toNat) :
    Ends (fun v => v.toNat ≤ bound.toNat) (getYLoopChecked x xy n y) := by
  induction n generalizing y with
  | zero => exact hBound
  | succ n ih =>
    have hStep := h.step _ hy
    refine pass_ends (fun _ => h.slope _ hy) (fun _ => hStep) fun _ hMoved next hNext _ => ?_
    apply ih
    · rw [hNext]
      exact h.next _ hy hMoved
    · rwa [hNext]

/-- The loop from its bound, where the first pass may be used to know the start. -/
theorem getYChecked_ends (h : Exact x bound → ∃ I, Descends x.toNat xy.toNat bound.toNat I ∧ I bound.toNat) :
    Ends (fun v => v.toNat ≤ bound.toNat) (getYChecked x xy bound) := by
  by_cases hExact : Exact x bound
  · obtain ⟨I, hDescends, hStart⟩ := h hExact
    exact getYLoopChecked_ends hDescends 255 hStart le_rfl
  · exact pass_ends (fun hStart => absurd hStart hExact) (fun hStart => absurd hStart hExact)
      fun hStart => absurd hStart hExact

end Passes

end Loop

section Landing

theorem step_units {x xy y : Nat} (h : xy ≤ fExact x y) :
    ∃ q, 0 ≤ q ∧ q ≤ units y ∧ units (stepExact x xy y) = units y - q ∧ dExact x y * q ≤ (fExact x y : ℝ) - xy := by
  have hWithin := down_le x xy y
  have hMoved : stepExact x xy y = y - (fExact x y - xy) * 10 ^ 18 / dExact x y := by
    unfold stepExact
    rw [if_neg (Nat.not_lt.mpr h)]
  refine ⟨units ((fExact x y - xy) * 10 ^ 18 / dExact x y), units_nonneg _, units_le hWithin, ?_, ?_⟩
  · rw [hMoved, units_sub hWithin]
  · have hFloor : (fExact x y - xy) * 10 ^ 18 / dExact x y * dExact x y ≤ (fExact x y - xy) * 10 ^ 18 :=
      Nat.div_mul_le_self _ _
    have hCast : ((fExact x y - xy) * 10 ^ 18 / dExact x y : Nat) * (dExact x y : ℝ) ≤
        (fExact x y - xy : ℝ) * 10 ^ 18 := by
      rw [← Nat.cast_sub h]
      exact_mod_cast hFloor
    rw [units, ← mul_div_assoc, div_le_iff₀ (by positivity), mul_comm]
    exact hCast

theorem slope_le (x y : Nat) : tangent (x : ℝ) (cubeExact x) (units y) ≤ dExact x y + (3 * units x + 1) := by
  linarith only [d_gt x y]

/-- Where a step down lands, the curve is above its target less the cost of the slope. -/
theorem landing {x xy y : Nat} (h : xy ≤ fExact x y) :
    ∃ q, 0 ≤ q ∧ q ≤ units y ∧
      xy - ((3 * units x + 1) * q - 2 * x * units y * q ^ 2) ≤
        level (x : ℝ) (cubeExact x) (units (stepExact x xy y)) := by
  obtain ⟨q, hq, hWithin, hLands, hMove⟩ := step_units h
  have hLand := step_down (Nat.cast_nonneg x) hq hWithin (slope_le x y) hMove
  have hValue := f_le x y
  rw [hLands]
  exact ⟨q, hq, hWithin, by linarith only [hLand, hValue]⟩

theorem cubeExact_pos {x : Nat} (h : 10 ^ 12 ≤ x) : 0 < cubeExact x := by
  have hSquare : 10 ^ 6 ≤ x * x / 10 ^ 18 := by
    rw [Nat.le_div_iff_mul_le (by decide)]
    calc 10 ^ 6 * 10 ^ 18 = 10 ^ 12 * 10 ^ 12 := by norm_num
      _ ≤ x * x := Nat.mul_le_mul h h
  apply Nat.div_pos _ (by decide)
  calc 10 ^ 18 = 10 ^ 6 * 10 ^ 12 := by norm_num
    _ ≤ x * x / 10 ^ 18 * x := Nat.mul_le_mul hSquare h

theorem dExact_ne_zero {x : Nat} (h : 10 ^ 12 ≤ x) (y : Nat) : dExact x y ≠ 0 :=
  ((cubeExact_pos h).trans_le (Nat.le_add_left _ _)).ne'

end Landing

section Deep

/-- In a deep pool the slope outweighs what the roundings lose. -/
theorem deep_room {v u X t : ℝ} (hX : X = 10 ^ 18 * v) (hv : 2 ≤ v) (ht : X * v ^ 2 - v - 1 < t) :
    (2 + v + u + 2 * v * u + v / 10 ^ 6) * 10 ^ 18 < tangent X t u - (3 * v + 1) := by
  have hScale : 2 + v + u + 2 * v * u + v / 10 ^ 6 + (4 * v + 2) / 10 ^ 18 ≤ 3 * v * u ^ 2 + v ^ 3 := by
    have hDepth : 0 ≤ v - 2 := sub_nonneg.mpr hv
    nlinarith [mul_nonneg hDepth (sq_nonneg (u - 1 / 2)), sq_nonneg (u - 5 / 12), mul_nonneg hDepth hDepth,
      mul_nonneg (mul_nonneg hDepth hDepth) hDepth]
  unfold tangent
  subst hX
  linarith

theorem deep_cost {v u q X : ℝ} (hX : X = 10 ^ 18 * v) (hv : 2 ≤ v) (hq : 0 ≤ q) (hqu : q ≤ u) :
    (3 * v + 1) * q - 2 * X * u * q ^ 2 ≤ v / 10 ^ 6 := by
  subst hX
  have hRate : (3 * v + 1) * q ≤ 7 / 2 * (v * q) := by
    rw [← mul_assoc]
    apply mul_le_mul_of_nonneg_right _ hq
    linarith only [hv]
  have hPlace : 0 ≤ v * q := mul_nonneg (zero_le_two.trans hv) hq
  have hBend : 2 * 10 ^ 18 * q ^ 2 * (v * q) ≤ 2 * (10 ^ 18 * v) * u * q ^ 2 := by
    have hLonger := mul_le_mul_of_nonneg_left hqu (mul_nonneg (zero_le_two.trans hv) (sq_nonneg q))
    linarith only [hLonger]
  -- a short step costs little, and a long one is paid for by the bend
  rcases le_or_gt q (1 / 10 ^ 8) with hShort | hLong
  · have hFree : 0 ≤ 2 * 10 ^ 18 * q ^ 2 * (v * q) := mul_nonneg (by positivity) hPlace
    have hSmall : v * q ≤ v * (1 / 10 ^ 8) := mul_le_mul_of_nonneg_left hShort (zero_le_two.trans hv)
    linarith only [hRate, hBend, hFree, hSmall, hv]
  · have hSquare : (1 / 10 ^ 8) ^ 2 ≤ q ^ 2 := pow_le_pow_left₀ (by norm_num) hLong.le 2
    have hPaid := mul_le_mul_of_nonneg_right hSquare hPlace
    linarith only [hRate, hBend, hPaid, hv, hPlace]

variable {x0 x y xy : Nat}

/-- Below the target by less than a step. -/
def Within (x xy y : Nat) : Prop := fExact x y < xy → (xy - fExact x y) * 10 ^ 18 < dExact x y

theorem units_deep (hDeep : 2 * 10 ^ 18 ≤ x) : 2 ≤ units x := by
  have hUnits := units_le hDeep
  rw [units_mul] at hUnits
  unfold units at hUnits ⊢
  push_cast at hUnits
  linarith

theorem deep_within (hDeep : 2 * 10 ^ 18 ≤ x)
    (h : (xy : ℝ) - fExact x y < 2 + units x + units y + 2 * units x * units y + units x / 10 ^ 6) :
    Within x xy y := by
  intro hBelow
  have hRoom := deep_room (u := units y) (cast_eq_units x) (units_deep hDeep) (cube_gt x)
  have hSlope := d_gt x y
  have hCast : ((xy - fExact x y : Nat) : ℝ) * 10 ^ 18 < dExact x y := by
    rw [Nat.cast_sub hBelow.le]
    linarith
  exact_mod_cast hCast

theorem deep_start (hDeep : 2 * 10 ^ 18 ≤ x) (hGrown : x0 ≤ x) (y : Nat) : Within x (kExact x0 y) y := by
  apply deep_within hDeep
  have hTarget := k_le x0 y
  have hValue := f_gt x y
  have hCube := mul_le_mul_of_nonneg_right (cube_gt x).le (units_nonneg y)
  have hGrows : level (x0 : ℝ) (x0 * units x0 ^ 2) (units y) ≤ level (x : ℝ) (x * units x ^ 2) (units y) := by
    have hUnits := units_le hGrown
    have hy := units_nonneg y
    have hx := units_nonneg x0
    unfold level
    gcongr
  have hx := units_nonneg x
  unfold level at *
  linarith

theorem deep_next (hDeep : 2 * 10 ^ 18 ≤ x) (h : xy ≤ fExact x y) : Within x xy (stepExact x xy y) := by
  apply deep_within hDeep
  obtain ⟨q, hq, hqu, hLand⟩ := landing h
  have hCost := deep_cost (cast_eq_units x) (units_deep hDeep) hq hqu
  have hValue := f_gt x (stepExact x xy y)
  have hProduct := mul_nonneg (units_nonneg x) (units_nonneg (stepExact x xy y))
  have hu := units_nonneg (stepExact x xy y)
  linarith

theorem deep_descends (hDeep : 2 * 10 ^ 18 ≤ x) (y0 : Nat) :
    Descends x xy y0 fun y => y ≤ y0 ∧ Within x xy y := by
  have hHeld : ∀ y, Within x xy y → fExact x y < xy → stepExact x xy y = y := by
    intro y hWithin hBelow
    unfold stepExact
    rw [if_pos hBelow, Nat.div_eq_of_lt (hWithin hBelow), add_zero]
  constructor
  · rintro y -
    exact dExact_ne_zero (le_trans (by norm_num) hDeep) y
  · rintro y ⟨hBound, hWithin⟩
    rcases Nat.lt_or_ge (fExact x y) xy with hBelow | hAbove
    · rw [hHeld y hWithin hBelow]
      exact hBound
    · exact (stepExact_le hAbove).trans hBound
  · rintro y ⟨hBound, hWithin⟩ hMoved
    rcases Nat.lt_or_ge (fExact x y) xy with hBelow | hAbove
    · rw [hHeld y hWithin hBelow] at hMoved
      exact absurd ⟨Nat.le_succ y, Nat.le_succ y⟩ hMoved
    · exact ⟨(stepExact_le hAbove).trans hBound, deep_next hDeep hAbove⟩

end Deep

end Robinarb.AeroStable
