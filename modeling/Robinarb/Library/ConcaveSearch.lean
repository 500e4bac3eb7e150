import Mathlib.Analysis.Convex.Continuous
import Mathlib.Analysis.Convex.Slope
import Mathlib.Topology.Order.Compact

/-! # Ternary search of a concave function

A range shrinks by a third on the side of the lower of its two inner points. It never
loses every maximiser, whether or not the function is flat between the points.
-/

namespace ConcaveSearch

section Gain

variable {K : Type*} [Field K] [LinearOrder K] {f g : K → K}

/-- Non-decreasing, concave and zero at zero, from zero on. -/
structure Saturating (f : K → K) : Prop where
  mono : MonotoneOn f (Set.Ici 0)
  concave : ConcaveOn K (Set.Ici 0) f
  zero : f 0 = 0

theorem Saturating.nonneg (hf : Saturating f) {x : K} (hx : 0 ≤ x) : 0 ≤ f x :=
  hf.zero.symm.trans_le (hf.mono Set.self_mem_Ici hx hx)

theorem Saturating.congr (hf : Saturating f) (h : ∀ x, 0 ≤ x → g x = f x) : Saturating g := by
  have hEq : Set.EqOn f g (Set.Ici 0) := fun x hx => (h x hx).symm
  constructor
  · exact hf.mono.congr hEq
  · exact hf.concave.congr hEq
  · exact (h 0 le_rfl).trans hf.zero

variable [IsStrictOrderedRing K]

theorem Saturating.id : Saturating (fun x : K => x) := by
  constructor
  · exact fun _ _ _ _ h => h
  · exact concaveOn_id (convex_Ici 0)
  · rfl

theorem Saturating.comp (hg : Saturating g) (hf : Saturating f) : Saturating fun x => g (f x) := by
  constructor
  · intro x hx y hy hxy
    exact hg.mono (hf.nonneg hx) (hf.nonneg hy) (hf.mono hx hy hxy)
  · constructor
    · exact convex_Ici 0
    · intro x hx y hy a b ha hb hab
      calc a • g (f x) + b • g (f y)
          ≤ g (a • f x + b • f y) := hg.concave.2 (hf.nonneg hx) (hf.nonneg hy) ha hb hab
        _ ≤ g (f (a • x + b • y)) := by
          apply hg.mono
          · exact convex_Ici 0 (hf.nonneg hx) (hf.nonneg hy) ha hb hab
          · exact hf.nonneg (convex_Ici 0 hx hy ha hb hab)
          · exact hf.concave.2 hx hy ha hb hab
  · rw [hf.zero, hg.zero]

/-- A function that gains nothing at a point gains nothing past it. -/
theorem Saturating.le_of_probe (hf : Saturating f) {m x : K} (hm : 0 < m) (hProbe : f m ≤ m) (hx : m ≤ x) :
    f x ≤ x := by
  rcases hx.eq_or_lt with rfl | hx
  · exact hProbe
  · have hSlope := hf.concave.slope_anti_adjacent Set.self_mem_Ici (hm.trans hx).le hm hx
    rw [hf.zero, sub_zero, sub_zero] at hSlope
    have hRate : (f x - f m) / (x - m) ≤ 1 := hSlope.trans ((div_le_one hm).mpr hProbe)
    have hRise : f x - f m ≤ x - m := (div_le_one (sub_pos.mpr hx)).mp hRate
    linarith only [hRise, hProbe]

end Gain

section Thirds

variable {K : Type*} [Field K] [LinearOrder K] [IsStrictOrderedRing K] {p : K → K} {S : Set K} {m₁ m₂ x : K}

theorem le_of_rising (hp : ConcaveOn K S p) (hx : x ∈ S) (h₂ : m₂ ∈ S) (hm : m₁ < m₂) (hRise : p m₁ < p m₂)
    (hBefore : x ≤ m₁) : p x ≤ p m₁ := by
  rcases hBefore.eq_or_lt with rfl | hBefore
  · exact le_rfl
  · have hSlope := hp.slope_anti_adjacent hx h₂ hBefore hm
    have hPositive : 0 < (p m₂ - p m₁) / (m₂ - m₁) := div_pos (sub_pos.mpr hRise) (sub_pos.mpr hm)
    have hRate : 0 ≤ (p m₁ - p x) / (m₁ - x) := hPositive.le.trans hSlope
    have hStep : 0 * (m₁ - x) ≤ p m₁ - p x := (le_div_iff₀ (sub_pos.mpr hBefore)).mp hRate
    rw [zero_mul] at hStep
    exact sub_nonneg.mp hStep

theorem le_of_falling (hp : ConcaveOn K S p) (h₁ : m₁ ∈ S) (hx : x ∈ S) (hm : m₁ < m₂) (hFall : p m₂ ≤ p m₁)
    (hAfter : m₂ ≤ x) : p x ≤ p m₂ := by
  rcases hAfter.eq_or_lt with rfl | hAfter
  · exact le_rfl
  · have hSlope := hp.slope_anti_adjacent h₁ hx hm hAfter
    have hRate : (p x - p m₂) / (x - m₂) ≤ 0 :=
      hSlope.trans (div_nonpos_of_nonpos_of_nonneg (sub_nonpos.mpr hFall) (sub_pos.mpr hm).le)
    have hStep : p x - p m₂ ≤ 0 * (x - m₂) := (div_le_iff₀ (sub_pos.mpr hAfter)).mp hRate
    rw [zero_mul] at hStep
    exact sub_nonpos.mp hStep

def thirds (p : K → K) (r : K × K) : K × K :=
  if p (r.1 + (r.2 - r.1) / 3) < p (r.2 - (r.2 - r.1) / 3) then (r.1 + (r.2 - r.1) / 3, r.2)
  else (r.1, r.2 - (r.2 - r.1) / 3)

theorem thirds_length (p : K → K) (r : K × K) : (thirds p r).2 - (thirds p r).1 = 2 / 3 * (r.2 - r.1) := by
  unfold thirds
  split <;> ring

/-- The range holds a maximiser over `S`. -/
def HoldsMax (p : K → K) (S : Set K) (r : K × K) : Prop := ∃ x ∈ Set.Icc r.1 r.2, ∀ y ∈ S, p y ≤ p x

theorem thirds_keeps (hp : ConcaveOn K S p) {r : K × K} (hOrder : r.1 ≤ r.2) (hInside : Set.Icc r.1 r.2 ⊆ S)
    (hMax : HoldsMax p S r) :
    (thirds p r).1 ≤ (thirds p r).2 ∧ Set.Icc (thirds p r).1 (thirds p r).2 ⊆ S ∧ HoldsMax p S (thirds p r) := by
  rcases hOrder.eq_or_lt with hPoint | hOrder
  · have hSame : thirds p r = r := by
      unfold thirds
      rw [hPoint, sub_self, zero_div, add_zero, sub_zero, if_neg (lt_irrefl _)]
      exact Prod.ext hPoint.symm rfl
    rw [hSame]
    exact ⟨hOrder, hInside, hMax⟩
  · obtain ⟨x, hx, hBest⟩ := hMax
    have hThird : 0 < (r.2 - r.1) / 3 := div_pos (sub_pos.mpr hOrder) (by norm_num)
    have hMiddle : r.1 + (r.2 - r.1) / 3 < r.2 - (r.2 - r.1) / 3 := by linarith only [hThird]
    have h₁ : r.1 + (r.2 - r.1) / 3 ∈ Set.Icc r.1 r.2 := by
      constructor <;> linarith only [hThird, hMiddle]
    have h₂ : r.2 - (r.2 - r.1) / 3 ∈ Set.Icc r.1 r.2 := by
      constructor <;> linarith only [hThird, hMiddle]
    unfold thirds
    split
    · rename_i hRise
      refine ⟨h₁.2, (Set.Icc_subset_Icc_left h₁.1).trans hInside, ?_⟩
      rcases le_total x (r.1 + (r.2 - r.1) / 3) with hSide | hSide
      · have hNext := le_of_rising hp (hInside hx) (hInside h₂) hMiddle hRise hSide
        exact ⟨_, ⟨le_rfl, h₁.2⟩, fun y hy => (hBest y hy).trans hNext⟩
      · exact ⟨x, ⟨hSide, hx.2⟩, hBest⟩
    · rename_i hFall
      refine ⟨h₂.1, (Set.Icc_subset_Icc_right h₂.2).trans hInside, ?_⟩
      rcases le_total (r.2 - (r.2 - r.1) / 3) x with hSide | hSide
      · have hNext := le_of_falling hp (hInside h₁) (hInside hx) hMiddle (not_lt.mp hFall) hSide
        exact ⟨_, ⟨h₂.1, le_rfl⟩, fun y hy => (hBest y hy).trans hNext⟩
      · exact ⟨x, ⟨hx.1, hSide⟩, hBest⟩

/-- Any number of turns keeps a maximiser, in a range that shrinks by two thirds each. -/
theorem iterate_thirds (hp : ConcaveOn K S p) {r : K × K} (hOrder : r.1 ≤ r.2) (hInside : Set.Icc r.1 r.2 ⊆ S)
    (hMax : HoldsMax p S r) (n : Nat) :
    HoldsMax p S ((thirds p)^[n] r) ∧
      ((thirds p)^[n] r).2 - ((thirds p)^[n] r).1 = (2 / 3) ^ n * (r.2 - r.1) := by
  induction n generalizing r with
  | zero =>
    rw [pow_zero, one_mul]
    exact ⟨hMax, rfl⟩
  | succ n ih =>
    obtain ⟨hOrder', hInside', hMax'⟩ := thirds_keeps hp hOrder hInside hMax
    obtain ⟨hHolds, hLength⟩ := ih hOrder' hInside' hMax'
    constructor
    · exact hHolds
    · rw [Function.iterate_succ_apply, hLength, thirds_length, pow_succ, mul_assoc]

end Thirds

/-- A concave function has a maximiser on every range above zero. -/
theorem exists_max {p : ℝ → ℝ} (hp : ConcaveOn ℝ (Set.Ici 0) p) {lo hi : ℝ} (hlo : 0 < lo) (hRange : lo ≤ hi) :
    HoldsMax p (Set.Icc lo hi) (lo, hi) := by
  have hInterior : Set.Icc lo hi ⊆ interior (Set.Ici 0) := by
    rw [interior_Ici]
    exact fun x hx => hlo.trans_le hx.1
  have hContinuous : ContinuousOn p (Set.Icc lo hi) := hp.continuousOn_interior.mono hInterior
  obtain ⟨x, hx, hBest⟩ := isCompact_Icc.exists_isMaxOn (Set.nonempty_Icc.mpr hRange) hContinuous
  exact ⟨x, hx, fun y hy => hBest hy⟩

end ConcaveSearch
