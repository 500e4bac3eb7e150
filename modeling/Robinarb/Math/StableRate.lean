import Robinarb.Library.StableCurve
import Robinarb.Math.QuoteF64
import Robinarb.Math.ReferenceMath
import Robinarb.State.SamplePool

/-! # The spot rate of a stable pool

The quote of a stable pool takes and gives raw units, its spot rate is the slope of the
normalised curve. The two differ by the decimals of the tokens.
-/

namespace Robinarb

open StableCurve
open scoped Numerals

namespace AeroStable

/-- The solver finds the root of the invariant. -/
def ExactSolver (solve : ℝ → ℝ → ℝ → ℝ) : Prop := ∀ xNew kk y0, 0 < xNew → 0 ≤ kk → IsRoot xNew kk (solve xNew kk y0)

theorem exactSolver_root : ExactSolver fun xNew kk _ => root xNew kk :=
  fun _ _ _ hx hk => root_isRoot hx hk

variable {solve : ℝ → ℝ → ℝ → ℝ} {reserveIn reserveOut decIn decOut : ℝ} {feeBps : U32}

theorem getAmountOutWith_hasDeriv (hSolve : ExactSolver solve) (hIn : 0 < reserveIn) (hOut : 0 < reserveOut)
    (hDecIn : 0 < decIn) (hDecOut : 0 < decOut) (hFee : feeBps.toNat ≤ 10000) :
    HasDerivWithinAt (fun x => getAmountOutWith solve x reserveIn reserveOut decIn decOut feeBps)
      (feeFactor ℝ feeBps * marginal (reserveIn / decIn) (reserveOut / decOut) * (decOut / decIn)) (Set.Ici 0) 0 := by
  have hx : 0 < reserveIn / decIn := div_pos hIn hDecIn
  have hy : 0 < reserveOut / decOut := div_pos hOut hDecOut
  have hRate : 0 ≤ feeFactor ℝ feeBps / decIn := div_nonneg (feeFactor_nonneg hFee) hDecIn.le
  have hLevel : 0 ≤ level (reserveIn / decIn) (reserveOut / decOut) := by
    unfold level
    positivity
  have hRoot : ∀ X, reserveIn / decIn ≤ X → IsRoot X (level (reserveIn / decIn) (reserveOut / decOut))
      (solve X (level (reserveIn / decIn) (reserveOut / decOut)) (reserveOut / decOut)) :=
    fun X hX => hSolve _ _ _ (hx.trans_le hX) hLevel
  have hGain := (gain_hasDeriv hx hy hRoot hRate).mul_const decOut
  have hSlope : marginal (reserveIn / decIn) (reserveOut / decOut) * (feeFactor ℝ feeBps / decIn) * decOut =
      feeFactor ℝ feeBps * marginal (reserveIn / decIn) (reserveOut / decOut) * (decOut / decIn) := by ring
  rw [hSlope] at hGain
  -- the quote is this gain, by its first branch at zero and past it as the root never rises
  have hQuote : ∀ x, 0 ≤ x → getAmountOutWith solve x reserveIn reserveOut decIn decOut feeBps =
      (reserveOut / decOut - solve (reserveIn / decIn + x * (feeFactor ℝ feeBps / decIn))
        (level (reserveIn / decIn) (reserveOut / decOut)) (reserveOut / decOut)) * decOut := by
    intro x hNonneg
    unfold getAmountOutWith
    rcases hNonneg.eq_or_lt with rfl | hPositive
    · rw [if_pos (.inl le_rfl), zero_mul, add_zero, root_start hx hy hRoot, sub_self, zero_mul]
    · have hBelow := root_le hx hy hRoot (le_add_of_nonneg_right (mul_nonneg hNonneg hRate))
      rw [if_neg (by simp only [hPositive.not_ge, hIn.not_ge, hOut.not_ge, or_self, not_false_eq_true])]
      dsimp only
      rw [mul_div_assoc]
      exact max_eq_left (mul_nonneg (sub_nonneg.mpr hBelow) hDecOut.le)
  exact hGain.congr (fun x hNonneg => hQuote x hNonneg) (hQuote 0 le_rfl)

end AeroStable

section Pool

variable {solve : ℝ → ℝ → ℝ → ℝ} {ε : Type} {s : ChainState} {pool : PoolMeta}
  {addr : Address} {r0 : U256}

/-- The slope of the normalised curve at the reserves of a pool. -/
noncomputable def curveSlope (s : ChainState) (pool : PoolMeta) (addr : Address) (r0 : U256) (zeroForOne : Bool) : ℝ :=
  let (a, b) := inDirection zeroForOne (u256ToF64 ℝ (s.read addr r0) / 10 ^ pool.dec0.toNat,
    u256ToF64 ℝ (s.read addr (r0 + 1#256)) / 10 ^ pool.dec1.toNat)
  marginal a b

/-- Raw units of the token given for each raw unit of the token taken, at par. -/
noncomputable def unitRatio (pool : PoolMeta) (zeroForOne : Bool) : ℝ :=
  let (din, dout) := inDirection zeroForOne ((10 : ℝ) ^ pool.dec0.toNat, (10 : ℝ) ^ pool.dec1.toNat)
  dout / din

theorem unitRatio_eq_one (pool : PoolMeta) (zeroForOne : Bool) : unitRatio pool zeroForOne = 1 ↔ pool.dec0 = pool.dec1 := by
  have hPowers : (10 : ℝ) ^ pool.dec0.toNat = 10 ^ pool.dec1.toNat ↔ pool.dec0 = pool.dec1 := by
    constructor
    · intro h
      exact BitVec.eq_of_toNat_eq (pow_right_injective₀ (by norm_num) (by norm_num) h)
    · intro h
      rw [h]
  have hDivisor : ∀ d : U8, (10 : ℝ) ^ d.toNat ≠ 0 := fun d => by positivity
  cases zeroForOne with
  | true =>
    refine (div_eq_one_iff_eq (hDivisor pool.dec0)).trans ?_
    rw [eq_comm, hPowers]
  | false => exact (div_eq_one_iff_eq (hDivisor pool.dec1)).trans hPowers

theorem curveSlope_pos (hFirst : s.read addr r0 ≠ 0#256) (hSecond : s.read addr (r0 + 1#256) ≠ 0#256)
    (zeroForOne : Bool) : 0 < curveSlope s pool addr r0 zeroForOne := by
  have h0 : 0 < u256ToF64 ℝ (s.read addr r0) := u256ToF64_pos hFirst
  have h1 : 0 < u256ToF64 ℝ (s.read addr (r0 + 1#256)) := u256ToF64_pos hSecond
  cases zeroForOne <;> simp only [curveSlope, inDirection, marginal, if_true, Bool.false_eq_true, if_false] <;> positivity

theorem spotRate_stable (hPlan : s.plan pool.idx = some (.v2TwoSlot addr r0)) (hDex : pool.dex = .aeroStable)
    (hFirst : s.read addr r0 ≠ 0#256) (hSecond : s.read addr (r0 + 1#256) ≠ 0#256) (zeroForOne : Bool) :
    spotRate s pool zeroForOne = feeFactor ℝ pool.feeBps * curveSlope s pool addr r0 zeroForOne := by
  have h0 : 0 < u256ToF64 ℝ (s.read addr r0) / 10 ^ pool.dec0.toNat := div_pos (u256ToF64_pos hFirst) (by positivity)
  have h1 : 0 < u256ToF64 ℝ (s.read addr (r0 + 1#256)) / 10 ^ pool.dec1.toNat :=
    div_pos (u256ToF64_pos hSecond) (by positivity)
  unfold spotRate curveSlope marginal
  rw [hPlan]
  dsimp only
  rw [if_pos hDex, if_neg (by simp only [h0.not_ge, h1.not_ge, or_self, not_false_eq_true])]
  cases zeroForOne with
  | true =>
    simp only [inDirection, if_true]
    rw [if_neg (not_le.mpr (by positivity)), mul_div_assoc]
  | false =>
    simp only [inDirection, Bool.false_eq_true, if_false]
    rw [if_neg (not_le.mpr (by positivity)), mul_div_assoc]

theorem quoteF64_stable_hasDeriv (hSolve : AeroStable.ExactSolver solve) (M : SwapMath ε) (keccak : Keccak)
    (hPlan : s.plan pool.idx = some (.v2TwoSlot addr r0)) (hDex : pool.dex = .aeroStable)
    (hFirst : s.read addr r0 ≠ 0#256) (hSecond : s.read addr (r0 + 1#256) ≠ 0#256)
    (hFee : pool.feeBps.toNat ≤ 10000) (zeroForOne : Bool) :
    HasDerivWithinAt (fun x => quoteF64With M keccak solve s pool x zeroForOne)
      (feeFactor ℝ pool.feeBps * curveSlope s pool addr r0 zeroForOne * unitRatio pool zeroForOne) (Set.Ici 0) 0 := by
  have h0 : 0 < u256ToF64 ℝ (s.read addr r0) := u256ToF64_pos hFirst
  have h1 : 0 < u256ToF64 ℝ (s.read addr (r0 + 1#256)) := u256ToF64_pos hSecond
  have hPower : ∀ d : U8, 0 < (10 : ℝ) ^ d.toNat := fun d => by positivity
  unfold quoteF64With
  simp only [hPlan, hDex, if_true]
  cases zeroForOne with
  | true => exact AeroStable.getAmountOutWith_hasDeriv hSolve h0 h1 (hPower _) (hPower _) hFee
  | false => exact AeroStable.getAmountOutWith_hasDeriv hSolve h1 h0 (hPower _) (hPower _) hFee

theorem spotRate_stable_eq (hPlan : s.plan pool.idx = some (.v2TwoSlot addr r0)) (hDex : pool.dex = .aeroStable)
    (hFirst : s.read addr r0 ≠ 0#256) (hSecond : s.read addr (r0 + 1#256) ≠ 0#256)
    (hFee : pool.feeBps.toNat < 10000) (zeroForOne : Bool) :
    feeFactor ℝ pool.feeBps * curveSlope s pool addr r0 zeroForOne * unitRatio pool zeroForOne =
      spotRate s pool zeroForOne ↔ pool.dec0 = pool.dec1 := by
  have hScale : 0 < feeFactor ℝ pool.feeBps * curveSlope s pool addr r0 zeroForOne :=
    mul_pos (feeFactor_pos hFee) (curveSlope_pos hFirst hSecond zeroForOne)
  rw [spotRate_stable hPlan hDex hFirst hSecond, ← unitRatio_eq_one pool zeroForOne]
  exact mul_eq_left₀ hScale.ne'

/-- The rate of a stable pool is the slope of its raw quote exactly when its tokens have
the same decimals. -/
theorem spotRate_stable_iff (hSolve : AeroStable.ExactSolver solve) (M : SwapMath ε) (keccak : Keccak)
    (hPlan : s.plan pool.idx = some (.v2TwoSlot addr r0)) (hDex : pool.dex = .aeroStable)
    (hFirst : s.read addr r0 ≠ 0#256) (hSecond : s.read addr (r0 + 1#256) ≠ 0#256)
    (hFee : pool.feeBps.toNat < 10000) (zeroForOne : Bool) :
    HasDerivWithinAt (fun x => quoteF64With M keccak solve s pool x zeroForOne) (spotRate s pool zeroForOne)
      (Set.Ici 0) 0 ↔ pool.dec0 = pool.dec1 := by
  have hDeriv := quoteF64_stable_hasDeriv hSolve M keccak hPlan hDex hFirst hSecond hFee.le zeroForOne
  rw [← spotRate_stable_eq hPlan hDex hFirst hSecond hFee zeroForOne]
  constructor
  · exact (uniqueDiffWithinAt_Ici 0).eq_deriv _ hDeriv
  · intro hSame
    exact hSame ▸ hDeriv

/-- A stable pair of a token with 18 decimals and one with 6, a million of each. -/
def stablePair (dec1 : U8) : PoolMeta where
  idx := 0
  address := 1#160
  dex := .aeroStable
  token0 := 2#160
  token1 := 3#160
  dec0 := 18#8
  dec1 := dec1
  feeBps := 5#32
  feePips := 500#32
  tickSpacing := 0
  v4 := none

def stableState : ChainState where
  memo := fun key => some (if key.2 = 8#256 then 1000000000000000000000000#256 else 1000000000000#256)
  tickCache := fun _ => none
  plans := [some (.v2TwoSlot 1#160 8#256)]

theorem stableState_plan (dec1 : U8) :
    stableState.plan (stablePair dec1).idx = some (.v2TwoSlot 1#160 8#256) := rfl

theorem stablePair_mixed : ¬HasDerivWithinAt (fun x => quoteF64With referenceMath referenceKeccak
    (fun xNew kk _ => root xNew kk) stableState (stablePair 6#8) x true) (spotRate stableState (stablePair 6#8) true)
    (Set.Ici 0) 0 := by
  intro hRate
  have hDeriv := quoteF64_stable_hasDeriv AeroStable.exactSolver_root referenceMath referenceKeccak
    (stableState_plan 6#8) rfl (by decide) (by decide) (by decide) true
  have hSame := (uniqueDiffWithinAt_Ici 0).eq_deriv _ hDeriv hRate
  have hDecimals := (spotRate_stable_eq (stableState_plan 6#8) rfl (by decide) (by decide) (by decide) true).mp hSame
  exact absurd hDecimals (by decide)

theorem stablePair_same : HasDerivWithinAt (fun x => quoteF64With referenceMath referenceKeccak
    (fun xNew kk _ => root xNew kk) stableState (stablePair 18#8) x true) (spotRate stableState (stablePair 18#8) true)
    (Set.Ici 0) 0 := by
  apply (spotRate_stable_iff AeroStable.exactSolver_root referenceMath referenceKeccak (stableState_plan 18#8) rfl
    (by decide) (by decide) (by decide) true).mpr
  rfl

end Pool

end Robinarb
