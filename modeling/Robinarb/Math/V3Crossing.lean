import Mathlib
import Robinarb.Math.V3
import Robinarb.Math.ReferenceMath

/-! # The walk crosses exactly the initialized ticks it passes

The invariant ties the tick variable to the price: the price lies between the
prices of the tick and of its successor, the upper end included, because a
downward crossing leaves the walk at that end.
-/

namespace Robinarb

open SwapMath

/-- The ticks a walk passes when its tick moves from `a` to `b`. -/
def Passed (zeroForOne : Bool) (a b t : Int) : Prop :=
  if zeroForOne then b < t ∧ t ≤ a else a < t ∧ t ≤ b

/-- The bits of a source are set only on ticks inside the protocol's bounds. -/
def TickSource.InBounds (src : TickSource) (spacing : Int) : Prop :=
  ∀ t, src.initialized spacing t = true → minTick ≤ t ∧ t ≤ maxTick

section Crossing

variable {ε : Type} {M : SwapMath ε} {src : TickSource} {p : SwapParams}

structure WalkInvariant (M : SwapMath ε) (s : SwapState) : Prop where
  tickLow : minTick ≤ s.tick
  tickHigh : s.tick < maxTick
  priceLow : M.ratio s.tick ≤ s.sqrtPrice.toNat
  priceHigh : s.sqrtPrice.toNat ≤ M.ratio (s.tick + 1)
  aboveMin : minSqrtRatio < s.sqrtPrice
  belowMax : s.sqrtPrice < maxSqrtRatio

/-- What the walk knows of the tick it heads for, after clamping. -/
structure Heading (src : TickSource) (p : SwapParams) (tick next : Int) (initialized : Bool) : Prop where
  low : minTick ≤ next
  high : next ≤ maxTick
  bit : src.initialized p.tickSpacing next = initialized
  side : if p.zeroForOne then next ≤ tick else tick < next
  clear : ∀ u, (if p.zeroForOne then next < u ∧ u ≤ tick else tick < u ∧ u < next) →
    src.initialized p.tickSpacing u = false

/-- Clamping keeps initialized ticks where they are and empty edges empty. -/
theorem heading_of_next (bits : M.BitLaws) (hs : SpacingRange p.tickSpacing)
    (hBounds : src.InBounds p.tickSpacing) {tick found : Int} {initialized : Bool}
    (hLow : minTick ≤ tick) (hHigh : tick < maxTick)
    (h : nextInitializedTickSrc M src tick p.tickSpacing p.zeroForOne = .ok (some (found, initialized))) :
    Heading src p tick (clampTick found) initialized := by
  have ht : TickRange tick := .of_bounds hLow hHigh.le
  have hClamp : minTick ≤ clampTick found ∧ clampTick found ≤ maxTick := by
    unfold clampTick minTick maxTick
    omega
  have hInside : initialized = true → src.initialized p.tickSpacing found = initialized →
      clampTick found = found := by
    intro hInit hBit
    have hFound := hBounds found (hBit.trans hInit)
    unfold clampTick
    omega
  cases hDir : p.zeroForOne with
  | true =>
    obtain ⟨hBit, hSide, hClear⟩ := nextInitializedTickSrc_down bits hs ht (hDir ▸ h)
    refine ⟨hClamp.1, hClamp.2, ?_, ?_, ?_⟩
    · by_cases hMin : found < minTick
      · have hEq : clampTick found = minTick := by
          unfold clampTick
          omega
        have hInit : initialized = false := by
          by_contra hTrue
          have hFound := hInside (Bool.eq_true_of_not_eq_false hTrue) hBit
          omega
        rw [hEq, hClear minTick hMin hLow, hInit]
      · have hEq : clampTick found = found := by
          unfold clampTick
          omega
        rw [hEq, hBit]
    · rw [if_pos hDir]
      unfold clampTick
      omega
    · intro u hu
      rw [if_pos hDir] at hu
      apply hClear u _ hu.2
      have hLe := hu.1
      unfold clampTick at hLe
      omega
  | false =>
    have hNot : ¬p.zeroForOne = true := by simp [hDir]
    obtain ⟨hBit, hSide, hClear⟩ := nextInitializedTickSrc_up bits hs ht (compressed_succ_lt hs hHigh.le) (hDir ▸ h)
    refine ⟨hClamp.1, hClamp.2, ?_, ?_, ?_⟩
    · by_cases hMax : maxTick < found
      · have hEq : clampTick found = maxTick := by
          unfold clampTick
          unfold minTick maxTick at *
          omega
        have hInit : initialized = false := by
          by_contra hTrue
          have hFound := hInside (Bool.eq_true_of_not_eq_false hTrue) hBit
          omega
        rw [hEq, hClear maxTick hHigh hMax, hInit]
      · have hEq : clampTick found = found := by
          unfold clampTick
          omega
        rw [hEq, hBit]
    · rw [if_neg hNot]
      unfold clampTick
      omega
    · intro u hu
      rw [if_neg hNot] at hu
      apply hClear u hu.1
      have hLt := hu.2
      unfold clampTick at hLt
      omega

theorem toNat_sqrtPriceLimit (zeroForOne : Bool) :
    (sqrtPriceLimit zeroForOne).toNat =
      if zeroForOne then minSqrtRatio.toNat + 1 else maxSqrtRatio.toNat - 1 := by
  cases zeroForOne <;> rfl

theorem toNat_sqrtTarget (zeroForOne : Bool) (sqrtPriceNext : U256) :
    (sqrtTarget zeroForOne sqrtPriceNext).toNat =
      if zeroForOne then max (minSqrtRatio.toNat + 1) sqrtPriceNext.toNat
      else min (maxSqrtRatio.toNat - 1) sqrtPriceNext.toNat := by
  have hLimit := toNat_sqrtPriceLimit zeroForOne
  unfold sqrtTarget
  simp only [BitVec.lt_def]
  cases zeroForOne with
  | true =>
    simp only [if_true, true_and, not_true_eq_false, false_and, or_false] at hLimit ⊢
    split <;> omega
  | false =>
    simp only [Bool.false_eq_true, if_false, false_and, not_false_eq_true, true_and, false_or] at hLimit ⊢
    split <;> omega

theorem step_price_bounds (ticks : M.TickLaws) (between : M.StepBetween) {s : SwapState}
    (hInv : WalkInvariant M s) {next : Int} {initialized : Bool}
    (hHead : Heading src p s.tick next initialized)
    {sqrtPriceNext sqrtPrice amountIn amountOut feeAmount : U256}
    (hNext : M.getSqrtRatioAtTick next = .ok sqrtPriceNext)
    (hStep : M.computeSwapStep s.sqrtPrice (sqrtTarget p.zeroForOne sqrtPriceNext) s.liquidity
      s.amountRemaining p.feePips = .ok (sqrtPrice, amountIn, amountOut, feeAmount)) :
    minSqrtRatio.toNat < sqrtPrice.toNat ∧ sqrtPrice.toNat < maxSqrtRatio.toNat ∧
    if p.zeroForOne then M.ratio next ≤ sqrtPrice.toNat ∧ sqrtPrice.toNat ≤ s.sqrtPrice.toNat
      else s.sqrtPrice.toNat ≤ sqrtPrice.toNat ∧ sqrtPrice.toNat ≤ M.ratio next := by
  obtain ⟨hTickLow, hTickHigh, hPriceLow, hPriceHigh, hMin, hMax⟩ := hInv
  obtain ⟨hLow, hHigh, _, hSide, _⟩ := hHead
  have hRatio := ratio_eq hNext
  have hNextMin : minSqrtRatio.toNat ≤ sqrtPriceNext.toNat := by
    rw [← ratio_eq ticks.ratio_minTick, ← hRatio]
    exact ticks.ratio_mono le_rfl hLow hHigh
  have hNextMax : sqrtPriceNext.toNat ≤ maxSqrtRatio.toNat := by
    rw [← ratio_eq ticks.ratio_maxTick, ← hRatio]
    exact ticks.ratio_mono hLow hHigh le_rfl
  have hTarget := toNat_sqrtTarget p.zeroForOne sqrtPriceNext
  have hGap : minSqrtRatio.toNat + 1 < maxSqrtRatio.toNat := by decide
  simp only [BitVec.lt_def] at hMin hMax
  cases hDir : p.zeroForOne with
  | true =>
    simp only [hDir, if_true] at hSide hTarget hStep ⊢
    have hBelow : M.ratio next ≤ M.ratio s.tick := ticks.ratio_mono hLow hSide hTickHigh.le
    obtain ⟨_, hDown⟩ := between _ _ _ _ _ _ _ _ _ (BitVec.le_def.mpr hMin.le) (BitVec.le_def.mpr hMax.le)
      (BitVec.le_def.mpr (by omega)) (BitVec.le_def.mpr (by omega)) hStep
    simp only [BitVec.le_def] at hDown
    have hRange := hDown (by omega)
    omega
  | false =>
    simp only [hDir, Bool.false_eq_true, if_false] at hSide hTarget hStep ⊢
    have hAbove : M.ratio (s.tick + 1) ≤ M.ratio next := ticks.ratio_mono (by omega) hSide hHigh
    obtain ⟨hUp, _⟩ := between _ _ _ _ _ _ _ _ _ (BitVec.le_def.mpr hMin.le) (BitVec.le_def.mpr hMax.le)
      (BitVec.le_def.mpr (by omega)) (BitVec.le_def.mpr (by omega)) hStep
    simp only [BitVec.le_def] at hUp
    have hRange := hUp (by omega)
    omega

/-- Where one iteration leaves the walk: on the next tick's far side if its price
was reached, strictly short of it otherwise. -/
structure Landing (M : SwapMath ε) (p : SwapParams) (s t : SwapState) (next : Int) : Prop where
  invariant : WalkInvariant M t
  reached : t.sqrtPrice.toNat = M.ratio next → t.tick = if p.zeroForOne then next - 1 else next
  short : t.sqrtPrice.toNat ≠ M.ratio next →
    if p.zeroForOne then next ≤ t.tick ∧ t.tick ≤ s.tick else s.tick ≤ t.tick ∧ t.tick < next

theorem landing_of_step (ticks : M.TickLaws) {s t : SwapState} {r : SwapReport}
    (hInv : WalkInvariant M s) {next : Int} {initialized : Bool}
    (hHead : Heading src p s.tick next initialized)
    {sqrtPriceNext sqrtPrice amountIn amountOut feeAmount : U256}
    (hNext : M.getSqrtRatioAtTick next = .ok sqrtPriceNext)
    (hBounds : minSqrtRatio.toNat < sqrtPrice.toNat ∧ sqrtPrice.toNat < maxSqrtRatio.toNat ∧
      if p.zeroForOne then M.ratio next ≤ sqrtPrice.toNat ∧ sqrtPrice.toNat ≤ s.sqrtPrice.toNat
        else s.sqrtPrice.toNat ≤ sqrtPrice.toNat ∧ sqrtPrice.toNat ≤ M.ratio next)
    (h : settleStep M src p s next initialized sqrtPriceNext (sqrtPrice, amountIn, amountOut, feeAmount) =
      .ok (some (t, r))) : Landing M p s t next := by
  obtain ⟨hTickLow, hTickHigh, hPriceLow, hPriceHigh, hMin, hMax⟩ := hInv
  obtain ⟨hLow, hHigh, _, hSide, _⟩ := hHead
  obtain ⟨hAboveMin, hBelowMax, hBetween⟩ := hBounds
  have hRatio := ratio_eq hNext
  have hRatioMin := ratio_eq ticks.ratio_minTick
  have hRatioMax := ratio_eq ticks.ratio_maxTick
  obtain ⟨hPrice, _, _, hCase⟩ := settleStep_cases h
  rw [← BitVec.lt_def, ← hPrice] at hAboveMin hBelowMax
  obtain ⟨hAt, hTick, _, _⟩ | ⟨hAt, _, _, hMove⟩ := hCase
  · have hEq : t.sqrtPrice.toNat = M.ratio next := by rw [hRatio, hPrice, hAt]
    have hNeMin : next ≠ minTick := by
      rintro rfl
      rw [BitVec.lt_def] at hAboveMin
      omega
    have hNeMax : next ≠ maxTick := by
      rintro rfl
      rw [BitVec.lt_def] at hBelowMax
      omega
    refine ⟨?_, fun _ => hTick, fun hNe => absurd hEq hNe⟩
    cases hDir : p.zeroForOne with
    | true =>
      rw [if_pos hDir] at hTick hSide
      refine ⟨by omega, by omega, ?_, ?_, hAboveMin, hBelowMax⟩
      · rw [hEq, hTick]
        exact ticks.ratio_mono (by omega) (by omega) hHigh
      · rw [hEq, hTick, Int.sub_add_cancel]
    | false =>
      rw [if_neg (by simp [hDir])] at hTick hSide
      refine ⟨by omega, by omega, ?_, ?_, hAboveMin, hBelowMax⟩
      · rw [hEq, hTick]
      · rw [hEq, hTick]
        exact ticks.ratio_mono hLow (by omega) (by omega)
  · have hNe : t.sqrtPrice.toNat ≠ M.ratio next := by
      rw [hRatio, hPrice]
      exact fun hEq => hAt (BitVec.eq_of_toNat_eq hEq)
    rw [← hPrice] at hBetween
    obtain ⟨hStay, hTick⟩ | ⟨hMoved, hTick⟩ := hMove
    · have hStart : t.sqrtPrice = s.sqrtPrice := hPrice.trans hStay
      refine ⟨?_, fun hEq => absurd hEq hNe, fun _ => ?_⟩
      · rw [← hTick] at hTickLow hTickHigh hPriceLow hPriceHigh
        exact ⟨hTickLow, hTickHigh, hStart ▸ hPriceLow, hStart ▸ hPriceHigh, hAboveMin, hBelowMax⟩
      · rw [hTick]
        split at hSide
        · rename_i hDir
          rw [if_pos hDir]
          exact ⟨hSide, le_rfl⟩
        · rename_i hDir
          rw [if_neg hDir]
          exact ⟨le_rfl, hSide⟩
    · rw [← hPrice] at hMoved hTick
      have hMovedNat : t.sqrtPrice.toNat ≠ s.sqrtPrice.toNat := fun hEq => hMoved (BitVec.eq_of_toNat_eq hEq)
      obtain ⟨hFloorLow, hFloorHigh, hFloor, hCeil⟩ :=
        ticks.tick_floor _ _ (BitVec.le_of_lt hAboveMin) hBelowMax hTick
      refine ⟨⟨hFloorLow, hFloorHigh, hFloor, hCeil.le, hAboveMin, hBelowMax⟩,
        fun hEq => absurd hEq hNe, fun _ => ?_⟩
      split at hBetween
      · rename_i hDir
        rw [if_pos hDir]
        have hAfter : next < t.tick + 1 := ticks.lt_of_ratio_lt (by omega) hHigh (by omega)
        have hBefore : t.tick < s.tick + 1 := ticks.lt_of_ratio_lt (by omega) (by omega) (by omega)
        omega
      · rename_i hDir
        rw [if_neg hDir]
        have hBefore : t.tick < next := ticks.lt_of_ratio_lt hLow (by omega) (by omega)
        have hAfter : s.tick < t.tick + 1 := ticks.lt_of_ratio_lt (by omega) (by omega) (by omega)
        omega

def signedNet (src : TickSource) (p : SwapParams) (t : Int) : Int :=
  if p.zeroForOne then -(src.liquidityNet t).toInt else (src.liquidityNet t).toInt

theorem crossLiquidity_eq (delta : M.DeltaExact) (hNet : ∀ t, -2 ^ 127 < (src.liquidityNet t).toInt)
    {before after : U128} {next : Int} {initialized : Bool}
    (h : crossLiquidity M src p before next initialized = .ok after) :
    (after.toNat : Int) = before.toNat + if initialized then signedNet src p next else 0 := by
  unfold crossLiquidity at h
  split at h
  · rename_i hInit
    rw [delta _ _ _ h, if_pos hInit, signedNet]
    split
    · have hMin : src.liquidityNet next ≠ BitVec.intMin 128 := by
        intro hEq
        have hLow := hNet next
        rw [hEq] at hLow
        exact absurd hLow (by decide)
      rw [BitVec.toInt_neg_of_ne_intMin hMin]
    · rfl
  · rename_i hInit
    cases h
    rw [if_neg hInit, Int.add_zero]

/-- Reaching the next tick passes that tick and nothing else that is initialized. -/
theorem Heading.passed_reached {tick next : Int} {initialized : Bool}
    (hHead : Heading src p tick next initialized) (u : Int) :
    (Passed p.zeroForOne tick (if p.zeroForOne then next - 1 else next) u ∧
      src.initialized p.tickSpacing u = true) ↔ u = next ∧ initialized = true := by
  obtain ⟨_, _, hBit, hSide, hClear⟩ := hHead
  have hClear := hClear u
  unfold Passed
  constructor
  · rintro ⟨hPassed, hInit⟩
    have hEq : u = next := by
      by_contra hNe
      rw [hClear (by split <;> rename_i hDir <;> simp only [hDir] at hPassed <;> simp at hPassed <;> omega)]
        at hInit
      cases hInit
    exact ⟨hEq, by rw [← hBit, ← hEq, hInit]⟩
  · rintro ⟨rfl, hInit⟩
    refine ⟨?_, by rw [hBit, hInit]⟩
    split at hSide <;> rename_i hDir <;> simp only [hDir] <;> simp <;> omega

theorem Heading.passed_short {tick next stop : Int} {initialized : Bool}
    (hHead : Heading src p tick next initialized)
    (hStop : if p.zeroForOne then next ≤ stop ∧ stop ≤ tick else tick ≤ stop ∧ stop < next) {u : Int}
    (hPassed : Passed p.zeroForOne tick stop u) : src.initialized p.tickSpacing u = false := by
  apply hHead.clear
  unfold Passed at hPassed
  split at hStop <;> rename_i hDir <;> simp only [hDir] at hPassed ⊢ <;> simp at hPassed ⊢ <;> omega

/-- One iteration crosses the initialized ticks it passes, which are at most one. -/
theorem swapBody_passes (bits : M.BitLaws) (ticks : M.TickLaws) (between : M.StepBetween)
    (delta : M.DeltaExact) (hs : SpacingRange p.tickSpacing) (hBounds : src.InBounds p.tickSpacing)
    (hNet : ∀ t, -2 ^ 127 < (src.liquidityNet t).toInt) {s t : SwapState} {r : SwapReport}
    (hInv : WalkInvariant M s) (h : swapBody M src p s = .ok (some (t, r))) :
    WalkInvariant M t ∧ (if p.zeroForOne then t.tick ≤ s.tick else s.tick ≤ t.tick) ∧
    (∀ u, r.crossed = some u ↔
      Passed p.zeroForOne s.tick t.tick u ∧ src.initialized p.tickSpacing u = true) ∧
    (t.liquidity.toNat : Int) = s.liquidity.toNat + (r.crossed.map (signedNet src p)).getD 0 := by
  obtain ⟨_, _, found, initialized, sqrtPriceNext, sqrtPrice, amountIn, amountOut, feeAmount, hFound,
    hNext, hStep, hSettle⟩ := swapBody_next h
  have hHead := heading_of_next bits hs hBounds hInv.tickLow hInv.tickHigh hFound
  have hLanding := landing_of_step ticks hInv hHead hNext
    (step_price_bounds ticks between hInv hHead hNext hStep) hSettle
  obtain ⟨hPrice, _, _, hCase⟩ := settleStep_cases hSettle
  have hRatio := ratio_eq hNext
  generalize clampTick found = next at *
  refine ⟨hLanding.invariant, ?_⟩
  obtain ⟨hAt, hTick, hLiquidity, hCrossed⟩ | ⟨hAt, hLiquidity, hCrossed, _⟩ := hCase
  · refine ⟨?_, ?_, ?_⟩
    · rw [hTick]
      have hSide := hHead.side
      split at hSide <;> rename_i hDir <;> simp only [hDir] <;> simp <;> omega
    · intro u
      rw [hCrossed, hTick, hHead.passed_reached u]
      cases initialized <;> simp [eq_comm]
    · rw [crossLiquidity_eq delta hNet hLiquidity, hCrossed]
      cases initialized <;> rfl
  · have hShort := hLanding.short (by
      rw [hRatio, hPrice]
      exact fun hEq => hAt (BitVec.eq_of_toNat_eq hEq))
    refine ⟨?_, ?_, ?_⟩
    · split at hShort <;> rename_i hDir
      · rw [if_pos hDir]
        exact hShort.2
      · rw [if_neg hDir]
        exact hShort.1
    · intro u
      rw [hCrossed]
      constructor
      · intro hNone
        cases hNone
      · rintro ⟨hPassed, hInit⟩
        rw [hHead.passed_short hShort hPassed] at hInit
        cases hInit
    · rw [hLiquidity, hCrossed]
      simp

/-- What a whole walk crossed between its first and its last tick. -/
structure CrossedExactly (src : TickSource) (p : SwapParams) (s : SwapState) (crossed : List Int)
    (final : SwapState) : Prop where
  side : if p.zeroForOne then final.tick ≤ s.tick else s.tick ≤ final.tick
  mem_iff : ∀ u, u ∈ crossed ↔
    Passed p.zeroForOne s.tick final.tick u ∧ src.initialized p.tickSpacing u = true
  ordered : crossed.Pairwise fun a b => if p.zeroForOne then b < a else a < b
  liquidity : (final.liquidity.toNat : Int) = s.liquidity.toNat + (crossed.map (signedNet src p)).sum

theorem CrossedExactly.refl (s : SwapState) : CrossedExactly src p s [] s where
  side := by split <;> exact le_rfl
  mem_iff u := by
    unfold Passed
    split <;> simp
  ordered := .nil
  liquidity := by simp

theorem CrossedExactly.step {s t final : SwapState} {crossed : Option Int} {later : List Int}
    (hSide : if p.zeroForOne then t.tick ≤ s.tick else s.tick ≤ t.tick)
    (hStep : ∀ u, crossed = some u ↔
      Passed p.zeroForOne s.tick t.tick u ∧ src.initialized p.tickSpacing u = true)
    (hLiquidity : (t.liquidity.toNat : Int) = s.liquidity.toNat + (crossed.map (signedNet src p)).getD 0)
    (h : CrossedExactly src p t later final) : CrossedExactly src p s (crossed.toList ++ later) final := by
  obtain ⟨hSide', hMem, hOrdered, hLater⟩ := h
  have hSplit : ∀ u, Passed p.zeroForOne s.tick final.tick u ↔
      Passed p.zeroForOne s.tick t.tick u ∨ Passed p.zeroForOne t.tick final.tick u := by
    intro u
    unfold Passed
    cases hDir : p.zeroForOne <;> simp [hDir] at hSide hSide' ⊢ <;> omega
  refine ⟨?_, ?_, ?_, ?_⟩
  · cases hDir : p.zeroForOne <;> simp [hDir] at hSide hSide' ⊢ <;> omega
  · intro u
    rw [List.mem_append, Option.mem_toList, hStep u, hMem u, hSplit u, or_and_right]
  · rw [List.pairwise_append]
    refine ⟨by cases crossed <;> simp, hOrdered, ?_⟩
    intro a ha b hb
    have hFirst := ((hStep a).mp (Option.mem_toList.mp ha)).1
    have hSecond := ((hMem b).mp hb).1
    unfold Passed at hFirst hSecond
    cases hDir : p.zeroForOne <;> simp [hDir] at hFirst hSecond ⊢ <;> omega
  · rw [hLater, hLiquidity]
    cases crossed <;> simp
    omega

/-- The ticks whose `liquidityNet` a walk applied, in the order it applied them. -/
def crossedTicks (reports : List SwapReport) : List Int := reports.filterMap SwapReport.crossed

theorem swapWalk_crosses (bits : M.BitLaws) (ticks : M.TickLaws) (between : M.StepBetween)
    (delta : M.DeltaExact) (hs : SpacingRange p.tickSpacing) (hBounds : src.InBounds p.tickSpacing)
    (hNet : ∀ t, -2 ^ 127 < (src.liquidityNet t).toInt) {s final : SwapState} {reports : List SwapReport}
    (hInv : WalkInvariant M s) (h : swapWalk M src p s = .ok (final, reports)) :
    CrossedExactly src p s (crossedTicks reports) final := by
  have hStep := fun {s t : SwapState} {r : SwapReport} (hInv : WalkInvariant M s)
      (hBody : swapBody M src p s = .ok (some (t, r))) =>
    swapBody_passes bits ticks between delta hs hBounds hNet hInv hBody
  refine (BoundedLoop.run_induct (WalkInvariant M)
    (fun s reports final => CrossedExactly src p s (crossedTicks reports) final) ?_ ?_ ?_ hInv h).1
  · exact fun s t r hs hBody => (hStep hs hBody).1
  · exact fun s _ => CrossedExactly.refl s
  · intro s t r reports final hs hBody hLater
    obtain ⟨_, hSide, hCrossed, hLiquidity⟩ := hStep hs hBody
    have hCons : crossedTicks (r :: reports) = r.crossed.toList ++ crossedTicks reports := by
      cases hCase : r.crossed <;> simp [crossedTicks, hCase]
    rw [hCons]
    exact CrossedExactly.step hSide hCrossed hLiquidity hLater

theorem sum_crossed {crossed : List Int} (hNodup : crossed.Nodup) (passed : Finset Int)
    (hMem : ∀ u, u ∈ crossed ↔ u ∈ passed) (f : Int → Int) : (crossed.map f).sum = ∑ t ∈ passed, f t := by
  have hEq : crossed.toFinset = passed := by
    ext u
    rw [List.mem_toFinset, hMem]
  rw [← hEq, List.sum_toFinset f hNodup]

/-- A successful `try_swap_src` crosses, once each and in price order, exactly the
initialized ticks between the start tick and the final one, and its final
liquidity has moved by exactly their nets. -/
theorem trySwapSrc_crosses_exactly (bits : M.BitLaws) (ticks : M.TickLaws) (between : M.StepBetween)
    (delta : M.DeltaExact) (hs : SpacingRange p.tickSpacing) (hBounds : src.InBounds p.tickSpacing)
    (hNet : ∀ t, -2 ^ 127 < (src.liquidityNet t).toInt) {amountIn sqrtPriceX96 : U256} {startTick : Int}
    {startLiquidity : U128} (hMin : minSqrtRatio < sqrtPriceX96) (hMax : sqrtPriceX96 < maxSqrtRatio)
    (hTickLow : minTick ≤ startTick) (hTickHigh : startTick < maxTick)
    (hPriceLow : M.ratio startTick ≤ sqrtPriceX96.toNat)
    (hPriceHigh : sqrtPriceX96.toNat ≤ M.ratio (startTick + 1)) {out : U256}
    (h : trySwapSrc M src p amountIn sqrtPriceX96 startTick startLiquidity = .ok out) :
    ∃ final reports,
      swapWalk M src p (startState amountIn sqrtPriceX96 startTick startLiquidity) = .ok (final, reports) ∧
      out = -final.amountCalculated ∧
      (p.zeroForOne = true →
        (crossedTicks reports).Pairwise (fun a b => b < a) ∧
        (∀ t, t ∈ crossedTicks reports ↔
          final.tick < t ∧ t ≤ startTick ∧ src.initialized p.tickSpacing t = true) ∧
        (final.liquidity.toNat : Int) = startLiquidity.toNat -
          ∑ t ∈ (Finset.Ioc final.tick startTick).filter (fun t => src.initialized p.tickSpacing t = true),
            (src.liquidityNet t).toInt) ∧
      (p.zeroForOne = false →
        (crossedTicks reports).Pairwise (fun a b => a < b) ∧
        (∀ t, t ∈ crossedTicks reports ↔
          startTick < t ∧ t ≤ final.tick ∧ src.initialized p.tickSpacing t = true) ∧
        (final.liquidity.toNat : Int) = startLiquidity.toNat +
          ∑ t ∈ (Finset.Ioc startTick final.tick).filter (fun t => src.initialized p.tickSpacing t = true),
            (src.liquidityNet t).toInt) := by
  obtain ⟨final, reports, hWalk, hOut⟩ := trySwapSrc_walk h
  have hInv : WalkInvariant M (startState amountIn sqrtPriceX96 startTick startLiquidity) :=
    ⟨hTickLow, hTickHigh, hPriceLow, hPriceHigh, hMin, hMax⟩
  obtain ⟨_, hMem, hOrdered, hLiquidity⟩ :=
    swapWalk_crosses bits ticks between delta hs hBounds hNet hInv hWalk
  refine ⟨final, reports, hWalk, hOut, ?_, ?_⟩
  · intro hDir
    simp only [hDir, if_true, Passed, and_assoc] at hMem hOrdered
    refine ⟨hOrdered, hMem, ?_⟩
    have hNodup : (crossedTicks reports).Nodup := hOrdered.imp fun hlt => hlt.ne'
    rw [hLiquidity, sum_crossed hNodup ((Finset.Ioc final.tick startTick).filter
      (fun t => src.initialized p.tickSpacing t = true)) (by simpa [and_assoc, startState] using hMem)]
    simp only [signedNet, hDir, if_true, Finset.sum_neg_distrib, startState, Int.sub_eq_add_neg]
  · intro hDir
    simp only [hDir, Bool.false_eq_true, if_false, Passed, and_assoc] at hMem hOrdered
    refine ⟨hOrdered, hMem, ?_⟩
    have hNodup : (crossedTicks reports).Nodup := hOrdered.imp fun hlt => hlt.ne
    rw [hLiquidity, sum_crossed hNodup ((Finset.Ioc startTick final.tick).filter
      (fun t => src.initialized p.tickSpacing t = true)) (by simpa [and_assoc, startState] using hMem)]
    simp only [signedNet, hDir, Bool.false_eq_true, if_false, startState]

end Crossing

/-- Two initialized ticks, 0 and 1, in the one word that is known. -/
def twoTicks : TickSource := mapSource [(0, 3#256)] [(0, 400000000000#128), (1, 250000000000#128)]

theorem twoTicks_inBounds : twoTicks.InBounds 1 := by
  intro t h
  simp only [TickSource.initialized, Bool.and_eq_true, Int.ediv_one, TickSource.bitSet, twoTicks, mapSource,
    List.lookup_cons, List.lookup_nil] at h
  have hWord : t / 256 = 0 := by
    by_contra hNe
    rw [show (t / 256 == 0) = false by simpa using hNe] at h
    simp at h
  unfold minTick maxTick
  omega

theorem twoTicks_net (t : Int) : -2 ^ 127 < (twoTicks.liquidityNet t).toInt := by
  simp only [twoTicks, mapSource, List.lookup_cons, List.lookup_nil]
  split
  · decide
  · split <;> decide

theorem twoTicks_crossed : ∃ final reports,
    swapWalk referenceMath twoTicks ⟨true, 3000#32, 1⟩
      (startState 1000000000000000#256 79232123823359799118286999568#256 1 1000000000000000000#128) =
        .ok (final, reports) ∧
    (crossedTicks reports).Pairwise (fun a b => b < a) ∧
    ∀ t, t ∈ crossedTicks reports ↔ final.tick < t ∧ t ≤ 1 ∧ twoTicks.initialized 1 t = true := by
  have hOut : trySwapSrc referenceMath twoTicks ⟨true, 3000#32, 1⟩ 1000000000000000#256
      79232123823359799118286999568#256 1 1000000000000000000#128 = .ok 49998737562808#256 := by
    decide +kernel
  obtain ⟨final, reports, hWalk, _, hDown, _⟩ := trySwapSrc_crosses_exactly referenceMath_bitLaws
    referenceMath_tickLaws referenceMath_stepBetween referenceMath_deltaExact ⟨by decide, by decide⟩
    twoTicks_inBounds twoTicks_net (by decide) (by decide) (by decide) (by decide) (by decide) (by decide) hOut
  exact ⟨final, reports, hWalk, (hDown rfl).1, (hDown rfl).2.1⟩

end Robinarb
