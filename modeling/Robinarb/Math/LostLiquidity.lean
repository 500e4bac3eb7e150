import Robinarb.Math.V3Hydration
import Mathlib.Algebra.Order.BigOperators.Group.List

/-! # Walks over lost liquidity

Where a net reads other than the pool's, the walk goes on and trades with a
liquidity the pool does not have. It reaches such a step from a certain input on,
and that input depends on the tick data alone. Before it the walk trades as over
the full source, and steps without liquidity give nothing.
-/

namespace Robinarb

section Lost

variable {ε : Type} (M : SwapMath ε) (src full : TickSource) (p : SwapParams)

/-- The iteration crosses a tick whose net is not the one of the full source. -/
def losesNet (report : SwapReport) : Bool :=
  report.crossed.any fun tick => src.liquidityNet tick != full.liquidityNet tick

/-- The walk trades on after it lost liquidity. -/
def TradesLost : Nat → Bool → SwapState → Prop
  | 0, _, _ => False
  | n + 1, lost, s =>
    (lost = true ∧ s.liquidity ≠ 0#128 ∧ swapBody M src p s ≠ .ok none) ∨
      ∃ next report, swapBody M src p s = .ok (some (next, report)) ∧
        TradesLost n (lost || losesNet src full report) next

/-- The state with the largest amount left. -/
def SwapState.unlimited (s : SwapState) : SwapState := { s with amountRemaining := BitVec.ofNat 256 (2 ^ 255 - 1) }

/-- What an iteration over unlimited input took of it. -/
def SwapState.spent (next : SwapState) : Nat := 2 ^ 255 - 1 - next.amountRemaining.toNat

/-- The input taken by the steps before the first one that trades with a lost liquidity. -/
def lostDepth : Nat → Bool → SwapState → Option Nat
  | 0, _, _ => none
  | n + 1, lost, s =>
    if lost = true ∧ s.liquidity ≠ 0#128 then
      match swapBody M src p s.unlimited with
      | .ok none => none
      | _ => some 0
    else
      match swapBody M src p s.unlimited with
      | .ok (some (next, report)) =>
        (lostDepth n (lost || losesNet src full report) next).map fun depth => depth + next.spent
      | _ => none

end Lost

section Iterations

variable {ε : Type} {M : SwapMath ε} {src full : TickSource} {p : SwapParams}

theorem getSqrtRatioAtTick_lt (laws : M.TickLaws) {tick : Int} {price : U256} (hLow : minTick ≤ tick)
    (hHigh : tick ≤ maxTick) (h : M.getSqrtRatioAtTick tick = .ok price) : price.toNat < 2 ^ 160 := by
  have hMono := laws.ratio_mono hLow hHigh le_rfl
  rw [SwapMath.ratio_eq h, SwapMath.ratio_eq laws.ratio_maxTick] at hMono
  exact hMono.trans_lt (by decide)

theorem sqrtTarget_lt (zeroForOne : Bool) {price : U256} (h : price.toNat < 2 ^ 160) :
    (sqrtTarget zeroForOne price).toNat < 2 ^ 160 := by
  unfold sqrtTarget
  split
  · cases zeroForOne <;> decide
  · exact h

/-- Prices stay `uint160` along the walk and every output stays below `2^224`. -/
theorem swapBody_bounded (laws : M.TickLaws) (bounded : M.StepBounded) {s t : SwapState} {r : SwapReport}
    (hPrice : s.sqrtPrice.toNat < 2 ^ 160) (h : swapBody M src p s = .ok (some (t, r))) :
    t.sqrtPrice.toNat < 2 ^ 160 ∧ r.amountOut.toNat < 2 ^ 224 := by
  obtain ⟨_, _, found, _, sqrtPriceNext, sqrtPrice, _, amountOut, _, _, hNext, hStep, hSettle⟩ := swapBody_next h
  have hClamp := clampTick_range found
  have hTarget := sqrtTarget_lt p.zeroForOne
    (getSqrtRatioAtTick_lt laws hClamp.1 hClamp.2 hNext)
  obtain ⟨hSqrt, _, hOut, _⟩ := settleStep_cases hSettle
  rw [hSqrt, hOut]
  exact bounded _ _ _ _ _ _ _ _ _ hPrice hTarget hStep

theorem swapWalk_totalOut_lt (laws : M.TickLaws) (bounded : M.StepBounded) {s final : SwapState}
    {reports : List SwapReport} (hPrice : s.sqrtPrice.toNat < 2 ^ 160)
    (h : swapWalk M src p s = .ok (final, reports)) : totalOut reports < 2 ^ 255 := by
  have hEach : ∀ r ∈ reports, r.amountOut.toNat < 2 ^ 224 := by
    refine (BoundedLoop.run_induct (fun u : SwapState => u.sqrtPrice.toNat < 2 ^ 160)
      (fun _ reports _ => ∀ r ∈ reports, r.amountOut.toNat < 2 ^ 224)
      (fun _ _ _ hu hBody => (swapBody_bounded laws bounded hu hBody).1) (fun _ _ => nofun) ?_ hPrice h).1
    intro u v r rest _ hu hBody hRest r' hMem
    obtain rfl | hMem := List.mem_cons.mp hMem
    · exact (swapBody_bounded laws bounded hu hBody).2
    · exact hRest r' hMem
  have hLength := BoundedLoop.run_length_le h
  have hSum : totalOut reports ≤ reports.length * 2 ^ 224 := by
    have hBound := List.sum_le_card_nsmul (reports.map fun r => r.amountOut.toNat) (2 ^ 224) (by
      intro n hn
      obtain ⟨r, hr, rfl⟩ := List.mem_map.mp hn
      exact (hEach r hr).le)
    simpa [totalOut] using hBound
  calc
    totalOut reports ≤ reports.length * 2 ^ 224 := hSum
    _ ≤ 1024 * 2 ^ 224 := Nat.mul_le_mul_right _ hLength
    _ < 2 ^ 255 := by decide

theorem swapBody_of_parts {s : SwapState} {found : Int} {initialized : Bool} {sqrtPriceNext : U256}
    {step : U256 × U256 × U256 × U256} (hRemaining : s.amountRemaining ≠ 0#256)
    (hLimit : s.sqrtPrice ≠ sqrtPriceLimit p.zeroForOne)
    (hFound : nextInitializedTickSrc M src s.tick p.tickSpacing p.zeroForOne = .ok (some (found, initialized)))
    (hNext : M.getSqrtRatioAtTick (clampTick found) = .ok sqrtPriceNext)
    (hStep : M.computeSwapStep s.sqrtPrice (sqrtTarget p.zeroForOne sqrtPriceNext) s.liquidity
      s.amountRemaining p.feePips = .ok step) :
    swapBody M src p s = settleStep M src p s (clampTick found) initialized sqrtPriceNext step := by
  unfold swapBody
  rw [if_pos ⟨hRemaining, hLimit⟩, hFound]
  change stepTowards M src p s (clampTick found) initialized = _
  unfold stepTowards
  rw [hNext]
  change M.computeSwapStep _ _ _ _ _ >>= _ = _
  rw [hStep]
  rfl

theorem settleStep_ne_stop (s : SwapState) (nextTick : Int) (initialized : Bool) (sqrtPriceNext : U256)
    (step : U256 × U256 × U256 × U256) : settleStep M src p s nextTick initialized sqrtPriceNext step ≠ .ok none := by
  intro h
  simp only [settleStep] at h
  split at h
  · obtain ⟨_, _, hEq⟩ := bind_ok h
    cases hEq
  · split at h
    · obtain ⟨_, _, hEq⟩ := bind_ok h
      cases hEq
    · cases h

theorem swapBody_stop_iff {s : SwapState} :
    swapBody M src p s = .ok none ↔ s.amountRemaining = 0#256 ∨ s.sqrtPrice = sqrtPriceLimit p.zeroForOne ∨
      nextInitializedTickSrc M src s.tick p.tickSpacing p.zeroForOne = .ok none := by
  by_cases hCond : s.amountRemaining ≠ 0#256 ∧ s.sqrtPrice ≠ sqrtPriceLimit p.zeroForOne
  · have hStop : swapBody M src p s = .ok none ↔
        nextInitializedTickSrc M src s.tick p.tickSpacing p.zeroForOne = .ok none := by
      unfold swapBody
      rw [if_pos hCond]
      rcases hFound : nextInitializedTickSrc M src s.tick p.tickSpacing p.zeroForOne with e | _ | ⟨found, initialized⟩
      · exact iff_of_false nofun nofun
      · exact iff_of_true rfl rfl
      · refine iff_of_false (fun h => ?_) nofun
        obtain ⟨_, hSome, hTowards⟩ := bind_ok h
        cases hSome
        obtain ⟨_, _, hRest⟩ := bind_ok hTowards
        obtain ⟨_, _, hSettle⟩ := bind_ok hRest
        exact settleStep_ne_stop _ _ _ _ _ hSettle
    rw [hStop]
    simp only [hCond.1, hCond.2, false_or]
  · have hStop : swapBody M src p s = .ok none := by
      unfold swapBody
      rw [if_neg hCond]
    rw [hStop]
    simp only [true_iff]
    by_cases hRemaining : s.amountRemaining = 0#256
    · exact .inl hRemaining
    · exact .inr (.inl (not_not.mp fun hLimit => hCond ⟨hRemaining, hLimit⟩))

/-- The remaining amount goes through the tail of an iteration unread. -/
theorem settleStep_withRemaining {s t : SwapState} {r : SwapReport} {nextTick : Int} {initialized : Bool}
    {sqrtPriceNext sqrtPrice amountIn amountOut feeAmount : U256} (other : I256)
    (h : settleStep M src p s nextTick initialized sqrtPriceNext (sqrtPrice, amountIn, amountOut, feeAmount) =
      .ok (some (t, r))) :
    t.amountRemaining = s.amountRemaining - (amountIn + feeAmount) ∧
    settleStep M src p { s with amountRemaining := other } nextTick initialized sqrtPriceNext
        (sqrtPrice, amountIn, amountOut, feeAmount) =
      .ok (some ({ t with amountRemaining := other - (amountIn + feeAmount) }, r)) := by
  simp only [settleStep] at h ⊢
  split at h
  · rename_i hNext
    obtain ⟨liquidity, hLiquidity, hEq⟩ := bind_ok h
    cases hEq
    rw [if_pos hNext, hLiquidity]
    exact ⟨rfl, rfl⟩
  · rename_i hNext
    rw [if_neg hNext]
    split at h
    · rename_i hMoved
      obtain ⟨tick, hTick, hEq⟩ := bind_ok h
      cases hEq
      rw [if_pos hMoved, hTick]
      exact ⟨rfl, rfl⟩
    · rename_i hStart
      cases h
      rw [if_neg hStart]
      exact ⟨rfl, rfl⟩

end Iterations

section Depth

variable {ε : Type} {M : SwapMath ε} {src full : TickSource} {p : SwapParams}

theorem unlimited_toNat (s : SwapState) : s.unlimited.amountRemaining.toNat = 2 ^ 255 - 1 := by
  simp only [SwapState.unlimited, BitVec.toNat_ofNat]
  decide

/-- The state after a step that left `other` of the input. -/
def SwapState.left (next : SwapState) (before : I256) : SwapState :=
  { next with amountRemaining := before - BitVec.ofNat 256 next.spent }

theorem SwapState.left_toNat {next : SwapState} {before : I256} (h : next.spent ≤ before.toNat) :
    (next.left before).amountRemaining.toNat = before.toNat - next.spent := by
  have hLt := before.isLt
  have hSpent : (BitVec.ofNat 256 next.spent).toNat = next.spent := by
    rw [BitVec.toNat_ofNat, Nat.mod_eq_of_lt (by omega)]
  rw [SwapState.left, BitVec.toNat_sub_of_le (by rw [BitVec.le_def, hSpent]; exact h), hSpent]

theorem lostDepth_left (n : Nat) (lost : Bool) (next : SwapState) (before : I256) :
    lostDepth M src full p n lost (next.left before) = lostDepth M src full p n lost next := by
  cases n <;> rfl

theorem swapBody_stop_unlimited {s : SwapState} (hRemaining : s.amountRemaining ≠ 0#256) :
    swapBody M src p s.unlimited = .ok none ↔ swapBody M src p s = .ok none := by
  have hMany : s.unlimited.amountRemaining ≠ 0#256 := by simp only [SwapState.unlimited]; decide
  rw [swapBody_stop_iff, swapBody_stop_iff]
  simp only [hMany, hRemaining, false_or]
  rfl

/-- An iteration takes all the input that is left, or is the iteration over unlimited input. -/
theorem swapBody_unlimited (laws : M.TickLaws) (threshold : M.StepThreshold) (hFee : p.feePips.toNat < 10 ^ 6)
    {s t : SwapState} {r : SwapReport} (hPrice : s.sqrtPrice.toNat < 2 ^ 160)
    (hRemaining : s.amountRemaining.toNat < 2 ^ 255) (h : swapBody M src p s = .ok (some (t, r))) :
    t.amountRemaining = 0#256 ∨
      ∃ next, swapBody M src p s.unlimited = .ok (some (next, r)) ∧ next.spent ≤ s.amountRemaining.toNat ∧
        t = next.left s.amountRemaining := by
  obtain ⟨_, hLimit, found, initialized, sqrtPriceNext, sqrtPrice, amountIn, amountOut, feeAmount, hFound,
    hNext, hStep, hSettle⟩ := swapBody_next h
  have hClamp := clampTick_range found
  have hTarget := sqrtTarget_lt p.zeroForOne (getSqrtRatioAtTick_lt laws hClamp.1 hClamp.2 hNext)
  obtain ⟨hPaid, hShort, hReached⟩ := threshold _ _ _ _ _ _ _ _ _ hPrice hTarget hRemaining hFee hStep
  have hSum : (amountIn + feeAmount).toNat = amountIn.toNat + feeAmount.toNat := by
    rw [BitVec.toNat_add, Nat.mod_eq_of_lt (by omega)]
  have hLeft := (settleStep_withRemaining s.unlimited.amountRemaining hSettle).1
  by_cases hTo : sqrtPrice = sqrtTarget p.zeroForOne sqrtPriceNext
  · have hMany := hReached hTo s.unlimited.amountRemaining (by rw [unlimited_toNat]; omega)
      (by rw [unlimited_toNat]; decide)
    have hOver := (settleStep_withRemaining s.unlimited.amountRemaining hSettle).2
    have hSpent : SwapState.spent { t with amountRemaining := s.unlimited.amountRemaining - (amountIn + feeAmount) } =
        amountIn.toNat + feeAmount.toNat := by
      have hLe : amountIn + feeAmount ≤ s.unlimited.amountRemaining := by
        rw [BitVec.le_def, hSum, unlimited_toNat]
        omega
      rw [SwapState.spent, BitVec.toNat_sub_of_le hLe, hSum, unlimited_toNat]
      omega
    refine .inr ⟨_, ?_, hSpent.trans_le hPaid, ?_⟩
    · rw [← hOver]
      exact swapBody_of_parts (by simp only [SwapState.unlimited]; decide) hLimit hFound hNext hMany
    · rw [SwapState.left, hSpent, ← hSum, BitVec.ofNat_toNat, BitVec.setWidth_eq, ← hLeft]
  · refine .inl ?_
    rw [hLeft]
    have hAll : amountIn + feeAmount = s.amountRemaining := by
      apply BitVec.eq_of_toNat_eq
      rw [hSum, hShort hTo]
    rw [hAll, BitVec.sub_self]

/-- What an iteration over unlimited input does, it does wherever its cost remains. -/
theorem swapBody_of_unlimited (laws : M.TickLaws) (threshold : M.StepThreshold) (hFee : p.feePips.toNat < 10 ^ 6)
    {s next : SwapState} {r : SwapReport} (hPrice : s.sqrtPrice.toNat < 2 ^ 160)
    (hRemaining : s.amountRemaining.toNat < 2 ^ 255) (hSome : s.amountRemaining ≠ 0#256)
    (h : swapBody M src p s.unlimited = .ok (some (next, r))) (hCost : next.spent ≤ s.amountRemaining.toNat) :
    swapBody M src p s = .ok (some (next.left s.amountRemaining, r)) := by
  obtain ⟨_, hLimit, found, initialized, sqrtPriceNext, sqrtPrice, amountIn, amountOut, feeAmount, hFound,
    hNext, hStep, hSettle⟩ := swapBody_next h
  have hClamp := clampTick_range found
  have hTarget := sqrtTarget_lt p.zeroForOne (getSqrtRatioAtTick_lt laws hClamp.1 hClamp.2 hNext)
  have hMany : s.unlimited.amountRemaining.toNat < 2 ^ 255 := by
    rw [unlimited_toNat]
    decide
  obtain ⟨hPaid, hShort, hReached⟩ := threshold _ _ _ _ _ _ _ _ _ hPrice hTarget hMany hFee hStep
  have hSum : (amountIn + feeAmount).toNat = amountIn.toNat + feeAmount.toNat := by
    rw [BitVec.toNat_add, Nat.mod_eq_of_lt (by omega)]
  obtain ⟨hLeft, hOver⟩ := settleStep_withRemaining s.amountRemaining hSettle
  have hSpent : next.spent = amountIn.toNat + feeAmount.toNat := by
    have hLe : amountIn + feeAmount ≤ s.unlimited.amountRemaining := by
      rw [BitVec.le_def, hSum]
      exact hPaid
    rw [SwapState.spent, hLeft, BitVec.toNat_sub_of_le hLe, hSum]
    rw [unlimited_toNat] at hPaid ⊢
    omega
  have hBack : swapBody M src p s = settleStep M src p s (clampTick found) initialized sqrtPriceNext
      (sqrtPrice, amountIn, amountOut, feeAmount) := by
    refine swapBody_of_parts hSome hLimit hFound hNext ?_
    by_cases hTo : sqrtPrice = sqrtTarget p.zeroForOne sqrtPriceNext
    · exact hReached hTo _ (hSpent ▸ hCost) hRemaining
    · have hSame : s.amountRemaining = s.unlimited.amountRemaining := by
        apply BitVec.eq_of_toNat_eq
        have hAll := hShort hTo
        rw [unlimited_toNat] at hAll ⊢
        omega
      rw [hSame]
      exact hStep
  rw [hBack, SwapState.left, hSpent, ← hSum, BitVec.ofNat_toNat, BitVec.setWidth_eq]
  exact hOver

theorem swapBody_zero {s : SwapState} (h : s.amountRemaining = 0#256) : swapBody M src p s = .ok none :=
  swapBody_stop_iff.mpr (.inl h)

theorem not_tradesLost_of_stop {n : Nat} {lost : Bool} {s : SwapState} (h : swapBody M src p s = .ok none) :
    ¬TradesLost M src full p n lost s := by
  cases n with
  | zero => exact fun hLost => hLost
  | succ n =>
    rintro (⟨_, _, hBody⟩ | ⟨_, _, hBody, _⟩)
    · exact hBody h
    · rw [h] at hBody
      cases hBody

/-- The walk trades with a lost liquidity exactly when more comes in than the tick data takes before. -/
theorem tradesLost_iff (laws : M.TickLaws) (bounded : M.StepBounded) (threshold : M.StepThreshold)
    (hFee : p.feePips.toNat < 10 ^ 6) {n : Nat} {lost : Bool} {s : SwapState} (hPrice : s.sqrtPrice.toNat < 2 ^ 160)
    (hRemaining : s.amountRemaining.toNat < 2 ^ 255) :
    TradesLost M src full p n lost s ↔
      ∃ depth, lostDepth M src full p n lost s = some depth ∧ depth < s.amountRemaining.toNat := by
  induction n generalizing lost s with
  | zero => exact iff_of_false (fun h => h) nofun
  | succ n ih =>
    by_cases hZero : s.amountRemaining = 0#256
    · refine iff_of_false (not_tradesLost_of_stop (swapBody_zero hZero)) ?_
      rintro ⟨depth, _, hDepth⟩
      rw [hZero] at hDepth
      exact absurd hDepth (Nat.not_lt_zero _)
    have hPositive : 0 < s.amountRemaining.toNat := by
      by_contra hNot
      exact hZero (BitVec.eq_of_toNat_eq (by simpa using hNot))
    by_cases hLost : lost = true ∧ s.liquidity ≠ 0#128
    · -- the step itself trades with what was lost, whatever its size
      have hDepth : (∃ depth, lostDepth M src full p (n + 1) lost s = some depth ∧
          depth < s.amountRemaining.toNat) ↔ swapBody M src p s ≠ .ok none := by
        rw [ne_eq, ← swapBody_stop_unlimited hZero]
        simp only [lostDepth, if_pos hLost]
        split
        · rename_i hBody
          exact iff_of_false nofun fun h => h hBody
        · rename_i hBody
          exact iff_of_true ⟨0, rfl, hPositive⟩ hBody
      rw [hDepth]
      constructor
      · rintro (⟨_, _, hBody⟩ | ⟨_, _, hBody, _⟩)
        · exact hBody
        · rw [hBody]
          exact nofun
      · exact fun hBody => .inl ⟨hLost.1, hLost.2, hBody⟩
    · have hLater : TradesLost M src full p (n + 1) lost s ↔
          ∃ next report, swapBody M src p s = .ok (some (next, report)) ∧
            TradesLost M src full p n (lost || losesNet src full report) next := by
        refine ⟨?_, .inr⟩
        rintro (⟨hFlag, hLiquidity, _⟩ | hNext)
        · exact absurd ⟨hFlag, hLiquidity⟩ hLost
        · exact hNext
      rw [hLater]
      simp only [lostDepth, if_neg hLost]
      constructor
      · rintro ⟨next, report, hBody, hTrades⟩
        obtain hSpent | ⟨free, hFree, hCost, rfl⟩ :=
          swapBody_unlimited laws threshold hFee hPrice hRemaining hBody
        · exact absurd hTrades (not_tradesLost_of_stop (swapBody_zero hSpent))
        · have hLeft := SwapState.left_toNat hCost
          rw [ih (swapBody_bounded laws bounded hPrice hBody).1 (by omega), lostDepth_left] at hTrades
          obtain ⟨depth, hDepth, hLt⟩ := hTrades
          refine ⟨depth + free.spent, by simp only [hFree, hDepth, Option.map_some], ?_⟩
          omega
      · rintro ⟨depth, hDepth, hLt⟩
        split at hDepth
        · rename_i free report hFree
          obtain ⟨rest, hRest, rfl⟩ := Option.map_eq_some_iff.mp hDepth
          have hCost : free.spent ≤ s.amountRemaining.toNat := by omega
          have hBody := swapBody_of_unlimited laws threshold hFee hPrice hRemaining hZero hFree hCost
          have hLeft := SwapState.left_toNat hCost
          refine ⟨_, _, hBody, ?_⟩
          rw [ih (swapBody_bounded laws bounded hPrice hBody).1 (by omega), lostDepth_left]
          exact ⟨rest, hRest, by omega⟩
        · cases hDepth

theorem not_tradesLost_of_nets (hNets : ∀ tick, src.liquidityNet tick = full.liquidityNet tick) {n : Nat}
    {s : SwapState} : ¬TradesLost M src full p n false s := by
  induction n generalizing s with
  | zero => exact fun h => h
  | succ n ih =>
    rintro (⟨hFlag, _⟩ | ⟨next, report, _, hTrades⟩)
    · cases hFlag
    · have hKept : losesNet src full report = false := by
        cases hCrossed : report.crossed with
        | none => rw [losesNet, hCrossed, Option.any_none]
        | some tick => simp [losesNet, hCrossed, hNets]
      rw [hKept] at hTrades
      exact ih hTrades

end Depth

section Clean

variable {ε : Type} {M : SwapMath ε} {src full : TickSource} {p : SwapParams}

theorem swapBody_dry (dry : M.StepDry) {s t : SwapState} {r : SwapReport} (hDry : s.liquidity = 0#128)
    (h : swapBody M src p s = .ok (some (t, r))) : r.amountOut = 0#256 := by
  obtain ⟨_, _, _, _, _, _, _, _, _, _, _, hStep, hSettle⟩ := swapBody_next h
  obtain ⟨_, _, hOut, _⟩ := settleStep_cases hSettle
  rw [hDry] at hStep
  rw [hOut]
  exact dry _ _ _ _ _ _ _ _ hStep

/-- A walk that lost its liquidity and trades no more quotes nothing more. -/
theorem totalOut_of_lost (dry : M.StepDry) {n : Nat} {s final : SwapState} {reports : List SwapReport}
    (hTrades : ¬TradesLost M src full p n true s)
    (h : BoundedLoop.run (swapBody M src p) n s = .ok (final, reports)) : totalOut reports = 0 := by
  induction n generalizing s reports with
  | zero =>
    cases h
    rfl
  | succ n ih =>
    obtain ⟨_, _, rfl⟩ | ⟨t, r, rest, hBody, hRest, rfl⟩ := BoundedLoop.run_succ_cases h
    · rfl
    · have hDry : s.liquidity = 0#128 := by
        by_contra hLiquidity
        exact hTrades (.inl ⟨rfl, hLiquidity, by rw [hBody]; exact nofun⟩)
      have hLater := ih (fun hNext => hTrades (.inr ⟨t, r, hBody, hNext⟩)) hRest
      have hCons : totalOut (r :: rest) = r.amountOut.toNat + totalOut rest := by simp [totalOut]
      rw [hCons, hLater, swapBody_dry dry hDry hBody]
      rfl

/-- Over fewer words an iteration reports what it reports over all of them, and ends
in the same state unless it loses a net. -/
theorem swapBody_of_fewer (hWords : ∀ word bits, src.bitmapWord word = some bits → full.bitmapWord word = some bits)
    {s t : SwapState} {r : SwapReport} {other : Option (SwapState × SwapReport)}
    (h : swapBody M src p s = .ok (some (t, r))) (hFull : swapBody M full p s = .ok other) :
    ∃ u, other = some (u, r) ∧ (losesNet src full r = false → u = t) := by
  obtain ⟨hRemaining, hLimit, found, initialized, sqrtPriceNext, sqrtPrice, amountIn, amountOut, feeAmount,
    hFound, hNext, hStep, hSettle⟩ := swapBody_next h
  have hWord : full.bitmapWord (walkWord s.tick p.tickSpacing p.zeroForOne) =
      src.bitmapWord (walkWord s.tick p.tickSpacing p.zeroForOne) := by
    cases hKnown : src.bitmapWord (walkWord s.tick p.tickSpacing p.zeroForOne) with
    | none =>
      rw [nextInitializedTickSrc_stop hKnown] at hFound
      cases hFound
    | some bits => exact hWords _ _ hKnown
  rw [swapBody_of_parts hRemaining hLimit ((nextInitializedTickSrc_congr hWord).trans hFound) hNext hStep] at hFull
  simp only [settleStep] at hSettle hFull
  split at hSettle
  · rename_i hReached
    rw [if_pos hReached] at hFull
    obtain ⟨liquidity, hLiquidity, hEq⟩ := bind_ok hSettle
    cases hEq
    obtain ⟨liquidity', hLiquidity', hEq⟩ := bind_ok hFull
    cases hEq
    refine ⟨_, rfl, fun hKept => ?_⟩
    cases initialized with
    | false =>
      cases hLiquidity
      cases hLiquidity'
      rfl
    | true =>
      have hNet : src.liquidityNet (clampTick found) = full.liquidityNet (clampTick found) := by
        simpa [losesNet] using hKept
      simp only [crossLiquidity, if_true, hNet] at hLiquidity hLiquidity'
      rw [hLiquidity] at hLiquidity'
      cases hLiquidity'
      rfl
  · rename_i hShort
    rw [if_neg hShort] at hFull
    rw [hSettle] at hFull
    cases hFull
    exact ⟨t, rfl, fun _ => rfl⟩

/-- Without a lost trade the walk over part of the source gives no more than the full one. -/
theorem totalOut_le_of_kept (dry : M.StepDry)
    (hWords : ∀ word bits, src.bitmapWord word = some bits → full.bitmapWord word = some bits)
    {n : Nat} {s last final : SwapState} {shorter reports : List SwapReport}
    (hTrades : ¬TradesLost M src full p n false s)
    (hPart : BoundedLoop.run (swapBody M src p) n s = .ok (last, shorter))
    (hFull : BoundedLoop.run (swapBody M full p) n s = .ok (final, reports)) :
    totalOut shorter ≤ totalOut reports := by
  induction n generalizing s shorter reports with
  | zero =>
    cases hPart
    exact Nat.zero_le _
  | succ n ih =>
    obtain ⟨_, _, rfl⟩ | ⟨t, r, rest, hBody, hRest, rfl⟩ := BoundedLoop.run_succ_cases hPart
    · exact Nat.zero_le _
    have hCons : ∀ rest, totalOut (r :: rest) = r.amountOut.toNat + totalOut rest := fun rest => by simp [totalOut]
    have hLater : ¬TradesLost M src full p n (losesNet src full r) t :=
      fun hNext => hTrades (.inr ⟨t, r, hBody, by rwa [Bool.false_or]⟩)
    obtain ⟨hStop, _, _⟩ | ⟨u, r', rest', hNext, hRun, rfl⟩ := BoundedLoop.run_succ_cases hFull
    · obtain ⟨_, hSome, _⟩ := swapBody_of_fewer hWords hBody hStop
      cases hSome
    · obtain ⟨_, hSome, hSame⟩ := swapBody_of_fewer hWords hBody hNext
      cases hSome
      rw [hCons, hCons]
      cases hLoses : losesNet src full r with
      | false =>
        obtain rfl := hSame hLoses
        rw [hLoses] at hLater
        exact Nat.add_le_add_left (ih hLater hRest hRun) _
      | true =>
        rw [hLoses] at hLater
        rw [totalOut_of_lost dry hLater hRest]
        exact Nat.le_add_right _ _

end Clean

end Robinarb
