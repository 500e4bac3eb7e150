import Robinarb.Library.BoundedLoop
import Robinarb.Math.TickBitmap

/-! # The production swap walk

`try_swap_src` and `get_amount_out_src`. The `guard` counter of the source, which
leaves the loop on iteration 1025, is the bound of the loop.
-/

namespace Robinarb

structure SwapState where
  amountRemaining : I256
  amountCalculated : I256
  sqrtPrice : U256
  tick : Int
  liquidity : U128

/-- What one iteration did: the initialized tick it crossed, and its output. -/
structure SwapReport where
  crossed : Option Int
  amountOut : U256

structure SwapParams where
  zeroForOne : Bool
  feePips : U32
  tickSpacing : Int

def sqrtPriceLimit (zeroForOne : Bool) : U256 :=
  if zeroForOne then minSqrtRatio + 1#256 else maxSqrtRatio - 1#256

def clampTick (tick : Int) : Int := max minTick (min tick maxTick)

def sqrtTarget (zeroForOne : Bool) (sqrtPriceNext : U256) : U256 :=
  if (zeroForOne ∧ sqrtPriceNext < sqrtPriceLimit zeroForOne) ∨
      (¬zeroForOne ∧ sqrtPriceLimit zeroForOne < sqrtPriceNext) then
    sqrtPriceLimit zeroForOne
  else
    sqrtPriceNext

section Walk

variable {ε : Type} (M : SwapMath ε) (src : TickSource) (p : SwapParams)

def crossLiquidity (liquidity : U128) (nextTick : Int) (initialized : Bool) : Except ε U128 :=
  if initialized then
    let liquidityNet := src.liquidityNet nextTick
    M.addDelta liquidity (if p.zeroForOne then -liquidityNet else liquidityNet)
  else
    .ok liquidity

/-- The tail of an iteration, from the result of `compute_swap_step` on. -/
def settleStep (s : SwapState) (nextTick : Int) (initialized : Bool) (sqrtPriceNext : U256)
    (step : U256 × U256 × U256 × U256) : Except ε (Option (SwapState × SwapReport)) :=
  let (sqrtPrice, amountIn, amountOut, feeAmount) := step
  let amountRemaining := s.amountRemaining - (amountIn + feeAmount)
  let amountCalculated := s.amountCalculated - amountOut
  if sqrtPrice = sqrtPriceNext then do
    let liquidity ← crossLiquidity M src p s.liquidity nextTick initialized
    let tick := if p.zeroForOne then nextTick - 1 else nextTick
    return some (⟨amountRemaining, amountCalculated, sqrtPrice, tick, liquidity⟩,
      ⟨if initialized then some nextTick else none, amountOut⟩)
  else if sqrtPrice ≠ s.sqrtPrice then do
    let tick ← M.getTickAtSqrtRatio sqrtPrice
    return some (⟨amountRemaining, amountCalculated, sqrtPrice, tick, s.liquidity⟩, ⟨none, amountOut⟩)
  else
    .ok (some (⟨amountRemaining, amountCalculated, sqrtPrice, s.tick, s.liquidity⟩, ⟨none, amountOut⟩))

/-- An iteration once the next tick is known. -/
def stepTowards (s : SwapState) (nextTick : Int) (initialized : Bool) :
    Except ε (Option (SwapState × SwapReport)) := do
  let sqrtPriceNext ← M.getSqrtRatioAtTick nextTick
  let step ← M.computeSwapStep s.sqrtPrice (sqrtTarget p.zeroForOne sqrtPriceNext) s.liquidity
    s.amountRemaining p.feePips
  settleStep M src p s nextTick initialized sqrtPriceNext step

/-- The `while` loop of `try_swap_src`: condition and body. -/
def swapBody : BoundedLoop.Body SwapState SwapReport ε := fun s =>
  if s.amountRemaining ≠ 0#256 ∧ s.sqrtPrice ≠ sqrtPriceLimit p.zeroForOne then do
    match ← nextInitializedTickSrc M src s.tick p.tickSpacing p.zeroForOne with
    | none => return none
    | some (nextTick, initialized) => stepTowards M src p s (clampTick nextTick) initialized
  else
    .ok none

def startState (amountIn sqrtPriceX96 : U256) (startTick : Int) (startLiquidity : U128) : SwapState where
  amountRemaining := amountIn
  amountCalculated := 0#256
  sqrtPrice := sqrtPriceX96
  tick := startTick
  liquidity := startLiquidity

/-- The loop of `try_swap_src` with its final variables and what each iteration did. -/
def swapWalk (s : SwapState) : Except ε (SwapState × List SwapReport) :=
  BoundedLoop.run (swapBody M src p) 1024 s

def trySwapSrc (amountIn sqrtPriceX96 : U256) (startTick : Int) (startLiquidity : U128) :
    Except ε U256 :=
  if amountIn = 0#256 then
    .ok 0#256
  else
    (swapWalk M src p (startState amountIn sqrtPriceX96 startTick startLiquidity)).map
      fun final => -final.1.amountCalculated

def getAmountOutSrc (amountIn sqrtPriceX96 : U256) (startTick : Int) (startLiquidity : U128) : U256 :=
  match trySwapSrc M src p amountIn sqrtPriceX96 startTick startLiquidity with
  | .ok out => out
  | .error _ => 0#256

end Walk

section Inversion

variable {ε : Type} {M : SwapMath ε} {src : TickSource} {p : SwapParams}

theorem bind_ok {α β : Type} {x : Except ε α} {f : α → Except ε β} {b : β} (h : x >>= f = .ok b) :
    ∃ a, x = .ok a ∧ f a = .ok b := by
  cases x with
  | error e => cases h
  | ok a => exact ⟨a, rfl, h⟩

theorem settleStep_cases {s t : SwapState} {r : SwapReport} {nextTick : Int} {initialized : Bool}
    {sqrtPriceNext sqrtPrice amountIn amountOut feeAmount : U256}
    (h : settleStep M src p s nextTick initialized sqrtPriceNext (sqrtPrice, amountIn, amountOut, feeAmount) =
      .ok (some (t, r))) :
    t.sqrtPrice = sqrtPrice ∧ t.amountCalculated = s.amountCalculated - amountOut ∧
    r.amountOut = amountOut ∧
    ((sqrtPrice = sqrtPriceNext ∧ t.tick = (if p.zeroForOne then nextTick - 1 else nextTick) ∧
        crossLiquidity M src p s.liquidity nextTick initialized = .ok t.liquidity ∧
        r.crossed = if initialized then some nextTick else none) ∨
      (sqrtPrice ≠ sqrtPriceNext ∧ t.liquidity = s.liquidity ∧ r.crossed = none ∧
        (sqrtPrice = s.sqrtPrice ∧ t.tick = s.tick ∨
          sqrtPrice ≠ s.sqrtPrice ∧ M.getTickAtSqrtRatio sqrtPrice = .ok t.tick))) := by
  simp only [settleStep] at h
  split at h
  · rename_i hNext
    obtain ⟨liquidity, hLiquidity, hEq⟩ := bind_ok h
    cases hEq
    exact ⟨rfl, rfl, rfl, .inl ⟨hNext, rfl, hLiquidity, rfl⟩⟩
  · rename_i hNext
    split at h
    · rename_i hMoved
      obtain ⟨tick, hTick, hEq⟩ := bind_ok h
      cases hEq
      exact ⟨rfl, rfl, rfl, .inr ⟨hNext, rfl, rfl, .inr ⟨hMoved, hTick⟩⟩⟩
    · rename_i hStart
      cases h
      exact ⟨rfl, rfl, rfl, .inr ⟨hNext, rfl, rfl, .inl ⟨not_not.mp hStart, rfl⟩⟩⟩

theorem swapBody_next {s t : SwapState} {r : SwapReport} (h : swapBody M src p s = .ok (some (t, r))) :
    s.amountRemaining ≠ 0#256 ∧ s.sqrtPrice ≠ sqrtPriceLimit p.zeroForOne ∧
    ∃ found initialized sqrtPriceNext sqrtPrice amountIn amountOut feeAmount,
      nextInitializedTickSrc M src s.tick p.tickSpacing p.zeroForOne = .ok (some (found, initialized)) ∧
      M.getSqrtRatioAtTick (clampTick found) = .ok sqrtPriceNext ∧
      M.computeSwapStep s.sqrtPrice (sqrtTarget p.zeroForOne sqrtPriceNext) s.liquidity
        s.amountRemaining p.feePips = .ok (sqrtPrice, amountIn, amountOut, feeAmount) ∧
      settleStep M src p s (clampTick found) initialized sqrtPriceNext
        (sqrtPrice, amountIn, amountOut, feeAmount) = .ok (some (t, r)) := by
  unfold swapBody at h
  split at h
  · rename_i hCond
    obtain ⟨found, hFound, hRest⟩ := bind_ok h
    obtain _ | ⟨found, initialized⟩ := found
    · cases hRest
    · obtain ⟨sqrtPriceNext, hNext, hRest⟩ := bind_ok hRest
      obtain ⟨⟨sqrtPrice, amountIn, amountOut, feeAmount⟩, hStep, hRest⟩ := bind_ok hRest
      exact ⟨hCond.1, hCond.2, found, initialized, sqrtPriceNext, sqrtPrice, amountIn, amountOut,
        feeAmount, hFound, hNext, hStep, hRest⟩
  · cases h

theorem stepTowards_congr {other : TickSource} (s : SwapState) {nextTick : Int} {initialized : Bool}
    (h : initialized = true → other.liquidityNet nextTick = src.liquidityNet nextTick) :
    stepTowards M other p s nextTick initialized = stepTowards M src p s nextTick initialized := by
  cases initialized with
  | true => simp only [stepTowards, settleStep, crossLiquidity, h rfl]
  | false => simp only [stepTowards, settleStep, crossLiquidity, Bool.false_eq_true, if_false]

/-- Two sources drive an iteration alike when they agree on the word it probes and
on the net of the tick it finds there. -/
theorem swapBody_congr {other : TickSource} {s : SwapState}
    (hWord : other.bitmapWord (walkWord s.tick p.tickSpacing p.zeroForOne) =
      src.bitmapWord (walkWord s.tick p.tickSpacing p.zeroForOne))
    (hNet : ∀ found, nextInitializedTickSrc M src s.tick p.tickSpacing p.zeroForOne = .ok (some (found, true)) →
      other.liquidityNet (clampTick found) = src.liquidityNet (clampTick found)) :
    swapBody M other p s = swapBody M src p s := by
  unfold swapBody
  split
  · rw [nextInitializedTickSrc_congr hWord]
    rcases hFound : nextInitializedTickSrc M src s.tick p.tickSpacing p.zeroForOne with e | _ | ⟨found, initialized⟩
    · rfl
    · rfl
    · exact stepTowards_congr s fun hInit => hNet found (hInit ▸ hFound)
  · rfl

/-- The ticks a walk can be at after its first iteration. -/
def WalkTick (startTick tick : Int) : Prop := tick = startTick ∨ minTick - 1 ≤ tick ∧ tick ≤ maxTick

theorem clampTick_range (tick : Int) : minTick ≤ clampTick tick ∧ clampTick tick ≤ maxTick := by
  unfold clampTick minTick maxTick
  omega

theorem swapBody_walkTick (within : M.TickWithin) {startTick : Int} {s t : SwapState} {r : SwapReport}
    (hs : WalkTick startTick s.tick) (h : swapBody M src p s = .ok (some (t, r))) :
    WalkTick startTick t.tick := by
  obtain ⟨_, _, found, initialized, sqrtPriceNext, sqrtPrice, _, _, _, _, _, _, hSettle⟩ := swapBody_next h
  have hClamp := clampTick_range found
  obtain ⟨_, _, _, ⟨_, hTick, _⟩ | ⟨_, _, _, ⟨_, hTick⟩ | ⟨_, hTick⟩⟩⟩ := settleStep_cases hSettle
  · right
    rw [hTick]
    split <;> omega
  · rwa [hTick]
  · right
    have hRange := within _ _ hTick
    omega

theorem visited_walkTick (within : M.TickWithin) (s : SwapState) (n : Nat) :
    ∀ t ∈ BoundedLoop.visited (swapBody M src p) n s, WalkTick s.tick t.tick :=
  BoundedLoop.visited_invariant (fun _ _ _ hs h => swapBody_walkTick within hs h) (.inl rfl)

theorem startState_zero_stops (sqrtPriceX96 : U256) (tick : Int) (liquidity : U128) :
    swapBody M src p (startState 0#256 sqrtPriceX96 tick liquidity) = .ok none := by
  unfold swapBody
  rw [if_neg (by simp [startState])]

theorem trySwapSrc_walk {amountIn sqrtPriceX96 out : U256} {tick : Int} {liquidity : U128}
    (h : trySwapSrc M src p amountIn sqrtPriceX96 tick liquidity = .ok out) :
    ∃ final reports,
      swapWalk M src p (startState amountIn sqrtPriceX96 tick liquidity) = .ok (final, reports) ∧
      out = -final.amountCalculated := by
  unfold trySwapSrc at h
  split at h
  · rename_i hZero
    cases h
    refine ⟨startState amountIn sqrtPriceX96 tick liquidity, [], ?_, by simp [startState]⟩
    rw [hZero]
    exact BoundedLoop.run_of_stop (startState_zero_stops _ _ _) _
  · rcases hWalk : swapWalk M src p (startState amountIn sqrtPriceX96 tick liquidity) with e | ⟨final, reports⟩
    · rw [hWalk] at h
      cases h
    · rw [hWalk] at h
      cases h
      exact ⟨final, reports, rfl, rfl⟩

end Inversion

end Robinarb
