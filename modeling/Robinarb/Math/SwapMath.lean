import Robinarb.Library.BitSearch
import Robinarb.Word

/-! # The tick and swap primitives of `uniswap_v3_math`

The crate is a dependency: its functions are a parameter of the model, and what
the walk relies on is stated here as laws that follow the crate's documentation.
-/

namespace Robinarb

structure SwapMath (ε : Type) where
  mostSignificantBit : U256 → Except ε U8
  leastSignificantBit : U256 → Except ε U8
  getSqrtRatioAtTick : Int → Except ε U256
  getTickAtSqrtRatio : U256 → Except ε Int
  /-- Current price, target, liquidity, remaining amount, fee in pips; returns the
  next price, the amount in, the amount out and the fee. -/
  computeSwapStep : U256 → U256 → U128 → I256 → U32 → Except ε (U256 × U256 × U256 × U256)
  addDelta : U128 → I128 → Except ε U128

namespace SwapMath

variable {ε : Type}

/-- The price at a tick, zero where the crate refuses the tick. -/
def ratio (M : SwapMath ε) (tick : Int) : Nat :=
  match M.getSqrtRatioAtTick tick with
  | .ok r => r.toNat
  | .error _ => 0

theorem ratio_eq {M : SwapMath ε} {tick : Int} {r : U256} (h : M.getSqrtRatioAtTick tick = .ok r) :
    M.ratio tick = r.toNat := by
  simp only [ratio, h]

structure BitLaws (M : SwapMath ε) : Prop where
  highest : ∀ x, x ≠ 0#256 → ∃ k, M.mostSignificantBit x = .ok k ∧ BitSearch.IsHighest x k.toNat
  lowest : ∀ x, x ≠ 0#256 → ∃ k, M.leastSignificantBit x = .ok k ∧ BitSearch.IsLowest x k.toNat

/-- `get_sqrt_ratio_at_tick` is strictly increasing between the documented bounds
and `get_tick_at_sqrt_ratio` is the greatest tick whose price is not above. -/
structure TickLaws (M : SwapMath ε) : Prop where
  ratio_minTick : M.getSqrtRatioAtTick minTick = .ok minSqrtRatio
  ratio_maxTick : M.getSqrtRatioAtTick maxTick = .ok maxSqrtRatio
  ratio_strictMono : ∀ s t, minTick ≤ s → s < t → t ≤ maxTick → M.ratio s < M.ratio t
  tick_floor : ∀ price tick, minSqrtRatio ≤ price → price < maxSqrtRatio →
    M.getTickAtSqrtRatio price = .ok tick →
    minTick ≤ tick ∧ tick < maxTick ∧ M.ratio tick ≤ price.toNat ∧ price.toNat < M.ratio (tick + 1)

/-- `get_tick_at_sqrt_ratio` returns ticks inside the documented bounds or fails. -/
def TickWithin (M : SwapMath ε) : Prop :=
  ∀ price tick, M.getTickAtSqrtRatio price = .ok tick → minTick ≤ tick ∧ tick ≤ maxTick

/-- The price after a step lies between the current price and the target. -/
def StepBetween (M : SwapMath ε) : Prop :=
  ∀ price target liquidity remaining fee next amountIn amountOut feeAmount,
    minSqrtRatio ≤ price → price ≤ maxSqrtRatio → minSqrtRatio ≤ target → target ≤ maxSqrtRatio →
    M.computeSwapStep price target liquidity remaining fee = .ok (next, amountIn, amountOut, feeAmount) →
    (price ≤ target → price ≤ next ∧ next ≤ target) ∧ (target ≤ price → target ≤ next ∧ next ≤ price)

/-- Prices are `uint160`: a step between two of them ends at one, and its output is
at most the numerator `liquidity << 96` of the amount formulas. -/
def StepBounded (M : SwapMath ε) : Prop :=
  ∀ price target liquidity remaining fee next amountIn amountOut feeAmount,
    price.toNat < 2 ^ 160 → target.toNat < 2 ^ 160 →
    M.computeSwapStep price target liquidity remaining fee = .ok (next, amountIn, amountOut, feeAmount) →
    next.toNat < 2 ^ 160 ∧ amountOut.toNat < 2 ^ 224

/-- Both amounts of a step are multiples of the liquidity: without any, nothing comes out. -/
def StepDry (M : SwapMath ε) : Prop :=
  ∀ price target remaining fee next amountIn amountOut feeAmount,
    M.computeSwapStep price target 0#128 remaining fee = .ok (next, amountIn, amountOut, feeAmount) →
    amountOut = 0#256

/-- An exact-input step that ends short of the target spends all that remains. One that
reaches the target is the same step whenever the input and its fee remain. -/
def StepThreshold (M : SwapMath ε) : Prop :=
  ∀ price target liquidity remaining fee next amountIn amountOut feeAmount,
    price.toNat < 2 ^ 160 → target.toNat < 2 ^ 160 → remaining.toNat < 2 ^ 255 → fee.toNat < 10 ^ 6 →
    M.computeSwapStep price target liquidity remaining fee = .ok (next, amountIn, amountOut, feeAmount) →
    amountIn.toNat + feeAmount.toNat ≤ remaining.toNat ∧
    (next ≠ target → amountIn.toNat + feeAmount.toNat = remaining.toNat) ∧
    (next = target → ∀ other : I256,
      amountIn.toNat + feeAmount.toNat ≤ other.toNat → other.toNat < 2 ^ 255 →
      M.computeSwapStep price target liquidity other fee = .ok (next, amountIn, amountOut, feeAmount))

/-- `add_delta` adds a signed amount exactly or fails. -/
def DeltaExact (M : SwapMath ε) : Prop :=
  ∀ x y z, M.addDelta x y = .ok z → (z.toNat : Int) = x.toNat + y.toInt

theorem TickLaws.ratio_mono {M : SwapMath ε} (laws : TickLaws M) {s t : Int} (hs : minTick ≤ s)
    (hst : s ≤ t) (ht : t ≤ maxTick) : M.ratio s ≤ M.ratio t := by
  obtain h | rfl := hst.lt_or_eq
  · exact (laws.ratio_strictMono s t hs h ht).le
  · exact le_rfl

theorem TickLaws.lt_of_ratio_lt {M : SwapMath ε} (laws : TickLaws M) {s t : Int} (ht : minTick ≤ t)
    (hs : s ≤ maxTick) (h : M.ratio s < M.ratio t) : s < t := by
  by_contra hNot
  exact absurd (laws.ratio_mono ht (not_lt.mp hNot) hs) (not_le.mpr h)

end SwapMath

end Robinarb
