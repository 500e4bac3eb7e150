import Robinarb.Engine.Engine
import Robinarb.Math.AeroStable
import Robinarb.Math.V3
import Robinarb.State.ChainState

/-! # The exact quote of a pool

`math::quote`: one branch for each slot plan, every read through the chain state.
-/

namespace Robinarb

def ClFee.pips (fee : ClFee) (pool : PoolMeta) (word0 : U256) : U32 :=
  match fee with
  | .fromMeta => pool.feePips
  | .word shift => ((word0 >>> shift) &&& 0xffff#256).setWidth 32

/-- Two-word pools index their bitmap by raw ticks. -/
def TickCodec.walkSpacing (codec : TickCodec) (pool : PoolMeta) : Int :=
  match codec with
  | .packed => pool.tickSpacing
  | .twoWord => 1

section Quote

variable {ε : Type} (M : SwapMath ε) (keccak : Keccak)

def ClPlan.params (plan : ClPlan) (s : ChainState) (pool : PoolMeta) (zeroForOne : Bool) : SwapParams where
  zeroForOne := zeroForOne
  feePips := plan.fee.pips pool (s.read plan.addr plan.slot0)
  tickSpacing := plan.tickCodec.walkSpacing pool

def ClPlan.slot0Of (plan : ClPlan) (s : ChainState) : U256 × Int := decodeV3Slot0 (s.read plan.addr plan.slot0)

def ClPlan.liquidityOf (plan : ClPlan) (s : ChainState) : U128 :=
  decodeShifted128 (s.read plan.addr plan.liquidity) plan.liquidityShift

/-- The walk of a concentrated-liquidity quote, its failures included. -/
def ClPlan.tryQuote (plan : ClPlan) (s : ChainState) (pool : PoolMeta) (amountIn : U256) (zeroForOne : Bool) :
    Except ε U256 :=
  trySwapSrc M ((plan.reader s).source keccak) (plan.params s pool zeroForOne) amountIn (plan.slot0Of s).1
    (plan.slot0Of s).2 (plan.liquidityOf s)

/-- `none` is a panic; a walk that fails quotes zero. -/
def quote (s : ChainState) (pool : PoolMeta) (amountIn : U256) (zeroForOne : Bool) : Option U256 :=
  match s.plan pool.idx with
  | none => some 0#256
  | some (.v2Packed addr slot) =>
    let (r0, r1) := decodeV2Packed (s.read addr slot)
    if r0 = 0#128 ∨ r1 = 0#128 then
      some 0#256
    else
      let (rin, rout) :=
        if zeroForOne then (r0.setWidth 256, r1.setWidth 256) else (r1.setWidth 256, r0.setWidth 256)
      V2.getAmountOut amountIn rin rout pool.feeBps
  | some (.v2TwoSlot addr r0) =>
    let w0 := s.read addr r0
    let w1 := s.read addr (r0 + 1#256)
    if w0 = 0#256 ∨ w1 = 0#256 then
      some 0#256
    else if pool.dex = .aeroStable then
      let d0 := BitVec.ofNat 256 (10 ^ pool.dec0.toNat)
      let d1 := BitVec.ofNat 256 (10 ^ pool.dec1.toNat)
      let (rin, rout, din, dout) := if zeroForOne then (w0, w1, d0, d1) else (w1, w0, d1, d0)
      AeroStable.getAmountOut amountIn rin rout din dout pool.feeBps
    else
      let (rin, rout) := if zeroForOne then (w0, w1) else (w1, w0)
      V2.getAmountOut amountIn rin rout pool.feeBps
  | some (.cl plan) =>
    let (sqrt, tick) := plan.slot0Of s
    if sqrt = 0#256 then
      some 0#256
    else
      some (getAmountOutSrc M ((plan.reader s).source keccak) (plan.params s pool zeroForOne) amountIn sqrt tick
        (plan.liquidityOf s))

/-- The quote neither panics nor runs into an error of its walk. -/
def QuoteCompletes (s : ChainState) (pool : PoolMeta) (amountIn : U256) (zeroForOne : Bool) : Prop :=
  (quote M keccak s pool amountIn zeroForOne).isSome ∧
    ∀ plan, s.plan pool.idx = some (.cl plan) → (plan.slot0Of s).1 ≠ 0#256 →
      ∃ out, plan.tryQuote M keccak s pool amountIn zeroForOne = .ok out

end Quote

section Branches

variable {ε : Type} {M : SwapMath ε} {keccak : Keccak} {s : ChainState} {pool : PoolMeta} {amountIn : U256}
  {zeroForOne : Bool}

theorem quote_v2Packed_congr {t : ChainState} {addr : Address} {slot : U256}
    (hPlan : s.plan pool.idx = some (.v2Packed addr slot)) (hPlans : t.plans = s.plans)
    (hRead : t.read addr slot = s.read addr slot) :
    quote M keccak t pool amountIn zeroForOne = quote M keccak s pool amountIn zeroForOne := by
  have hPlan' : t.plan pool.idx = some (.v2Packed addr slot) := by
    rw [ChainState.plan, hPlans]
    exact hPlan
  simp only [quote, hPlan, hPlan', hRead]

theorem quote_v2TwoSlot_congr {t : ChainState} {addr : Address} {r0 : U256}
    (hPlan : s.plan pool.idx = some (.v2TwoSlot addr r0)) (hPlans : t.plans = s.plans)
    (hFirst : t.read addr r0 = s.read addr r0) (hSecond : t.read addr (r0 + 1#256) = s.read addr (r0 + 1#256)) :
    quote M keccak t pool amountIn zeroForOne = quote M keccak s pool amountIn zeroForOne := by
  have hPlan' : t.plan pool.idx = some (.v2TwoSlot addr r0) := by
    rw [ChainState.plan, hPlans]
    exact hPlan
  simp only [quote, hPlan, hPlan', hFirst, hSecond]

theorem quote_v2Packed_zero {addr : Address} {slot : U256}
    (hPlan : s.plan pool.idx = some (.v2Packed addr slot)) (hRead : s.read addr slot = 0#256) :
    quote M keccak s pool amountIn zeroForOne = some 0#256 := by
  simp [quote, hPlan, hRead, decodeV2Packed]

theorem quote_v2TwoSlot_zero {addr : Address} {r0 : U256}
    (hPlan : s.plan pool.idx = some (.v2TwoSlot addr r0))
    (hRead : s.read addr r0 = 0#256 ∨ s.read addr (r0 + 1#256) = 0#256) :
    quote M keccak s pool amountIn zeroForOne = some 0#256 := by
  simp only [quote, hPlan, hRead, if_true]

theorem quote_cl {plan : ClPlan} (hPlan : s.plan pool.idx = some (.cl plan)) :
    quote M keccak s pool amountIn zeroForOne =
      if (plan.slot0Of s).1 = 0#256 then some 0#256
      else some (getAmountOutSrc M ((plan.reader s).source keccak) (plan.params s pool zeroForOne) amountIn
        (plan.slot0Of s).1 (plan.slot0Of s).2 (plan.liquidityOf s)) := by
  simp only [quote, hPlan]

end Branches

end Robinarb
