import Robinarb.Contracts.PairOutput
import Robinarb.Math.Quote
import Robinarb.Math.ReferenceMath
import Robinarb.State.SamplePool

/-! # The pair quote against the contract

A packed reserve word, the wrapping formula of the quoter and the checked formula of
`_swapV2` give the same output, and it is the largest one that the pair accepts.
-/

namespace Robinarb

open Fallible

section Reserves

/-- `reserve0` and `reserve1` of a packed word, as the pair reports them. -/
def packedReserves (word : U256) : BitVec 112 × BitVec 112 := (word.extractLsb' 0 112, word.extractLsb' 112 112)

theorem decodeV2Packed_eq (word : U256) :
    decodeV2Packed word = ((packedReserves word).1.setWidth 128, (packedReserves word).2.setWidth 128) :=
  decodeV2Packed_fields word

/-- What a swap in a direction takes from and gives to. -/
def orderedReserves (word : U256) (zeroForOne : Bool) : BitVec 112 × BitVec 112 :=
  ArbExecutor.directed zeroForOne (packedReserves word)

end Reserves

namespace V2

open ArbExecutor

variable {r : BitVec 112 × BitVec 112} {feeBps : U32} {amountIn : U256}

/-- The pair's check of its product, fee taken off the input. -/
def KeepsProduct (reserveIn reserveOut feeBps amountIn out : Nat) : Prop :=
  reserveIn * reserveOut * 10000 ≤ (reserveIn * 10000 + amountIn * (10000 - feeBps)) * (reserveOut - out)

theorem keepsProduct_iff {reserveIn reserveOut : Nat} (hIn : 0 < reserveIn) (hOut : 0 < reserveOut)
    (feeBps amountIn out : Nat) : KeepsProduct reserveIn reserveOut feeBps amountIn out ↔
      out ≤ ConstantProduct.out (reserveIn * 10000) reserveOut (amountIn * (10000 - feeBps)) := by
  have hScaled : 0 < reserveIn * 10000 := Nat.mul_pos hIn (by decide)
  rw [← ConstantProduct.keeps_iff hScaled hOut, KeepsProduct, Nat.mul_right_comm]

theorem fee_toNat (hFee : feeBps.toNat ≤ 10000) : (feeBps.setWidth 16 : U16).toNat = feeBps.toNat := by
  rw [BitVec.toNat_setWidth]
  exact Nat.mod_eq_of_lt (by omega)

theorem getAmountOut_eq (hFee : feeBps.toNat ≤ 10000) (hIn : r.1 ≠ 0#112) (hOut : r.2 ≠ 0#112)
    (hAmount : amountIn ≠ 0#256) (hSmall : amountIn.toNat < 2 ^ 128) :
    getAmountOut amountIn (r.1.setWidth 256) (r.2.setWidth 256) feeBps =
      some (v2Out r (feeBps.setWidth 16) amountIn) := by
  have hWord : ∀ x : BitVec 112, x ≠ 0#112 → (x.setWidth 256 : U256) ≠ 0#256 := by
    intro x hx hZero
    apply hx
    apply BitVec.eq_of_toNat_eq
    rw [← reserve_toNat x, hZero]
    rfl
  have hAccepted : (feeBps.setWidth 16 : U16).toNat ≤ 10000 := by
    rw [fee_toNat hFee]
    exact hFee
  have hRate : ((10000#32 - feeBps).setWidth 256 : U256) = (10000#16 - feeBps.setWidth 16).setWidth 256 := by
    apply BitVec.eq_of_toNat_eq
    rw [rate_toNat hAccepted, fee_toNat hFee, feeFactor_toNat hFee]
  have hBound : (amountIn * (10000#16 - feeBps.setWidth 16).setWidth 256 : U256).toNat < 2 ^ 142 := by
    rw [(withFee_toNat hAccepted hSmall).2]
    exact withFee_lt _ hSmall
  have hPositive : 0 < r.1.toNat := by
    rw [← reserve_toNat]
    exact Nat.pos_of_ne_zero fun hZero => hWord _ hIn (BitVec.eq_of_toNat_eq hZero)
  have hDivisor :
      (r.1.setWidth 256 * 10000#256 + amountIn * (10000#16 - feeBps.setWidth 16).setWidth 256 : U256) ≠ 0#256 := by
    intro hZero
    have hSum := (denominator_toNat hBound r.1).2
    rw [hZero, BitVec.toNat_zero] at hSum
    omega
  unfold getAmountOut
  rw [if_neg (by simp only [hAmount, hWord _ hIn, hWord _ hOut, or_self, not_false_eq_true])]
  dsimp only
  rw [hRate, divWord, if_neg hDivisor, quotient_eq hBound, (withFee_toNat hAccepted hSmall).2]
  rfl

/-- `_swapV2` once it has its output. -/
def payV2 {E : Type} (self : Address) (ext : Handler E) (pool : Address) (zeroForOne : Bool) (amountIn : U256)
    (tokenIn : Address) (amountOut : U256) : Exec E U256 := do
  transfer ext tokenIn pool amountIn
  let (a0, a1) := if zeroForOne then (0#256, amountOut) else (amountOut, 0#256)
  let _ ← ext (.pairSwap pool a0 a1 self)
  return amountOut

def settleV2 {E : Type} (self : Address) (ext : Handler E) (h : ArbExecutor.Hop) (amountIn amountOut : U256) :
    Exec E U256 := do
  let tokenIn ← if h.zeroForOne then token0 ext h.pool else token1 ext h.pool
  payV2 self ext h.pool h.zeroForOne amountIn tokenIn amountOut

theorem _swapV2_settles {E : Type} {self : Address} {ext : Handler E} {h : ArbExecutor.Hop} {st st' : State E}
    {reserves : BitVec 112 × BitVec 112} {timestamp : BitVec 32}
    (hReply : ext (.getReserves h.pool) st =
      .ok ([reserves.1.setWidth 256, reserves.2.setWidth 256, timestamp.setWidth 256], st'))
    (hFee : h.feeBps.toNat ≤ 10000) (hSmall : amountIn.toNat < 2 ^ 128) (h0 : reserves.1 ≠ 0#112)
    (h1 : reserves.2 ≠ 0#112) :
    _swapV2 self ext h amountIn st =
      settleV2 self ext h amountIn (v2Out (directed h.zeroForOne reserves) h.feeBps amountIn) st' := by
  have hWord : ∀ r : BitVec 112, (r.setWidth 256 : U256).toNat < 2 ^ 112 := by
    intro r
    rw [reserve_toNat]
    exact r.isLt
  have hTime : (timestamp.setWidth 256 : U256).toNat < 2 ^ 32 := by
    rw [BitVec.toNat_setWidth_of_le (by decide)]
    exact timestamp.isLt
  have hDivisor : ∀ r : BitVec 112 × BitVec 112, r.1 ≠ 0#112 →
      0 < r.1.toNat * 10000 + amountIn.toNat * (10000 - h.feeBps.toNat) := by
    intro r hr
    have hPositive : 0 < r.1.toNat := Nat.pos_of_ne_zero fun hZero => hr (BitVec.eq_of_toNat_eq hZero)
    omega
  unfold _swapV2 settleV2
  rw [bind_of_ok hReply, (decodeWord_reads rfl (hWord reserves.1)).bind,
    (decodeWord_reads rfl (hWord reserves.2)).bind, (decodeWord_reads rfl hTime).bind]
  cases h.zeroForOne with
  | true =>
    have hToken : ∀ tokenIn : Address, _ = payV2 self ext h.pool true amountIn tokenIn (v2Out reserves h.feeBps amountIn) :=
      fun tokenIn => v2_computes hFee hSmall (hDivisor reserves h0) (payV2 self ext h.pool true amountIn tokenIn)
    exact congrFun (bind_congr (x := token0 ext h.pool) hToken) st'
  | false =>
    have hToken : ∀ tokenIn : Address,
        _ = payV2 self ext h.pool false amountIn tokenIn (v2Out reserves.swap h.feeBps amountIn) :=
      fun tokenIn => v2_computes hFee hSmall (hDivisor reserves.swap h1) (payV2 self ext h.pool false amountIn tokenIn)
    exact congrFun (bind_congr (x := token1 ext h.pool) hToken) st'

end V2

section Quote

variable {ε : Type} {M : SwapMath ε} {keccak : Keccak} {s : ChainState} {pool : PoolMeta} {amountIn : U256}
  {addr : Address} {slot : U256}

theorem quote_packed_eq (hPlan : s.plan pool.idx = some (.v2Packed addr slot)) (zeroForOne : Bool)
    (hFee : pool.feeBps.toNat ≤ 10000) (h0 : (packedReserves (s.read addr slot)).1 ≠ 0#112)
    (h1 : (packedReserves (s.read addr slot)).2 ≠ 0#112) (hAmount : amountIn ≠ 0#256)
    (hSmall : amountIn.toNat < 2 ^ 128) :
    quote M keccak s pool amountIn zeroForOne =
      some (ArbExecutor.v2Out (orderedReserves (s.read addr slot) zeroForOne) (pool.feeBps.setWidth 16) amountIn) := by
  have hNarrow : ∀ r : BitVec 112, r ≠ 0#112 → (r.setWidth 128 : U128) ≠ 0#128 := by
    intro r hr hZero
    apply hr
    have hBack : ((r.setWidth 128 : U128).setWidth 112 : BitVec 112) = r := BitVec.setWidth_setWidth_of_le r (by decide)
    rw [← hBack, hZero]
    rfl
  have hWiden : ∀ r : BitVec 112, ((r.setWidth 128 : U128).setWidth 256 : U256) = r.setWidth 256 :=
    fun r => BitVec.eq_of_toNat_eq (by
      have hr := r.isLt
      rw [BitVec.toNat_setWidth, BitVec.toNat_setWidth, BitVec.toNat_setWidth,
        Nat.mod_eq_of_lt (show r.toNat < 2 ^ 128 by omega)])
  unfold quote orderedReserves
  rw [hPlan]
  dsimp only
  rw [decodeV2Packed_eq, if_neg (by simp only [hNarrow _ h0, hNarrow _ h1, or_self, not_false_eq_true])]
  dsimp only
  rw [hWiden, hWiden]
  cases zeroForOne with
  | true => exact V2.getAmountOut_eq hFee h0 h1 hAmount hSmall
  | false => exact V2.getAmountOut_eq (r := (packedReserves (s.read addr slot)).swap) hFee h1 h0 hAmount hSmall

theorem orderedReserves_ne_zero {word : U256} (h0 : (packedReserves word).1 ≠ 0#112) (h1 : (packedReserves word).2 ≠ 0#112)
    (zeroForOne : Bool) : (orderedReserves word zeroForOne).1 ≠ 0#112 ∧ (orderedReserves word zeroForOne).2 ≠ 0#112 := by
  cases zeroForOne with
  | true => exact ⟨h0, h1⟩
  | false => exact ⟨h1, h0⟩

/-- What a pair is quoted leaves it something, and keeps its product. -/
theorem v2Out_keeps (word : U256) (zeroForOne : Bool) (hFee : pool.feeBps.toNat ≤ 10000)
    (h0 : (packedReserves word).1 ≠ 0#112) (h1 : (packedReserves word).2 ≠ 0#112) (amountIn : U256) :
    let r := orderedReserves word zeroForOne
    let out := ArbExecutor.v2Out r (pool.feeBps.setWidth 16) amountIn
    out.toNat < r.2.toNat ∧ V2.KeepsProduct r.1.toNat r.2.toNat pool.feeBps.toNat amountIn.toNat out.toNat := by
  obtain ⟨hIn, hOut⟩ := orderedReserves_ne_zero h0 h1 zeroForOne
  have hPositiveIn : 0 < (orderedReserves word zeroForOne).1.toNat :=
    Nat.pos_of_ne_zero fun hZero => hIn (BitVec.eq_of_toNat_eq hZero)
  have hPositiveOut : 0 < (orderedReserves word zeroForOne).2.toNat :=
    Nat.pos_of_ne_zero fun hZero => hOut (BitVec.eq_of_toNat_eq hZero)
  dsimp only
  rw [V2.keepsProduct_iff hPositiveIn hPositiveOut, ArbExecutor.v2Out_toNat, V2.fee_toNat hFee]
  exact ⟨ConstantProduct.out_lt (Nat.mul_pos hPositiveIn (by decide)) hPositiveOut, le_rfl⟩

/-- `_swapV2` computes `out` from the reserves of `word`, and goes on with it. -/
def V2.Settles (word : U256) (zeroForOne : Bool) (feeBps : U32) (amountIn out : U256) : Prop :=
  ∀ {E : Type} (self : Address) (ext : ArbExecutor.Handler E) (h : ArbExecutor.Hop) (st st' : ArbExecutor.State E)
    (timestamp : BitVec 32), h.zeroForOne = zeroForOne → h.feeBps.toNat = feeBps.toNat →
    ext (.getReserves h.pool) st = .ok ([(packedReserves word).1.setWidth 256, (packedReserves word).2.setWidth 256,
      timestamp.setWidth 256], st') →
    ArbExecutor._swapV2 self ext h amountIn st = V2.settleV2 self ext h amountIn out st'

theorem V2.fits {feeBps : U32} (hFee : feeBps.toNat ≤ 10000) (hSmall : amountIn.toNat < 2 ^ 128)
    (r : BitVec 112 × BitVec 112) : V2.Fits r.1.toNat r.2.toNat feeBps.toNat amountIn.toNat := by
  have hr := r.1.isLt
  have hBound : amountIn.toNat * (10000 - feeBps.toNat) < 2 ^ 142 := by
    rw [← V2.fee_toNat hFee]
    exact ArbExecutor.withFee_lt _ hSmall
  constructor
  · omega
  · calc amountIn.toNat * (10000 - feeBps.toNat) * r.2.toNat
        ≤ amountIn.toNat * (10000 - feeBps.toNat) * 2 ^ 112 := Nat.mul_le_mul_left _ r.2.isLt.le
      _ < 2 ^ 142 * 2 ^ 112 := Nat.mul_lt_mul_of_pos_right hBound (by decide)
      _ < 2 ^ 256 := by decide
  · omega
  · omega

theorem V2.settles {word : U256} {feeBps : U32} (hFee : feeBps.toNat ≤ 10000) (hSmall : amountIn.toNat < 2 ^ 128)
    (h0 : (packedReserves word).1 ≠ 0#112) (h1 : (packedReserves word).2 ≠ 0#112) (zeroForOne : Bool) :
    V2.Settles word zeroForOne feeBps amountIn
      (ArbExecutor.v2Out (orderedReserves word zeroForOne) (feeBps.setWidth 16) amountIn) := by
  intro E self ext h st st' timestamp hDirection hSame hReply
  have hRate : h.feeBps = feeBps.setWidth 16 := BitVec.eq_of_toNat_eq (hSame.trans (V2.fee_toNat hFee).symm)
  rw [V2._swapV2_settles hReply (hSame ▸ hFee) hSmall h0 h1, hDirection, hRate]
  rfl

/-- The quote of a pair: no word wraps, the contract computes the same, and it is the
largest output that keeps the product; more in never gives less out. -/
theorem quote_packed_exact (M : SwapMath ε) (keccak : Keccak)
    (hPlan : s.plan pool.idx = some (.v2Packed addr slot)) (zeroForOne : Bool) {reserveIn reserveOut : BitVec 112}
    (hReserves : orderedReserves (s.read addr slot) zeroForOne = (reserveIn, reserveOut))
    (hIn : reserveIn ≠ 0#112) (hOut : reserveOut ≠ 0#112) (hFee : pool.feeBps.toNat ≤ 10000)
    (hAmount : amountIn ≠ 0#256) (hSmall : amountIn.toNat < 2 ^ 128) :
    ∃ out, quote M keccak s pool amountIn zeroForOne = some out ∧
      V2.Fits reserveIn.toNat reserveOut.toNat pool.feeBps.toNat amountIn.toNat ∧
      V2.Settles (s.read addr slot) zeroForOne pool.feeBps amountIn out ∧
      out.toNat < reserveOut.toNat ∧
      V2.KeepsProduct reserveIn.toNat reserveOut.toNat pool.feeBps.toNat amountIn.toNat out.toNat ∧
      ¬V2.KeepsProduct reserveIn.toNat reserveOut.toNat pool.feeBps.toNat amountIn.toNat (out.toNat + 1) ∧
      ∀ more : U256, amountIn.toNat ≤ more.toNat → more.toNat < 2 ^ 128 →
        ∃ out', quote M keccak s pool more zeroForOne = some out' ∧ out.toNat ≤ out'.toNat := by
  have hBoth : (packedReserves (s.read addr slot)).1 ≠ 0#112 ∧ (packedReserves (s.read addr slot)).2 ≠ 0#112 := by
    cases zeroForOne with
    | true =>
      rw [show packedReserves (s.read addr slot) = (reserveIn, reserveOut) from hReserves]
      exact ⟨hIn, hOut⟩
    | false =>
      rw [show packedReserves (s.read addr slot) = (reserveOut, reserveIn) from congrArg Prod.swap hReserves]
      exact ⟨hOut, hIn⟩
  have hPositiveIn : 0 < reserveIn.toNat := Nat.pos_of_ne_zero fun hZero => hIn (BitVec.eq_of_toNat_eq hZero)
  have hPositiveOut : 0 < reserveOut.toNat := Nat.pos_of_ne_zero fun hZero => hOut (BitVec.eq_of_toNat_eq hZero)
  have hScaled : 0 < reserveIn.toNat * 10000 := Nat.mul_pos hPositiveIn (by decide)
  have hValue : ∀ amount : U256,
      (ArbExecutor.v2Out (orderedReserves (s.read addr slot) zeroForOne) (pool.feeBps.setWidth 16) amount).toNat =
        ConstantProduct.out (reserveIn.toNat * 10000) reserveOut.toNat (amount.toNat * (10000 - pool.feeBps.toNat)) := by
    intro amount
    rw [ArbExecutor.v2Out_toNat, hReserves, V2.fee_toNat hFee]
  refine ⟨_, quote_packed_eq hPlan zeroForOne hFee hBoth.1 hBoth.2 hAmount hSmall,
    V2.fits hFee hSmall (reserveIn, reserveOut), V2.settles hFee hSmall hBoth.1 hBoth.2 zeroForOne, ?_, ?_, ?_, ?_⟩
  · rw [hValue]
    exact ConstantProduct.out_lt hScaled hPositiveOut
  · rw [V2.keepsProduct_iff hPositiveIn hPositiveOut, hValue]
  · rw [V2.keepsProduct_iff hPositiveIn hPositiveOut, hValue]
    exact Nat.not_succ_le_self _
  · intro more hMore hMoreSmall
    have hMoreAmount : more ≠ 0#256 := by
      rintro rfl
      exact hAmount (BitVec.eq_of_toNat_eq (Nat.le_zero.mp hMore))
    refine ⟨_, quote_packed_eq hPlan zeroForOne hFee hBoth.1 hBoth.2 hMoreAmount hMoreSmall, ?_⟩
    rw [hValue, hValue]
    exact ConstantProduct.out_mono _ _ (Nat.mul_le_mul_right _ hMore)

end Quote

section Sample

/-- A pair with reserves 1000 and 2000 in slot 8. -/
def packedPair : PoolMeta where
  idx := 0
  address := 1#160
  dex := .uniV2Fork
  token0 := 2#160
  token1 := 3#160
  dec0 := 18#8
  dec1 := 18#8
  feeBps := 30#32
  feePips := 3000#32
  tickSpacing := 0
  v4 := none

def packedState : ChainState where
  memo := fun key => if key = (1#160, 8#256) then some (2000#256 <<< 112 ||| 1000#256) else none
  tickCache := fun _ => none
  plans := [some (.v2Packed 1#160 8#256)]

theorem packedState_exact :
    ∃ out, quote referenceMath referenceKeccak packedState packedPair 10#256 true = some out ∧
      V2.Settles (packedState.read 1#160 8#256) true 30#32 10#256 out ∧ out.toNat < 2000 := by
  have hPlan : packedState.plan packedPair.idx = some (.v2Packed 1#160 8#256) := rfl
  have hReserves : orderedReserves (packedState.read 1#160 8#256) true = (1000#112, 2000#112) := by decide
  have hAmount : 10#256 ≠ 0#256 := by decide
  obtain ⟨out, hQuote, -, hSettles, hBelow, -⟩ := quote_packed_exact referenceMath referenceKeccak hPlan true
    hReserves (by decide) (by decide) (by decide) hAmount (by decide)
  exact ⟨out, hQuote, hSettles, hBelow⟩

end Sample

end Robinarb
