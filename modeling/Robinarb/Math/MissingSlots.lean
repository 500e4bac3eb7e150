import Robinarb.Math.LostLiquidity
import Robinarb.Math.Quote
import Robinarb.State.SamplePool

/-! # Quotes over a state with missing entries

A slot without an entry reads as zero, and an unknown bitmap word stops the walk.
Both are pessimistic for reserves, prices and bitmap words. A liquidity word or a
tick net that reads as zero is not: the walk goes on with the wrong liquidity, and
trades with it as soon as the amount is more than the steps up to there take.
-/

namespace Robinarb

/-- `t` is `s` without some of its entries. -/
structure ChainState.Without (t s : ChainState) : Prop where
  plans : t.plans = s.plans
  memo : ∀ key, t.memo key = none ∨ t.memo key = s.memo key
  tickCache : ∀ key, t.tickCache key = none ∨ t.tickCache key = s.tickCache key

/-- The memo and the tick cache hold no slot with two values. -/
def ChainState.CachesAgree (s : ChainState) : Prop :=
  ∀ key v w, s.memo key = some v → s.tickCache key = some w → v = w

section Reads

variable {t s : ChainState}

theorem ChainState.Without.read (h : t.Without s) (hAgree : s.CachesAgree) (addr : Address) (slot : U256) :
    t.read addr slot = s.read addr slot ∨ t.read addr slot = 0#256 := by
  cases hMemo : t.memo (addr, slot) with
  | some v =>
    have hFull : s.memo (addr, slot) = some v := by
      obtain hNone | hSame := h.memo (addr, slot)
      · rw [hMemo] at hNone
        cases hNone
      · rw [← hSame, hMemo]
    exact .inl ((ChainState.read_of_memo hMemo).trans (ChainState.read_of_memo hFull).symm)
  | none =>
    rw [ChainState.read_of_memo_none hMemo]
    cases hTick : t.tickCache (addr, slot) with
    | none => exact .inr rfl
    | some w =>
      have hFull : s.tickCache (addr, slot) = some w := by
        obtain hNone | hSame := h.tickCache (addr, slot)
        · rw [hTick] at hNone
          cases hNone
        · rw [← hSame, hTick]
      left
      cases hOld : s.memo (addr, slot) with
      | some v =>
        rw [ChainState.read_of_memo hOld, hAgree _ v w hOld hFull]
        rfl
      | none =>
        rw [ChainState.read_of_memo_none hOld, hFull]

theorem ChainState.Without.plan_eq (h : t.Without s) (idx : Nat) : t.plan idx = s.plan idx := by
  rw [ChainState.plan, ChainState.plan, h.plans]

theorem ChainState.Without.word (h : t.Without s) (keccak : Keccak) (plan : ClPlan) {word : Int} {bits : U256}
    (hWord : ((plan.reader t).source keccak).bitmapWord word = some bits) :
    ((plan.reader s).source keccak).bitmapWord word = some bits := by
  obtain hNone | hSame := h.tickCache (bitmapSlot keccak plan.addr plan.bitmapBase word)
  · have hUnknown : ((plan.reader t).source keccak).bitmapWord word = none := hNone
    rw [hUnknown] at hWord
    cases hWord
  · exact hSame.symm.trans hWord

theorem decodeV3Slot0_zero : (decodeV3Slot0 0#256).1 = 0#256 := rfl

theorem decodeV3Slot0_sqrt_lt (w : U256) : (decodeV3Slot0 w).1.toNat < 2 ^ 160 := by
  simp only [decodeV3Slot0, BitVec.toNat_and]
  exact Nat.and_lt_two_pow _ (by decide)

end Reads

section Quotes

variable {ε : Type} (M : SwapMath ε) (keccak : Keccak)

/-- The walk over the remaining entries trades with a liquidity other than over the complete ones. -/
def ClPlan.TradesLost (plan : ClPlan) (t s : ChainState) (pool : PoolMeta) (amountIn : U256) (zeroForOne : Bool) :
    Prop :=
  Robinarb.TradesLost M ((plan.reader t).source keccak) ((plan.reader s).source keccak)
    (plan.params t pool zeroForOne) 1024 (plan.liquidityOf t != plan.liquidityOf s)
    (startState amountIn (plan.slot0Of t).1 (plan.slot0Of t).2 (plan.liquidityOf t))

/-- What the remaining tick data takes in before the first step that trades with a
liquidity other than the complete one, `none` where no such step is known. -/
def ClPlan.lostDepth (plan : ClPlan) (t s : ChainState) (pool : PoolMeta) (zeroForOne : Bool) : Option Nat :=
  Robinarb.lostDepth M ((plan.reader t).source keccak) ((plan.reader s).source keccak)
    (plan.params t pool zeroForOne) 1024 (plan.liquidityOf t != plan.liquidityOf s)
    (startState 0#256 (plan.slot0Of t).1 (plan.slot0Of t).2 (plan.liquidityOf t))

/-- An amount that is positive as `I256`, and a fee below the whole. -/
def ClPlan.ExactInput (plan : ClPlan) (t : ChainState) (pool : PoolMeta) (amountIn : U256) (zeroForOne : Bool) :
    Prop :=
  amountIn.toNat < 2 ^ 255 ∧ (plan.params t pool zeroForOne).feePips.toNat < 10 ^ 6

/-- The amount ends before the first lost entry. Where it is not an exact input,
no entry of the liquidity is lost. -/
def ClPlan.Kept (plan : ClPlan) (t s : ChainState) (pool : PoolMeta) (amountIn : U256) (zeroForOne : Bool) : Prop :=
  (plan.ExactInput t pool amountIn zeroForOne →
    ∀ depth, plan.lostDepth M keccak t s pool zeroForOne = some depth → amountIn.toNat ≤ depth) ∧
  (¬plan.ExactInput t pool amountIn zeroForOne →
    plan.liquidityOf t = plan.liquidityOf s ∧
    ∀ tick, (plan.reader t).liquidityNet keccak tick = (plan.reader s).liquidityNet keccak tick)

/-- Every slot of the pool that the quote takes at another value than the complete
one stops it, or comes behind the amount. -/
def QuoteKept (t s : ChainState) (pool : PoolMeta) (amountIn : U256) (zeroForOne : Bool) : Prop :=
  match s.plan pool.idx with
  | none => True
  | some (.v2Packed addr slot) => t.read addr slot = s.read addr slot ∨ t.read addr slot = 0#256
  | some (.v2TwoSlot addr r0) =>
    (t.read addr r0 = s.read addr r0 ∧ t.read addr (r0 + 1#256) = s.read addr (r0 + 1#256)) ∨
      t.read addr r0 = 0#256 ∨ t.read addr (r0 + 1#256) = 0#256
  | some (.cl plan) =>
    (plan.slot0Of t).1 = 0#256 ∨
      (t.read plan.addr plan.slot0 = s.read plan.addr plan.slot0 ∧ plan.Kept M keccak t s pool amountIn zeroForOne)

end Quotes

section FailSafe

variable {ε : Type} {M : SwapMath ε} {keccak : Keccak} {t s : ChainState} {pool : PoolMeta} {amountIn : U256}
  {zeroForOne : Bool} {plan : ClPlan}

theorem getAmountOutSrc_of_error {src : TickSource} {p : SwapParams} {sqrtPriceX96 : U256} {tick : Int}
    {liquidity : U128} {e : ε} (h : trySwapSrc M src p amountIn sqrtPriceX96 tick liquidity = .error e) :
    getAmountOutSrc M src p amountIn sqrtPriceX96 tick liquidity = 0#256 := by
  simp only [getAmountOutSrc, h]

theorem tradesLost_iff_depth (laws : M.TickLaws) (bounded : M.StepBounded) (threshold : M.StepThreshold)
    (hExact : plan.ExactInput t pool amountIn zeroForOne) :
    plan.TradesLost M keccak t s pool amountIn zeroForOne ↔
      ∃ depth, plan.lostDepth M keccak t s pool zeroForOne = some depth ∧ depth < amountIn.toNat := by
  unfold ClPlan.TradesLost ClPlan.lostDepth
  exact tradesLost_iff laws bounded threshold hExact.2 (decodeV3Slot0_sqrt_lt _) hExact.1

theorem not_tradesLost_of_kept (laws : M.TickLaws) (bounded : M.StepBounded) (threshold : M.StepThreshold)
    (hKept : plan.Kept M keccak t s pool amountIn zeroForOne) :
    ¬plan.TradesLost M keccak t s pool amountIn zeroForOne := by
  by_cases hExact : plan.ExactInput t pool amountIn zeroForOne
  · rw [tradesLost_iff_depth laws bounded threshold hExact]
    rintro ⟨depth, hDepth, hLt⟩
    exact absurd (hKept.1 hExact depth hDepth) (Nat.not_le.mpr hLt)
  · obtain ⟨hLiquidity, hNets⟩ := hKept.2 hExact
    rw [ClPlan.TradesLost, hLiquidity, bne_self_eq_false]
    exact not_tradesLost_of_nets hNets

theorem clQuote_le_of_without (laws : M.TickLaws) (bounded : M.StepBounded) (dry : M.StepDry)
    (hWithout : t.Without s) (hSlot0 : t.read plan.addr plan.slot0 = s.read plan.addr plan.slot0)
    (hTrades : ¬plan.TradesLost M keccak t s pool amountIn zeroForOne) {out : U256}
    (hFull : plan.tryQuote M keccak s pool amountIn zeroForOne = .ok out) :
    getAmountOutSrc M ((plan.reader t).source keccak) (plan.params t pool zeroForOne) amountIn (plan.slot0Of t).1
        (plan.slot0Of t).2 (plan.liquidityOf t) ≤
      getAmountOutSrc M ((plan.reader s).source keccak) (plan.params s pool zeroForOne) amountIn
        (plan.slot0Of s).1 (plan.slot0Of s).2 (plan.liquidityOf s) := by
  have hParams : plan.params t pool zeroForOne = plan.params s pool zeroForOne := by
    simp only [ClPlan.params, hSlot0]
  have hStart : plan.slot0Of t = plan.slot0Of s := by
    simp only [ClPlan.slot0Of, hSlot0]
  rw [ClPlan.TradesLost, hParams, hStart] at hTrades
  rw [hParams, hStart]
  obtain ⟨final, reports, hWalk, _⟩ := trySwapSrc_walk hFull
  have hTotal := swapWalk_totalOut_lt laws bounded (decodeV3Slot0_sqrt_lt _) hWalk
  rcases hPart : trySwapSrc M ((plan.reader t).source keccak) (plan.params s pool zeroForOne) amountIn
      (plan.slot0Of s).1 (plan.slot0Of s).2 (plan.liquidityOf t) with e | out'
  · rw [getAmountOutSrc_of_error hPart]
    exact BitVec.le_def.mpr (Nat.zero_le _)
  · obtain ⟨last, shorter, hShort, _⟩ := trySwapSrc_walk hPart
    have hLe : totalOut shorter ≤ totalOut reports := by
      by_cases hLiquidity : plan.liquidityOf t = plan.liquidityOf s
      · rw [hLiquidity, bne_self_eq_false] at hTrades
        rw [hLiquidity] at hShort
        exact totalOut_le_of_kept dry (fun _ _ => hWithout.word keccak plan) hTrades hShort hWalk
      · rw [bne_iff_ne.mpr hLiquidity] at hTrades
        rw [totalOut_of_lost dry hTrades hShort]
        exact Nat.zero_le _
    obtain ⟨_, hNat⟩ := getAmountOutSrc_toNat hShort (by omega)
    obtain ⟨_, hNatFull⟩ := getAmountOutSrc_toNat hWalk hTotal
    rw [BitVec.le_def, hNat, hNatFull]
    exact hLe

/-- Where no slot has two values, only a walk over a lost liquidity is not kept. -/
theorem tradesLost_of_not_kept (laws : M.TickLaws) (bounded : M.StepBounded) (threshold : M.StepThreshold)
    (hWithout : t.Without s) (hAgree : s.CachesAgree) (hKept : ¬QuoteKept M keccak t s pool amountIn zeroForOne) :
    ∃ plan, s.plan pool.idx = some (.cl plan) ∧ (plan.ExactInput t pool amountIn zeroForOne →
      plan.TradesLost M keccak t s pool amountIn zeroForOne) := by
  have hRead := hWithout.read hAgree
  unfold QuoteKept at hKept
  rcases hPlan : s.plan pool.idx with _ | ⟨addr, slot⟩ | ⟨addr, r0⟩ | plan <;> rw [hPlan] at hKept
  · exact absurd trivial hKept
  · exact absurd (hRead addr slot) hKept
  · refine absurd ?_ hKept
    obtain hFirst | hFirst := hRead addr r0
    · exact (hRead addr (r0 + 1#256)).imp (fun hSecond => ⟨hFirst, hSecond⟩) .inr
    · exact .inr (.inl hFirst)
  · obtain ⟨hSqrt, hKept⟩ := not_or.mp hKept
    refine ⟨plan, rfl, fun hExact => ?_⟩
    rw [tradesLost_iff_depth laws bounded threshold hExact]
    by_contra hBefore
    refine hKept ⟨?_, fun _ depth hDepth => ?_, fun hNot => absurd hExact hNot⟩
    · obtain h | h := hRead plan.addr plan.slot0
      · exact h
      · exact absurd (by rw [ClPlan.slot0Of, h, decodeV3Slot0_zero]) hSqrt
    · by_contra hLt
      exact hBefore ⟨depth, hDepth, by omega⟩

/-- Removing entries never raises a quote unless its amount reaches past a lost entry.
Where no slot has two values, such a quote trades with a liquidity the pool does not have. -/
theorem quote_le_of_without (laws : M.TickLaws) (bounded : M.StepBounded) (threshold : M.StepThreshold)
    (dry : M.StepDry) (hWithout : t.Without s) (hCompletes : QuoteCompletes M keccak s pool amountIn zeroForOne) :
    (QuoteKept M keccak t s pool amountIn zeroForOne →
      ∃ part full, quote M keccak t pool amountIn zeroForOne = some part ∧
        quote M keccak s pool amountIn zeroForOne = some full ∧ part ≤ full) ∧
    (¬QuoteKept M keccak t s pool amountIn zeroForOne → s.CachesAgree →
      ∃ plan, s.plan pool.idx = some (.cl plan) ∧ (plan.ExactInput t pool amountIn zeroForOne →
        plan.TradesLost M keccak t s pool amountIn zeroForOne)) := by
  refine ⟨fun hKept => ?_, fun hKept hAgree =>
    tradesLost_of_not_kept laws bounded threshold hWithout hAgree hKept⟩
  obtain ⟨full, hFull⟩ := Option.isSome_iff_exists.mp hCompletes.1
  have hZero : quote M keccak t pool amountIn zeroForOne = some 0#256 →
      ∃ part full, quote M keccak t pool amountIn zeroForOne = some part ∧
        quote M keccak s pool amountIn zeroForOne = some full ∧ part ≤ full :=
    fun h => ⟨0#256, full, h, hFull, BitVec.le_def.mpr (Nat.zero_le _)⟩
  have hSame : quote M keccak t pool amountIn zeroForOne = quote M keccak s pool amountIn zeroForOne →
      ∃ part full, quote M keccak t pool amountIn zeroForOne = some part ∧
        quote M keccak s pool amountIn zeroForOne = some full ∧ part ≤ full :=
    fun h => ⟨full, full, h.trans hFull, hFull, BitVec.le_refl _⟩
  unfold QuoteKept at hKept
  rcases hPlan : s.plan pool.idx with _ | ⟨addr, slot⟩ | ⟨addr, r0⟩ | plan <;> rw [hPlan] at hKept
  all_goals have hPlan' := (hWithout.plan_eq pool.idx).trans hPlan
  · exact hZero (by simp only [quote, hPlan'])
  · obtain h | h := hKept
    · exact hSame (quote_v2Packed_congr hPlan hWithout.plans h)
    · exact hZero (quote_v2Packed_zero hPlan' h)
  · obtain ⟨hFirst, hSecond⟩ | hNone := hKept
    · exact hSame (quote_v2TwoSlot_congr hPlan hWithout.plans hFirst hSecond)
    · exact hZero (quote_v2TwoSlot_zero hPlan' hNone)
  · by_cases hSqrt : (plan.slot0Of t).1 = 0#256
    · exact hZero (by rw [quote_cl hPlan', if_pos hSqrt])
    · obtain ⟨hSlot0, hKept⟩ := hKept.resolve_left hSqrt
      have hSqrtFull : (plan.slot0Of s).1 ≠ 0#256 := by
        rwa [ClPlan.slot0Of, ← hSlot0]
      obtain ⟨out, hOut⟩ := hCompletes.2 plan hPlan hSqrtFull
      refine ⟨_, _, ?_, ?_, clQuote_le_of_without laws bounded dry hWithout hSlot0
        (not_tradesLost_of_kept laws bounded threshold hKept) hOut⟩
      · rw [quote_cl hPlan', if_neg hSqrt]
      · rw [quote_cl hPlan, if_neg hSqrtFull]

end FailSafe

section Sample

def sampleMeta : PoolMeta where
  idx := 0
  address := 1#160
  dex := .uniV3Fork
  token0 := 10#160
  token1 := 11#160
  dec0 := 18#8
  dec1 := 18#8
  feeBps := 30#32
  feePips := 3000#32
  tickSpacing := 1
  v4 := none

/-- The sample pool with only the given entries of its tick data. -/
def sampleWith (keys : List SlotKey) : ChainState :=
  { sampleState with tickCache := fun key => if key ∈ keys then some (sampleStorage key) else none }

def sampleNets : List SlotKey :=
  [tickSlot referenceKeccak 1#160 5#256 0, tickSlot referenceKeccak 1#160 5#256 1]

def sampleWords : List SlotKey :=
  [bitmapSlot referenceKeccak 1#160 6#256 0, bitmapSlot referenceKeccak 1#160 6#256 (-1)]

theorem sampleWith_without {some all : List SlotKey} (h : some ⊆ all) :
    (sampleWith some).Without (sampleWith all) where
  plans := rfl
  memo _ := .inr rfl
  tickCache key := by
    by_cases hKey : key ∈ some
    · exact .inr (by simp [sampleWith, hKey, h hKey])
    · exact .inl (by simp [sampleWith, hKey])

theorem sampleWith_cachesAgree (keys : List SlotKey) : (sampleWith keys).CachesAgree := by
  intro key v w hMemo hTick
  simp only [sampleWith, sampleState] at hMemo hTick
  split at hMemo
  · split at hTick
    · cases hMemo
      cases hTick
      rfl
    · cases hTick
  · cases hMemo

/-- The sample with all its tick data. -/
def sampleWhole : ChainState := sampleWith (sampleNets ++ sampleWords)

/-- The sample without the net of tick 0. -/
def sampleGap : ChainState := sampleWith (sampleWords ++ [tickSlot referenceKeccak 1#160 5#256 1])

theorem sampleGap_without : sampleGap.Without sampleWhole := by
  have hNet : tickSlot referenceKeccak 1#160 5#256 1 ∈ sampleNets ++ sampleWords :=
    List.mem_append_left _ (List.mem_cons_of_mem _ List.mem_cons_self)
  exact sampleWith_without
    (List.append_subset.mpr ⟨List.subset_append_right _ _, List.cons_subset.mpr ⟨hNet, List.nil_subset _⟩⟩)

theorem sampleWhole_completes {amountIn out : U256}
    (hSome : (quote referenceMath referenceKeccak sampleWhole sampleMeta amountIn true).isSome)
    (hOut : samplePlan.tryQuote referenceMath referenceKeccak sampleWhole sampleMeta amountIn true = .ok out) :
    QuoteCompletes referenceMath referenceKeccak sampleWhole sampleMeta amountIn true := by
  refine ⟨hSome, fun plan hPlan _ => ?_⟩
  cases hPlan
  exact ⟨out, hOut⟩

theorem sampleGap_depth :
    samplePlan.lostDepth referenceMath referenceKeccak sampleGap sampleWhole sampleMeta true = some 50146677846952 := by
  decide +kernel

theorem sampleGap_kept_iff {amountIn : U256} (h : amountIn.toNat < 2 ^ 255) :
    QuoteKept referenceMath referenceKeccak sampleGap sampleWhole sampleMeta amountIn true ↔
      amountIn.toNat ≤ 50146677846952 := by
  have hExact : samplePlan.ExactInput sampleGap sampleMeta amountIn true := ⟨h, by decide +kernel⟩
  have hSqrt : (samplePlan.slot0Of sampleGap).1 ≠ 0#256 := by decide +kernel
  constructor
  · intro hKept
    exact (hKept.resolve_left hSqrt).2.1 hExact _ sampleGap_depth
  · refine fun hAmount => .inr ⟨rfl, fun _ depth hDepth => ?_, fun hNot => absurd hExact hNot⟩
    rw [sampleGap_depth] at hDepth
    cases hDepth
    exact hAmount

/-- An amount that ends before tick 0 quotes no more without its net, a larger one trades past it. -/
theorem sampleGap_quote_le :
    (∃ part full, quote referenceMath referenceKeccak sampleGap sampleMeta 50000000000000#256 true = some part ∧
      quote referenceMath referenceKeccak sampleWhole sampleMeta 50000000000000#256 true = some full ∧ part ≤ full) ∧
    samplePlan.TradesLost referenceMath referenceKeccak sampleGap sampleWhole sampleMeta 70000000000000#256 true := by
  constructor
  · exact (quote_le_of_without referenceMath_tickLaws referenceMath_stepBounded referenceMath_stepThreshold
      referenceMath_stepDry sampleGap_without
      (sampleWhole_completes (by decide +kernel) (by decide +kernel : _ = Except.ok 49852499728012#256))).1
      ((sampleGap_kept_iff (by decide)).mpr (by decide))
  · have hNot : ¬QuoteKept referenceMath referenceKeccak sampleGap sampleWhole sampleMeta 70000000000000#256 true :=
      (sampleGap_kept_iff (by decide)).not.mpr (by decide)
    obtain ⟨plan, hPlan, hTrades⟩ := (quote_le_of_without referenceMath_tickLaws referenceMath_stepBounded
      referenceMath_stepThreshold referenceMath_stepDry sampleGap_without
      (sampleWhole_completes (by decide +kernel) (by decide +kernel : _ = Except.ok 69792107963874#256))).2 hNot
      (sampleWith_cachesAgree _)
    cases hPlan
    exact hTrades ⟨by decide, by decide +kernel⟩

/-- Without the net of tick 0 the walk keeps the liquidity that leaves there and quotes more. -/
theorem quote_without_net : ¬∀ (t s : ChainState) (pool : PoolMeta) (amountIn : U256) (zeroForOne : Bool),
    t.Without s → s.CachesAgree → QuoteCompletes referenceMath referenceKeccak s pool amountIn zeroForOne →
    ∃ part full, quote referenceMath referenceKeccak t pool amountIn zeroForOne = some part ∧
      quote referenceMath referenceKeccak s pool amountIn zeroForOne = some full ∧ part ≤ full := by
  intro h
  obtain ⟨part, full, hPart, hFull, hLe⟩ := h sampleGap sampleWhole sampleMeta 70000000000000#256 true sampleGap_without
    (sampleWith_cachesAgree _) (sampleWhole_completes (by decide +kernel)
      (by decide +kernel : _ = Except.ok 69792107963874#256))
  have hPartOut : quote referenceMath referenceKeccak sampleGap sampleMeta 70000000000000#256 true =
      some 69792107964031#256 := by
    decide +kernel
  have hFullOut : quote referenceMath referenceKeccak sampleWhole sampleMeta 70000000000000#256 true =
      some 69792107963874#256 := by
    decide +kernel
  rw [hPartOut, Option.some.injEq] at hPart
  rw [hFullOut, Option.some.injEq] at hFull
  subst hPart hFull
  exact absurd hLe (by decide)

end Sample

end Robinarb
