import Robinarb.Math.ReferenceMath
import Robinarb.Routing.ClosedForm
import Robinarb.State.SamplePool

/-! # The tier-1 gate

The product of the marginal rates against the exact chain of floor divisions, over the
same storage. A rate is as good as the output reserve it reads: `u256_to_f64` keeps the
top 52 bits of a word.
-/

namespace Robinarb

open scoped Numerals

section Pools

variable {s : ChainState} {pool : PoolMeta} {r : U256 × U256}

/-- The reserve words of a constant-product pool. -/
def reserveWords (s : ChainState) (pool : PoolMeta) : Option (U256 × U256) :=
  match s.plan pool.idx with
  | some (.v2Packed addr slot) =>
    let r := decodeV2Packed (s.read addr slot)
    some (r.1.setWidth 256, r.2.setWidth 256)
  | some (.v2TwoSlot addr r0) =>
    if pool.dex = .aeroStable then none else some (s.read addr r0, s.read addr (r0 + 1#256))
  | _ => none

theorem zero_iff_inDirection {α : Type} (P : α → Prop) (zeroForOne : Bool) (r : α × α) :
    (P (inDirection zeroForOne r).1 ∨ P (inDirection zeroForOne r).2) ↔ P r.1 ∨ P r.2 := by
  cases zeroForOne with
  | true => exact Iff.rfl
  | false => exact or_comm

theorem quote_of_reserveWords {ε : Type} {M : SwapMath ε} {keccak : Keccak} (hWords : reserveWords s pool = some r)
    (amountIn : U256) (zeroForOne : Bool) :
    quote M keccak s pool amountIn zeroForOne = V2.getAmountOut amountIn (inDirection zeroForOne r).1
      (inDirection zeroForOne r).2 pool.feeBps := by
  -- the early exit on an empty reserve is also the first branch of the formula
  have hEmpty : ∀ r : U256 × U256, r.1 = 0#256 ∨ r.2 = 0#256 → some 0#256 = V2.getAmountOut amountIn
      (inDirection zeroForOne r).1 (inDirection zeroForOne r).2 pool.feeBps := by
    intro r hEmpty
    exact (if_pos (.inr ((zero_iff_inDirection (· = 0#256) zeroForOne r).mpr hEmpty))).symm
  unfold reserveWords at hWords
  unfold quote
  split at hWords
  · rename_i addr slot hPlan
    rw [hPlan]
    cases hWords
    dsimp only
    split
    · rename_i hNone
      apply hEmpty
      rcases hNone with h | h
      · left
        exact congrArg (BitVec.setWidth 256) h
      · right
        exact congrArg (BitVec.setWidth 256) h
    · cases zeroForOne <;> rfl
  · rename_i addr r0 hPlan
    split at hWords
    · cases hWords
    · rename_i hDex
      rw [hPlan]
      cases hWords
      dsimp only
      split
      · exact hEmpty _ ‹_›
      · cases zeroForOne <;> rfl
  · cases hWords

/-- What a float pool reads for a word of its reserves. -/
def readReserve (K : Type) [Field K] (s : ChainState) (pool : PoolMeta) (w : U256) : K :=
  match s.plan pool.idx with
  | some (.v2Packed _ _) => w.toNat
  | _ => u256ToF64 K w

/-- The output reserve of the pool is a packed one, or a word that the rate reads whole. -/
def OutputExact (s : ChainState) (pool : PoolMeta) (w : U256) : Prop :=
  (∃ addr slot, s.plan pool.idx = some (.v2Packed addr slot)) ∨ ReadExactly w

theorem readReserve_of_exact {K : Type} [Field K] {w : U256} (h : OutputExact s pool w) : readReserve K s pool w = w.toNat := by
  unfold readReserve
  rcases h with ⟨addr, slot, hPlan⟩ | h
  · rw [hPlan]
  · split
    · rfl
    · exact u256ToF64_of_readExactly h

variable {K : Type} [Field K] [LinearOrder K]

theorem spotRate_of_reserveWords (hWords : reserveWords s pool = some r) (zeroForOne : Bool) :
    spotRate s pool zeroForOne =
      if readReserve K s pool (inDirection zeroForOne r).1 ≤ 0 ∨ readReserve K s pool (inDirection zeroForOne r).2 ≤ 0
      then 0
      else feeFactor K pool.feeBps * readReserve K s pool (inDirection zeroForOne r).2 /
        readReserve K s pool (inDirection zeroForOne r).1 := by
  have hNat : ∀ x : U128, (x.setWidth 256 : U256).toNat = x.toNat := by
    intro x
    rw [BitVec.toNat_setWidth_of_le (by decide)]
  unfold reserveWords at hWords
  unfold spotRate readReserve
  split at hWords
  · rename_i hPlan
    rw [hPlan]
    cases hWords
    dsimp only
    cases zeroForOne <;> simp only [inDirection, hNat, if_true, Bool.false_eq_true, if_false]
  · rename_i hPlan
    split at hWords
    · cases hWords
    · rename_i hDex
      rw [hPlan]
      cases hWords
      dsimp only
      rw [if_neg hDex]
      cases zeroForOne <;> rfl
  · cases hWords

variable [IsStrictOrderedRing K]

theorem readReserve_le (s : ChainState) (pool : PoolMeta) (w : U256) : readReserve K s pool w ≤ w.toNat := by
  unfold readReserve
  split
  · exact le_rfl
  · exact u256ToF64_le w

theorem readReserve_pos {w : U256} (hw : w ≠ 0#256) : 0 < readReserve K s pool w := by
  unfold readReserve
  split
  · exact Nat.cast_pos.mpr (Nat.pos_of_ne_zero fun hZero => hw (BitVec.eq_of_toNat_eq hZero))
  · exact u256ToF64_pos hw

theorem le_readReserve (s : ChainState) (pool : PoolMeta) (w : U256) :
    (w.toNat : K) * (1 - 1 / 2 ^ 51) ≤ readReserve K s pool w := by
  unfold readReserve
  split
  · apply mul_le_of_le_one_right (Nat.cast_nonneg _)
    norm_num
  · exact le_u256ToF64 w

end Pools

section Hop

variable {K : Type} [Field K] [LinearOrder K] [IsStrictOrderedRing K] {s : ChainState} {pool : PoolMeta}
  {r : U256 × U256} {amountIn out : U256}

/-- The formula reaches its products, and none of them reaches `2 ^ 256`. -/
def NoWrap (amountIn reserveIn reserveOut : U256) (feeBps : U32) : Prop :=
  amountIn ≠ 0#256 → reserveIn ≠ 0#256 → reserveOut ≠ 0#256 →
    V2.Fits reserveIn.toNat reserveOut.toNat feeBps.toNat amountIn.toNat

theorem spotRate_nonneg (hWords : reserveWords s pool = some r) (hFee : pool.feeBps.toNat ≤ 10000)
    (zeroForOne : Bool) : 0 ≤ (spotRate s pool zeroForOne : K) := by
  rw [spotRate_of_reserveWords hWords]
  split
  · exact le_rfl
  · rename_i hPositive
    obtain ⟨hIn, hOut⟩ := not_or.mp hPositive
    exact div_nonneg (mul_nonneg (feeFactor_nonneg hFee) (not_le.mp hOut).le) (not_le.mp hIn).le

/-- An exact output stays below the rate, up to what the rate loses of its output reserve. -/
theorem getAmountOut_le_rate {q : K} (hWords : reserveWords s pool = some r) (hFee : pool.feeBps.toNat ≤ 10000)
    (zeroForOne : Bool)
    (hRead : ((inDirection zeroForOne r).2.toNat : K) * q ≤ readReserve K s pool (inDirection zeroForOne r).2)
    (hq : 0 ≤ q) (hFits : NoWrap amountIn (inDirection zeroForOne r).1 (inDirection zeroForOne r).2 pool.feeBps)
    (hOut : V2.getAmountOut amountIn (inDirection zeroForOne r).1 (inDirection zeroForOne r).2 pool.feeBps =
      some out) :
    (out.toNat : K) * q ≤ amountIn.toNat * spotRate s pool zeroForOne := by
  by_cases hNone : amountIn = 0#256 ∨ (inDirection zeroForOne r).1 = 0#256 ∨ (inDirection zeroForOne r).2 = 0#256
  · have hZero : out = 0#256 := by
      rw [V2.getAmountOut, if_pos hNone] at hOut
      exact (Option.some.inj hOut).symm
    rw [hZero, BitVec.toNat_zero, Nat.cast_zero, zero_mul]
    exact mul_nonneg (Nat.cast_nonneg _) (spotRate_nonneg hWords hFee zeroForOne)
  · obtain ⟨hAmount, hNone⟩ := not_or.mp hNone
    obtain ⟨hIn, hReserveOut⟩ := not_or.mp hNone
    obtain ⟨floor, hFloor, hValue⟩ := V2.getAmountOut_toNat hFee hIn (hFits hAmount hIn hReserveOut)
    have hSame : out = floor := Option.some.inj (hOut.symm.trans hFloor)
    have hInPositive : 0 < (inDirection zeroForOne r).1.toNat :=
      Nat.pos_of_ne_zero fun hZero => hIn (BitVec.eq_of_toNat_eq hZero)
    have hReadIn : 0 < readReserve K s pool (inDirection zeroForOne r).1 := readReserve_pos hIn
    have hReadOut : 0 < readReserve K s pool (inDirection zeroForOne r).2 := readReserve_pos hReserveOut
    rw [spotRate_of_reserveWords hWords, if_neg (by simp only [hReadIn.not_ge, hReadOut.not_ge, or_self,
      not_false_eq_true]), hSame, hValue]
    have hMarginal := ConstantProduct.out_le_marginal (K := K) (Nat.mul_pos hInPositive (by decide : 0 < 10000))
      (inDirection zeroForOne r).2.toNat (amountIn.toNat * (10000 - pool.feeBps.toNat))
    calc _ ≤ _ := mul_le_mul_of_nonneg_right hMarginal hq
      _ = amountIn.toNat * (feeFactor K pool.feeBps * ((inDirection zeroForOne r).2.toNat * q) /
          (inDirection zeroForOne r).1.toNat) := by
        rw [feeFactor_eq hFee, Nat.cast_mul, Nat.cast_mul, Nat.cast_ofNat]
        field_simp
      _ ≤ _ := by
        apply mul_le_mul_of_nonneg_left _ (Nat.cast_nonneg _)
        apply div_le_div₀ _ _ hReadIn (readReserve_le _ _ _)
        · exact mul_nonneg (feeFactor_nonneg hFee) hReadOut.le
        · exact mul_le_mul_of_nonneg_left hRead (feeFactor_nonneg hFee)

end Hop

section Route

variable {K : Type} [Field K] [LinearOrder K] [IsStrictOrderedRing K] {engine : Engine} {s : ChainState}
  {hops : List Hop} {amountIn out : U256}

/-- Every hop is a constant-product pool with a fee of at most 100 %. -/
def ConstantProductHops (engine : Engine) (s : ChainState) (hops : List Hop) : Prop :=
  ∀ hop ∈ hops, ∃ pool r, engine.metaOf hop.pool = some pool ∧ reserveWords s pool = some r ∧
    pool.feeBps.toNat ≤ 10000

/-- No product of the exact quotes along the hops reaches `2 ^ 256`. -/
def NoWrapAlong (engine : Engine) (s : ChainState) : List Hop → U256 → Prop
  | [], _ => True
  | hop :: rest, amountIn => ∀ pool r, engine.metaOf hop.pool = some pool → reserveWords s pool = some r →
    NoWrap amountIn (inDirection hop.zeroForOne r).1 (inDirection hop.zeroForOne r).2 pool.feeBps ∧
    ∀ out, V2.getAmountOut amountIn (inDirection hop.zeroForOne r).1 (inDirection hop.zeroForOne r).2 pool.feeBps =
      some out → out ≠ 0#256 → NoWrapAlong engine s rest out

/-- Each hop reads its output reserve up to a factor. -/
def ReadsWithin (q : K) (engine : Engine) (s : ChainState) (hops : List Hop) : Prop :=
  ∀ hop ∈ hops, ∀ pool r, engine.metaOf hop.pool = some pool → reserveWords s pool = some r →
    ((inDirection hop.zeroForOne r).2.toNat : K) * q ≤ readReserve K s pool (inDirection hop.zeroForOne r).2

theorem spotHops_defined (hHops : ConstantProductHops engine s hops) {prod : K} (hProd : 0 ≤ prod) :
    ∃ p, spotHops engine s hops prod = some p ∧ 0 ≤ p := by
  induction hops generalizing prod with
  | nil => exact ⟨prod, rfl, hProd⟩
  | cons hop rest ih =>
    obtain ⟨hHop, hRest⟩ := List.forall_mem_cons.mp hHops
    obtain ⟨pool, r, hPool, hWords, hFee⟩ := hHop
    rw [spotHops, hPool, Option.bind_eq_bind, Option.bind_some]
    dsimp only
    split
    · exact ⟨0, rfl, le_rfl⟩
    · exact ih hRest (mul_nonneg hProd (spotRate_nonneg hWords hFee _))

/-- The exact chain against the product of the rates, what the rates lose taken off at
every hop. -/
theorem quoteHops_le_spotHops {ε : Type} {M : SwapMath ε} {keccak : Keccak} {q prod p : K}
    (hHops : ConstantProductHops engine s hops) (hq : 0 < q) (hRead : ReadsWithin q engine s hops)
    (hFits : NoWrapAlong engine s hops amountIn)
    (hOut : quoteHops M keccak engine s hops amountIn = some (some out)) (hProd : 0 ≤ prod)
    (hSpot : spotHops engine s hops prod = some p) :
    (out.toNat : K) * q ^ hops.length * prod ≤ amountIn.toNat * p := by
  induction hops generalizing amountIn prod with
  | nil =>
    cases hOut
    cases hSpot
    rw [List.length_nil, pow_zero, mul_one]
  | cons hop rest ih =>
    obtain ⟨hHop, hRest⟩ := List.forall_mem_cons.mp hHops
    obtain ⟨hReadHop, hReadRest⟩ := List.forall_mem_cons.mp hRead
    obtain ⟨pool, r, hPool, hWords, hFee⟩ := hHop
    obtain ⟨hFitsHop, hFitsRest⟩ := hFits pool r hPool hWords
    rw [quoteHops, hPool, Option.bind_eq_bind, Option.bind_some, quote_of_reserveWords hWords] at hOut
    obtain ⟨mid, hMid, hOut⟩ := Option.bind_eq_some_iff.mp hOut
    rw [spotHops, hPool, Option.bind_eq_bind, Option.bind_some] at hSpot
    have hRate : 0 ≤ (spotRate s pool hop.zeroForOne : K) := spotRate_nonneg hWords hFee _
    have hStep := getAmountOut_le_rate hWords hFee hop.zeroForOne (hReadHop pool r hPool hWords) hq.le hFitsHop hMid
    have hMidPositive : mid ≠ 0#256 := by
      rintro rfl
      cases hOut
    rw [if_neg hMidPositive] at hOut
    have hMidPositive' : (0 : K) < mid.toNat :=
      Nat.cast_pos.mpr (Nat.pos_of_ne_zero fun hZero => hMidPositive (BitVec.eq_of_toNat_eq hZero))
    -- an output that is not zero takes a rate that is not zero
    have hRatePositive : 0 < (spotRate s pool hop.zeroForOne : K) := by
      rcases hRate.eq_or_lt with hZero | hPositive
      · rw [← hZero, mul_zero] at hStep
        exact absurd (mul_pos hMidPositive' hq) hStep.not_gt
      · exact hPositive
    dsimp only at hSpot
    split at hSpot
    · rename_i hExit
      rcases mul_eq_zero.mp hExit with hZero | hZero
      · cases hSpot
        rw [hZero, mul_zero, mul_zero]
      · exact absurd hZero hRatePositive.ne'
    · have hLater := ih hRest hReadRest (hFitsRest mid hMid hMidPositive) hOut (mul_nonneg hProd hRate) hSpot
      have hpNonneg : 0 ≤ p := by
        obtain ⟨p', hp', hNonneg⟩ := spotHops_defined hRest (mul_nonneg hProd hRate)
        exact (Option.some.inj (hSpot.symm.trans hp')) ▸ hNonneg
      apply le_of_mul_le_mul_right _ hRatePositive
      calc (out.toNat : K) * q ^ (hop :: rest).length * prod * spotRate s pool hop.zeroForOne
          = out.toNat * q ^ rest.length * (prod * spotRate s pool hop.zeroForOne) * q := by
            rw [List.length_cons, pow_succ]
            ring
        _ ≤ mid.toNat * p * q := mul_le_mul_of_nonneg_right hLater hq.le
        _ = mid.toNat * q * p := by ring
        _ ≤ amountIn.toNat * spotRate s pool hop.zeroForOne * p := mul_le_mul_of_nonneg_right hStep hpNonneg
        _ = amountIn.toNat * p * spotRate s pool hop.zeroForOne := by ring

/-- The test of `Evaluator::run` on a spot product. -/
def passesGate (spotGateBps prod : K) : Prop := 1 + spotGateBps / 10000 < prod

/-- Every hop reads its output reserve whole. -/
def OutputsExact (engine : Engine) (s : ChainState) (hops : List Hop) : Prop :=
  ∀ hop ∈ hops, ∀ pool r, engine.metaOf hop.pool = some pool → reserveWords s pool = some r →
    OutputExact s pool (inDirection hop.zeroForOne r).2

/-- The gate over a constant-product route: sound where the output reserves are read whole,
and off by at most one part in `2 ^ 51` a hop where they are not. -/
theorem gate_sound {ε : Type} (M : SwapMath ε) (keccak : Keccak) {route : Route}
    (hHops : ConstantProductHops engine s route.hops) (hFits : NoWrapAlong engine s route.hops amountIn)
    (hOut : quoteRoute M keccak engine s route amountIn = some (some out)) :
    ∃ prod : ℚ, spotProduct ℚ engine s route = some prod ∧
      (out.toNat : ℚ) * (1 - 1 / 2 ^ 51) ^ route.hops.length ≤ amountIn.toNat * prod ∧
      (OutputsExact engine s route.hops → (out.toNat : ℚ) ≤ amountIn.toNat * prod ∧
        (prod ≤ 1 → out.toNat ≤ amountIn.toNat) ∧ (amountIn.toNat < out.toNat → passesGate 0 prod)) := by
  obtain ⟨prod, hProd, hNonneg⟩ := spotHops_defined (K := ℚ) hHops zero_le_one
  have hBound : ∀ q : ℚ, 0 < q → ReadsWithin q engine s route.hops →
      (out.toNat : ℚ) * q ^ route.hops.length ≤ amountIn.toNat * prod := by
    intro q hq hRead
    have hLe := quoteHops_le_spotHops hHops hq hRead hFits hOut zero_le_one hProd
    rwa [mul_one] at hLe
  refine ⟨prod, hProd, hBound _ (by norm_num) fun hop _ pool r _ _ => le_readReserve s pool _, fun hExact => ?_⟩
  have hWhole : (out.toNat : ℚ) ≤ amountIn.toNat * prod := by
    have hLe := hBound 1 one_pos fun hop hMem pool r hPool hWords => by
      rw [mul_one, readReserve_of_exact (hExact hop hMem pool r hPool hWords)]
    rwa [one_pow, mul_one] at hLe
  have hLow : prod ≤ 1 → out.toNat ≤ amountIn.toNat := by
    intro hLow
    have hLe : (out.toNat : ℚ) ≤ amountIn.toNat := hWhole.trans (mul_le_of_le_one_right (Nat.cast_nonneg _) hLow)
    exact_mod_cast hLe
  refine ⟨hWhole, hLow, fun hGain => ?_⟩
  rw [passesGate, zero_div, add_zero]
  by_contra hBelow
  exact hGain.not_ge (hLow (not_lt.mp hBelow))

/-- Two volatile pairs without a fee. The first gives one part in `2 ^ 51` more than its
rate reads. -/
def deepPair (idx : Nat) (address : Address) : PoolMeta where
  idx := idx
  address := address
  dex := .aeroVolatile
  token0 := 2#160
  token1 := 3#160
  dec0 := 18#8
  dec1 := 18#8
  feeBps := 0#32
  feePips := 0#32
  tickSpacing := 0
  v4 := none

def deepEngine : Engine := ⟨[deepPair 0 1#160, deepPair 1 7#160], [(1#160, 0), (7#160, 1)]⟩

def deepState : ChainState where
  memo := fun key => some (if key = (1#160, 9#256) then 1#256 <<< 110 ||| (1#256 <<< 59 - 1#256) else 1#256 <<< 110)
  tickCache := fun _ => none
  plans := [some (.v2TwoSlot 1#160 8#256), some (.v2TwoSlot 7#160 8#256)]

def deepRoute : Route := ⟨0, 2#160, [⟨0, true, 2#160⟩, ⟨1, false, 3#160⟩]⟩

theorem deepRoute_hops : ConstantProductHops deepEngine deepState deepRoute.hops := by
  rintro hop (_ | ⟨_, _ | ⟨_, ⟨⟩⟩⟩)
  · exact ⟨deepPair 0 1#160, _, rfl, rfl, by decide⟩
  · exact ⟨deepPair 1 7#160, _, rfl, rfl, by decide⟩

theorem deepRoute_noWrap : NoWrapAlong deepEngine deepState deepRoute.hops (1#256 <<< 54) := by
  intro pool r hPool hWords
  cases hPool
  cases hWords
  constructor
  · intro _ _ _
    constructor <;> decide +kernel
  · intro mid hMid _ pool r hPool hWords
    cases hPool
    cases hWords
    have hSame : mid = 1#256 <<< 54 ||| 7#256 := by
      have hComputed : V2.getAmountOut (1#256 <<< 54) (1#256 <<< 110) (1#256 <<< 110 ||| (1#256 <<< 59 - 1#256)) 0#32 =
        some (1#256 <<< 54 ||| 7#256) := by decide +kernel
      exact Option.some.inj (hMid.symm.trans hComputed)
    subst hSame
    constructor
    · intro _ _ _
      constructor <;> decide +kernel
    · intro _ _ _
      exact trivial

/-- The rates multiply to one and the gate turns the route down, which gains six units. -/
theorem deepRoute_turned_down :
    ConstantProductHops deepEngine deepState deepRoute.hops ∧
    NoWrapAlong deepEngine deepState deepRoute.hops (1#256 <<< 54) ∧
    quoteRoute referenceMath referenceKeccak deepEngine deepState deepRoute (1#256 <<< 54) =
      some (some (1#256 <<< 54 ||| 6#256)) ∧
    spotProduct ℚ deepEngine deepState deepRoute = some 1 ∧
    ¬(((1#256 <<< 54 ||| 6#256).toNat : ℚ) ≤ (1#256 <<< 54).toNat * 1) ∧ ¬passesGate (0 : ℚ) 1 := by
  refine ⟨deepRoute_hops, deepRoute_noWrap, by decide +kernel, by decide +kernel, ?_, ?_⟩
  · have hGain : ¬((1#256 <<< 54 ||| 6#256).toNat ≤ (1#256 <<< 54).toNat) := by decide
    rw [mul_one]
    exact_mod_cast hGain
  · norm_num [passesGate]

theorem deepRoute_within : ∃ prod : ℚ, spotProduct ℚ deepEngine deepState deepRoute = some prod ∧
    ((1#256 <<< 54 ||| 6#256).toNat : ℚ) * (1 - 1 / 2 ^ 51) ^ 2 ≤ (1#256 <<< 54).toNat * prod := by
  have hOut : quoteRoute referenceMath referenceKeccak deepEngine deepState deepRoute (1#256 <<< 54) =
      some (some (1#256 <<< 54 ||| 6#256)) := by decide +kernel
  obtain ⟨prod, hProd, hBound, -⟩ := gate_sound referenceMath referenceKeccak deepRoute_hops deepRoute_noWrap hOut
  exact ⟨prod, hProd, hBound⟩

end Route

end Robinarb
