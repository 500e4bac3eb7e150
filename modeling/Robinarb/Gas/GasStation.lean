import Robinarb.Library.Binary64
import Robinarb.Library.Numerals
import Robinarb.Word

/-! # What a transaction costs

The cached prices of a unit of gas and of a byte of calldata, and the cost that the
evaluator holds against a profit. Floats are rounded as doubles over an ordered field.
-/

namespace Robinarb

open scoped Numerals
open Binary64

structure GasConfig (K : Type) where
  prioFraction : K
  minPrioGwei : K
  maxPrioGwei : K
  l1FeeMargin : K

inductive HopGasKind where
  | v2
  | v3
  | aeroStable
  | v4
  deriving DecidableEq

def HopGasKind.units : HopGasKind → U64
  | .v2 => 90000#64
  | .v3 => 150000#64
  | .aeroStable => 120000#64
  | .v4 => 250000#64

def routeGasUnits (hopKinds : List HopGasKind) (flashloan : Bool) : U64 :=
  let g := hopKinds.foldl (fun g kind => g + kind.units) 90000#64
  if flashloan then g + 90000#64 else g

structure GasStation where
  baseFee : U64
  perL1CalldataUnit : U64
  l1BaseFeeEstimate : U64

/-- What the node answers to one turn of the poll, `none` where a call fails. -/
structure GasAnswers where
  baseFeePerGas : Option U64
  l1BaseFeeEstimate : Option U256
  perL1CalldataUnit : Option U256

section Casts

variable {K : Type} [Field K] [LinearOrder K] [FloorSemiring K]

/-- `x as u128`, which truncates and saturates. -/
def asU128 (x : K) : U128 := BitVec.ofNat 128 (min ⌊x⌋₊ (2 ^ 128 - 1))

theorem asU128_toNat (x : K) : (asU128 x).toNat = min ⌊x⌋₊ (2 ^ 128 - 1) := by
  rw [asU128, BitVec.toNat_ofNat, Nat.mod_eq_of_lt]
  omega

/-- Short of its end the cast loses less than one. -/
theorem lt_asU128_add_one {x : K} (h : (asU128 x).toNat < 2 ^ 128 - 1) : x < (asU128 x).toNat + 1 := by
  have hFloor : (asU128 x).toNat = ⌊x⌋₊ := by
    rw [asU128_toNat] at h ⊢
    omega
  rw [hFloor]
  exact Nat.lt_floor_add_one x

end Casts

namespace GasStation

def onNewHead (g : GasStation) (baseFeePerGas : U128) : GasStation :=
  if 0#128 < baseFeePerGas then { g with baseFee := baseFeePerGas.setWidth 64 } else g

/-- A counter the poll writes: `.to::<u64>()` panics on what does not fit. -/
def polled (current : U64) : Option U256 → Option U64
  | none => some current
  | some v => if v.toNat < 2 ^ 64 then some (v.setWidth 64) else none

/-- One turn of the loop of `spawn`. A panic ends the loop. -/
def poll (g : GasStation) (tick : Nat) (answers : GasAnswers) : Option GasStation := do
  let g := match answers.baseFeePerGas with
    | some fee => g.onNewHead (fee.setWidth 128)
    | none => g
  if tick % 15 = 0 then
    let estimate ← polled g.l1BaseFeeEstimate answers.l1BaseFeeEstimate
    let unit ← polled g.perL1CalldataUnit answers.perL1CalldataUnit
    return { g with l1BaseFeeEstimate := estimate, perL1CalldataUnit := unit }
  else return g

section Fees

variable {K : Type} [Field K] [LinearOrder K] [FloorSemiring K] (cfg : GasConfig K) (g : GasStation)

def minPriorityFee : U128 := asU128 (rounded (cfg.minPrioGwei * 10 ^ 9))

def maxPriorityFee : U128 := asU128 (rounded (cfg.maxPrioGwei * 10 ^ 9))

/-- `Ord::clamp` panics when its bounds are out of order. -/
def priorityFee (netProfitWei : U128) (gasUnits : U64) : Option U128 :=
  let share := rounded (rounded (netProfitWei.toNat : K) * cfg.prioFraction)
  let budget := asU128 (rounded (share / rounded ((max gasUnits.toNat 1 : Nat) : K)))
  let low := minPriorityFee cfg
  let high := maxPriorityFee cfg
  if low ≤ high then some (if budget < low then low else if high < budget then high else budget) else none

def estimateL1Fee (calldataLen : Nat) : U128 :=
  let perUnit : U128 := g.perL1CalldataUnit.setWidth 128
  if perUnit = 0#128 then 0#128
  else
    let units : U128 := BitVec.ofNat 128 calldataLen * 16#128
    asU128 (rounded (rounded ((units * perUnit).toNat : K) * cfg.l1FeeMargin))

def totalGasCost (gasUnits : U64) (priorityFee : U128) (calldataLen : Nat) : U128 :=
  let l2FeePerGas := g.baseFee.setWidth 128 * 9#128 / 8#128 + priorityFee
  let l2 := l2FeePerGas * gasUnits.setWidth 128
  l2 + estimateL1Fee cfg g calldataLen

end Fees

section Bounds

variable {K : Type} [Field K] [LinearOrder K] [FloorSemiring K] {cfg : GasConfig K}
  {g : GasStation} {gasUnits : U64} {prio : U128} {calldataLen : Nat}

/-- What a configuration is to keep to for its costs to be the sums they stand for. -/
structure Moderate (cfg : GasConfig K) : Prop where
  tipCap : (maxPriorityFee cfg).toNat < 2 ^ 64
  margin : 1 ≤ cfg.l1FeeMargin
  marginCap : cfg.l1FeeMargin ≤ (2 ^ 16 : Nat)

theorem priorityFee_spec (hTips : minPriorityFee cfg ≤ maxPriorityFee cfg) (netProfitWei : U128) (gasUnits : U64) :
    ∃ prio, priorityFee cfg netProfitWei gasUnits = some prio ∧ minPriorityFee cfg ≤ prio ∧
      prio ≤ maxPriorityFee cfg := by
  unfold priorityFee
  dsimp only
  rw [if_pos hTips]
  refine ⟨_, rfl, ?_⟩
  split
  · exact ⟨BitVec.le_refl _, hTips⟩
  next hLow =>
    split
    · exact ⟨hTips, BitVec.le_refl _⟩
    next hHigh => exact ⟨BitVec.not_lt.mp hLow, BitVec.not_lt.mp hHigh⟩

variable [IsStrictOrderedRing K]

def l1Fee (g : GasStation) (calldataLen : Nat) : Nat := calldataLen * 16 * g.perL1CalldataUnit.toNat

theorem l1Fee_le (hLength : calldataLen < 2 ^ 32) : l1Fee g calldataLen ≤ 2 ^ 100 := by
  have hUnit : g.perL1CalldataUnit.toNat < 2 ^ 64 := g.perL1CalldataUnit.isLt
  unfold l1Fee
  calc calldataLen * 16 * g.perL1CalldataUnit.toNat ≤ (2 ^ 32 * 16) * 2 ^ 64 := Nat.mul_le_mul (by omega) hUnit.le
    _ = 2 ^ 100 := by norm_num

theorem estimateL1Fee_eq (hLength : calldataLen < 2 ^ 32) :
    estimateL1Fee cfg g calldataLen = asU128 (rounded (rounded (l1Fee g calldataLen : K) * cfg.l1FeeMargin)) := by
  have hZero : rounded (0 : K) = 0 := by
    have hNone := rounded_natCast_of_le (K := K) (Nat.zero_le _)
    rwa [Nat.cast_zero] at hNone
  unfold estimateL1Fee
  dsimp only
  split
  next hUnit =>
    have hNone : g.perL1CalldataUnit.toNat = 0 := by
      have hWide := congrArg BitVec.toNat hUnit
      rwa [BitVec.toNat_setWidth_of_le (by decide)] at hWide
    rw [l1Fee, hNone, Nat.mul_zero, Nat.cast_zero, hZero, zero_mul, hZero, asU128, Nat.floor_zero]
    rfl
  · have hWord : (BitVec.ofNat 128 calldataLen * 16#128 * g.perL1CalldataUnit.setWidth 128 : U128).toNat =
        l1Fee g calldataLen := by
      rw [BitVec.toNat_mul, BitVec.toNat_mul, BitVec.toNat_ofNat, BitVec.toNat_ofNat,
        BitVec.toNat_setWidth_of_le (by decide), Nat.mod_eq_of_lt (show calldataLen < 2 ^ 128 by omega),
        Nat.mod_eq_of_lt (show 16 < 2 ^ 128 by norm_num), Nat.mod_eq_of_lt (show calldataLen * 16 < 2 ^ 128 by omega),
        Nat.mod_eq_of_lt]
      · rfl
      · exact (l1Fee_le (g := g) hLength).trans_lt (by norm_num)
    rw [hWord]

/-- The estimate of the calldata fee is below the fee by one part in `2^53` at most. -/
theorem estimateL1Fee_bounds (hLength : calldataLen < 2 ^ 32) (hModerate : Moderate cfg) :
    (l1Fee g calldataLen : K) * kept K 1 ≤ (estimateL1Fee cfg g calldataLen).toNat ∧
      (estimateL1Fee cfg g calldataLen).toNat ≤ 2 ^ 116 := by
  obtain ⟨whole, hWhole⟩ := rounded_natCast (K := K) (l1Fee g calldataLen)
  have hFee : rounded (l1Fee g calldataLen : K) ≤ 2 ^ 100 := by
    rw [← rounded_two_pow]
    apply rounded_mono
    exact_mod_cast l1Fee_le (g := g) hLength
  have hFloor : ⌊rounded (rounded (l1Fee g calldataLen : K) * cfg.l1FeeMargin)⌋₊ ≤ 2 ^ 116 := by
    have hWide : rounded (rounded (l1Fee g calldataLen : K) * cfg.l1FeeMargin) ≤ 2 ^ 116 := by
      rw [← rounded_two_pow]
      apply rounded_mono
      calc rounded (l1Fee g calldataLen : K) * cfg.l1FeeMargin ≤ 2 ^ 100 * (2 ^ 16 : Nat) :=
            mul_le_mul hFee hModerate.marginCap (zero_le_one.trans hModerate.margin) (by positivity)
        _ = 2 ^ 116 := by norm_num
    rw [← Nat.floor_natCast (R := K) (2 ^ 116)]
    apply Nat.floor_le_floor
    rw [Nat.cast_pow]
    exact hWide
  have hAbove : whole ≤ ⌊rounded (rounded (l1Fee g calldataLen : K) * cfg.l1FeeMargin)⌋₊ := by
    apply Nat.le_floor
    have hMargin := rounded_mono (le_mul_of_one_le_right (rounded_nonneg (x := (l1Fee g calldataLen : K)) (Nat.cast_nonneg _))
      hModerate.margin)
    rw [rounded_rounded] at hMargin
    exact hWhole.symm.trans_le hMargin
  have hLost : (l1Fee g calldataLen : K) * kept K 1 ≤ whole := by
    rcases Nat.eq_zero_or_pos (l1Fee g calldataLen) with hNone | hSome
    · rw [hNone, Nat.cast_zero, zero_mul]
      exact Nat.cast_nonneg _
    · have hNormal : Normal (l1Fee g calldataLen : K) :=
        normal_of_le (Nat.zero_le _) (by rw [pow_zero, mul_one]; exact_mod_cast hSome)
      rw [← hWhole]
      exact ((Near.refl _).rounded hNormal).ge (Nat.cast_nonneg _)
  rw [estimateL1Fee_eq hLength, asU128_toNat, Nat.min_eq_left (by omega)]
  exact ⟨hLost.trans (Nat.cast_le.mpr hAbove), hFloor⟩

theorem totalGasCost_toNat (hModerate : Moderate cfg) (hPrio : prio ≤ maxPriorityFee cfg) (hUnits : gasUnits.toNat < 2 ^ 48)
    (hLength : calldataLen < 2 ^ 32) : (totalGasCost cfg g gasUnits prio calldataLen).toNat =
      (g.baseFee.toNat * 9 / 8 + prio.toNat) * gasUnits.toNat + (estimateL1Fee cfg g calldataLen).toNat := by
  obtain ⟨-, hL1Cap⟩ := estimateL1Fee_bounds (g := g) hLength hModerate
  have hBase : g.baseFee.toNat < 2 ^ 64 := g.baseFee.isLt
  have hTip : prio.toNat < 2 ^ 64 := (BitVec.le_def.mp hPrio).trans_lt hModerate.tipCap
  have hPerGas : (g.baseFee.setWidth 128 * 9#128 / 8#128 + prio : U128).toNat = g.baseFee.toNat * 9 / 8 + prio.toNat := by
    have hScaled : (g.baseFee.setWidth 128 * 9#128 : U128).toNat = g.baseFee.toNat * 9 := by
      rw [BitVec.toNat_mul, BitVec.toNat_setWidth_of_le (by decide), BitVec.toNat_ofNat]
      omega
    rw [BitVec.toNat_add, BitVec.toNat_udiv, hScaled, show (8#128).toNat = 8 from rfl]
    omega
  have hL2 : (g.baseFee.toNat * 9 / 8 + prio.toNat) * gasUnits.toNat ≤ 2 ^ 66 * 2 ^ 48 :=
    Nat.mul_le_mul (by omega) hUnits.le
  have hL2Cap : (2 : Nat) ^ 66 * 2 ^ 48 = 2 ^ 114 := by norm_num
  unfold totalGasCost
  dsimp only
  rw [BitVec.toNat_add, BitVec.toNat_mul, hPerGas, BitVec.toNat_setWidth_of_le (by decide)]
  rw [Nat.mod_eq_of_lt (show (g.baseFee.toNat * 9 / 8 + prio.toNat) * gasUnits.toNat < 2 ^ 128 by omega), Nat.mod_eq_of_lt]
  omega

theorem foldl_units_le {kinds : List HopGasKind} {start : U64} (h : start.toNat + kinds.length * 250000 < 2 ^ 64) :
    (kinds.foldl (fun g kind => g + kind.units) start).toNat ≤ start.toNat + kinds.length * 250000 := by
  induction kinds generalizing start with
  | nil => exact Nat.le_add_right _ _
  | cons kind rest ih =>
    rw [List.length_cons] at h
    have hUnits : kind.units.toNat ≤ 250000 := by cases kind <;> decide
    have hStart : (start + kind.units).toNat = start.toNat + kind.units.toNat := BitVec.toNat_add_of_lt (by omega)
    have hRest := @ih (start + kind.units) (by rw [hStart]; omega)
    rw [hStart] at hRest
    rw [List.foldl_cons, List.length_cons]
    omega

theorem routeGasUnits_lt {kinds : List HopGasKind} (h : kinds.length ≤ 65536) :
    (routeGasUnits kinds true).toNat < 2 ^ 48 := by
  have hFold : (kinds.foldl (fun g kind => g + kind.units) 90000#64).toNat ≤ 90000 + kinds.length * 250000 := by
    apply foldl_units_le
    change 90000 + kinds.length * 250000 < 2 ^ 64
    omega
  have hUnits : (routeGasUnits kinds true).toNat =
      (kinds.foldl (fun g kind => g + kind.units) 90000#64).toNat + 90000 := by
    apply BitVec.toNat_add_of_lt
    change (kinds.foldl (fun g kind => g + kind.units) 90000#64).toNat + 90000 < 2 ^ 64
    omega
  omega

/-- The transaction costs no more than the estimate, but for a rounding, while it keeps to its
gas, the base fee has grown by an eighth at most, and the calldata fee is the one before the
margin. -/
theorem cost_le_totalGasCost (hModerate : Moderate cfg) (hPrio : prio ≤ maxPriorityFee cfg)
    (hUnits : gasUnits.toNat < 2 ^ 48) (hLength : calldataLen < 2 ^ 32) {gasUsed baseFee : Nat}
    (hUsed : gasUsed ≤ gasUnits.toNat) (hFee : baseFee * 8 ≤ g.baseFee.toNat * 9) :
    ((gasUsed * (baseFee + prio.toNat) + l1Fee g calldataLen : Nat) : K) * kept K 1 ≤
      (totalGasCost cfg g gasUnits prio calldataLen).toNat := by
  obtain ⟨hL1, -⟩ := estimateL1Fee_bounds (g := g) hLength hModerate
  have hPerGas : baseFee ≤ g.baseFee.toNat * 9 / 8 := by omega
  have hL2 : gasUsed * (baseFee + prio.toNat) ≤ (g.baseFee.toNat * 9 / 8 + prio.toNat) * gasUnits.toNat := by
    rw [Nat.mul_comm]
    exact Nat.mul_le_mul (by omega) hUsed
  have hUnit : kept K 1 ≤ 1 := sub_le_self _ (by positivity)
  rw [totalGasCost_toNat hModerate hPrio hUnits hLength]
  calc ((gasUsed * (baseFee + prio.toNat) + l1Fee g calldataLen : Nat) : K) * kept K 1 =
        ((gasUsed * (baseFee + prio.toNat) : Nat) : K) * kept K 1 + l1Fee g calldataLen * kept K 1 := by
        rw [Nat.cast_add, add_mul]
    _ ≤ ((g.baseFee.toNat * 9 / 8 + prio.toNat) * gasUnits.toNat : Nat) + ((estimateL1Fee cfg g calldataLen).toNat : K) :=
        add_le_add ((mul_le_of_le_one_right (Nat.cast_nonneg _) hUnit).trans (Nat.cast_le.mpr hL2)) hL1
    _ = _ := (Nat.cast_add _ _).symm

end Bounds

end GasStation

end Robinarb
