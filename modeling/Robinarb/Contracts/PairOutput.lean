import Robinarb.Contracts.Market
import Robinarb.Library.ConstantProduct

/-! # The output of a pair

`_swapV2` computes with checked words. Its products and sums stay far below `2 ^ 256`, so
that the output is the floor division it says it is.
-/

namespace Robinarb.ArbExecutor

open Fallible

section Words

variable {feeBps : U16} {amountIn n : U256}

theorem rate_toNat (hFee : feeBps.toNat ≤ 10000) :
    ((10000#16 - feeBps).setWidth 256 : U256).toNat = 10000 - feeBps.toNat := by
  have hRate : (10000#16 - feeBps).toNat = 10000 - feeBps.toNat :=
    BitVec.toNat_sub_of_le (BitVec.le_def.mpr hFee)
  rw [BitVec.toNat_setWidth, hRate]
  exact Nat.mod_eq_of_lt (by omega)

theorem withFee_lt (feeBps : U16) (hAmount : amountIn.toNat < 2 ^ 128) :
    amountIn.toNat * (10000 - feeBps.toNat) < 2 ^ 142 := by
  calc amountIn.toNat * (10000 - feeBps.toNat)
      ≤ amountIn.toNat * 2 ^ 14 := Nat.mul_le_mul_left _ (by omega)
    _ < 2 ^ 128 * 2 ^ 14 := Nat.mul_lt_mul_of_pos_right hAmount (by decide)
    _ = 2 ^ 142 := by decide

theorem withFee_toNat (hFee : feeBps.toNat ≤ 10000) (hAmount : amountIn.toNat < 2 ^ 128) :
    amountIn.toNat * ((10000#16 - feeBps).setWidth 256 : U256).toNat < 2 ^ 256 ∧
      (amountIn * (10000#16 - feeBps).setWidth 256 : U256).toNat = amountIn.toNat * (10000 - feeBps.toNat) := by
  have hBound := withFee_lt feeBps hAmount
  have hFits : amountIn.toNat * ((10000#16 - feeBps).setWidth 256 : U256).toNat < 2 ^ 256 := by
    rw [rate_toNat hFee]
    omega
  refine ⟨hFits, ?_⟩
  rw [BitVec.toNat_mul, Nat.mod_eq_of_lt hFits, rate_toNat hFee]

theorem reserve_toNat (r : BitVec 112) : (r.setWidth 256 : U256).toNat = r.toNat := by
  rw [BitVec.toNat_setWidth]
  have hr := r.isLt
  exact Nat.mod_eq_of_lt (by omega)

theorem numerator_fits (hn : n.toNat < 2 ^ 142) (r : BitVec 112) :
    n.toNat * (r.setWidth 256 : U256).toNat < 2 ^ 256 := by
  rw [reserve_toNat]
  calc n.toNat * r.toNat ≤ n.toNat * 2 ^ 112 := Nat.mul_le_mul_left _ r.isLt.le
    _ < 2 ^ 142 * 2 ^ 112 := Nat.mul_lt_mul_of_pos_right hn (by decide)
    _ < 2 ^ 256 := by decide

theorem scaled_toNat (r : BitVec 112) :
    (r.setWidth 256 : U256).toNat * (10000#256).toNat < 2 ^ 256 ∧
      (r.setWidth 256 * 10000#256 : U256).toNat = r.toNat * 10000 := by
  have hr := r.isLt
  have hTenThousand : (10000#256).toNat = 10000 := rfl
  have hFits : (r.setWidth 256 : U256).toNat * (10000#256).toNat < 2 ^ 256 := by
    rw [reserve_toNat, hTenThousand]
    omega
  refine ⟨hFits, ?_⟩
  rw [BitVec.toNat_mul, Nat.mod_eq_of_lt hFits, reserve_toNat, hTenThousand]

theorem denominator_toNat (hn : n.toNat < 2 ^ 142) (r : BitVec 112) :
    (r.setWidth 256 * 10000#256 : U256).toNat + n.toNat < 2 ^ 256 ∧
      (r.setWidth 256 * 10000#256 + n : U256).toNat = r.toNat * 10000 + n.toNat := by
  obtain ⟨-, hScaled⟩ := scaled_toNat r
  have hr := r.isLt
  have hSum : (r.setWidth 256 * 10000#256 : U256).toNat + n.toNat < 2 ^ 256 := by
    rw [hScaled]
    omega
  refine ⟨hSum, ?_⟩
  rw [BitVec.toNat_add, Nat.mod_eq_of_lt hSum, hScaled]

theorem quotient_eq (hn : n.toNat < 2 ^ 142) (r : BitVec 112 × BitVec 112) :
    (n * r.2.setWidth 256 / (r.1.setWidth 256 * 10000#256 + n) : U256) =
      BitVec.ofNat 256 (n.toNat * r.2.toNat / (r.1.toNat * 10000 + n.toNat)) := by
  have hProduct := numerator_fits hn r.2
  obtain ⟨-, hDenominator⟩ := denominator_toNat hn r.1
  apply BitVec.eq_of_toNat_eq
  rw [BitVec.toNat_udiv, BitVec.toNat_mul, Nat.mod_eq_of_lt hProduct, hDenominator, BitVec.toNat_ofNat]
  rw [reserve_toNat] at hProduct ⊢
  exact (Nat.mod_eq_of_lt (Nat.lt_of_le_of_lt (Nat.div_le_self _ _) hProduct)).symm

end Words

section Output

variable {r : BitVec 112 × BitVec 112} {feeBps : U16} {amountIn : U256}

theorem v2Out_toNat (r : BitVec 112 × BitVec 112) (feeBps : U16) (amountIn : U256) :
    (v2Out r feeBps amountIn).toNat =
      ConstantProduct.out (r.1.toNat * 10000) r.2.toNat (amountIn.toNat * (10000 - feeBps.toNat)) := by
  have hReserve : ConstantProduct.out (r.1.toNat * 10000) r.2.toNat (amountIn.toNat * (10000 - feeBps.toNat)) <
      2 ^ 112 := Nat.lt_of_le_of_lt (ConstantProduct.out_le _ _ _) r.2.isLt
  have hWide : (2 : Nat) ^ 112 < 2 ^ 256 := by decide
  exact (BitVec.toNat_ofNat _ _).trans (Nat.mod_eq_of_lt (Nat.lt_trans hReserve hWide))

theorem v2_computes {α E : Type} (hFee : feeBps.toNat ≤ 10000) (hAmount : amountIn.toNat < 2 ^ 128)
    (hDivisor : 0 < r.1.toNat * 10000 + amountIn.toNat * (10000 - feeBps.toNat)) (rest : U256 → Exec E α) :
    (do
      require (feeBps.toNat ≤ 10000) .panic
      let amountInWithFee ← checkedMul amountIn ((10000#16 - feeBps).setWidth 256)
      let numerator ← checkedMul amountInWithFee (r.2.setWidth 256)
      let denominator ← checkedAdd (← checkedMul (r.1.setWidth 256) 10000#256) amountInWithFee
      let amountOut ← checkedDiv numerator denominator
      rest amountOut : Exec E α) = rest (v2Out r feeBps amountIn) := by
  obtain ⟨hFits, hWithFee⟩ := withFee_toNat hFee hAmount
  have hBound : (amountIn * (10000#16 - feeBps).setWidth 256 : U256).toNat < 2 ^ 142 :=
    hWithFee ▸ withFee_lt feeBps hAmount
  have hOutput : v2Out r feeBps amountIn = amountIn * (10000#16 - feeBps).setWidth 256 * r.2.setWidth 256 /
      (r.1.setWidth 256 * 10000#256 + amountIn * (10000#16 - feeBps).setWidth 256) := by
    rw [quotient_eq hBound, hWithFee]
    rfl
  obtain ⟨hSum, hDenominator⟩ := denominator_toNat hBound r.1
  have hNonzero : (r.1.setWidth 256 * 10000#256 + amountIn * (10000#16 - feeBps).setWidth 256 : U256) ≠ 0#256 := by
    intro hZero
    rw [hZero, BitVec.toNat_zero, hWithFee] at hDenominator
    omega
  funext st
  rw [(require_reads (decide_eq_true hFee)).bind, (checkedMul_reads hFits).bind,
    (checkedMul_reads (numerator_fits hBound r.2)).bind, (checkedMul_reads (scaled_toNat r.1).1).bind,
    (checkedAdd_reads hSum).bind, (checkedDiv_reads hNonzero).bind, hOutput]

theorem computable_of_output (hOut : 0 < (v2Out r feeBps amountIn).toNat) :
    feeBps.toNat ≤ 10000 ∧ 0 < r.1.toNat * 10000 + amountIn.toNat * (10000 - feeBps.toNat) := by
  rw [v2Out_toNat, ConstantProduct.out] at hOut
  constructor
  · by_contra hFee
    have hNothing : 10000 - feeBps.toNat = 0 := Nat.sub_eq_zero_of_le (Nat.not_le.mp hFee).le
    rw [hNothing, Nat.mul_zero, Nat.zero_mul, Nat.zero_div] at hOut
    exact Nat.lt_irrefl 0 hOut
  · by_contra hNone
    rw [Nat.eq_zero_of_not_pos hNone, Nat.div_zero] at hOut
    exact Nat.lt_irrefl 0 hOut

end Output

end Robinarb.ArbExecutor
