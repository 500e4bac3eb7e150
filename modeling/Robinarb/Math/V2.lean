import Robinarb.Library.ConstantProduct
import Robinarb.Word

/-! # Constant-product quotes

`v2::get_amount_out` on machine words: sums and products wrap, and a zero
divisor panics.
-/

namespace Robinarb

/-- Division of words; `none` is the panic on a zero divisor. -/
def divWord (a b : U256) : Option U256 := if b = 0#256 then none else some (a / b)

namespace V2

def getAmountOut (amountIn reserveIn reserveOut : U256) (feeBps : U32) : Option U256 :=
  if amountIn = 0#256 ∨ reserveIn = 0#256 ∨ reserveOut = 0#256 then
    some 0#256
  else
    let feeFactor := (10000#32 - feeBps).setWidth 256
    let amountInWithFee := amountIn * feeFactor
    let numerator := amountInWithFee * reserveOut
    let denominator := reserveIn * 10000#256 + amountInWithFee
    divWord numerator denominator

example : getAmountOut 10#256 1000#256 2000#256 30#32 = some 19#256 := by decide

/-- The words of the formula stay below `2 ^ 256`. -/
structure Fits (reserveIn reserveOut feeBps amountIn : Nat) : Prop where
  withFee : amountIn * (10000 - feeBps) < 2 ^ 256
  numerator : amountIn * (10000 - feeBps) * reserveOut < 2 ^ 256
  scaled : reserveIn * 10000 < 2 ^ 256
  denominator : reserveIn * 10000 + amountIn * (10000 - feeBps) < 2 ^ 256

theorem feeFactor_toNat {feeBps : U32} (hFee : feeBps.toNat ≤ 10000) :
    ((10000#32 - feeBps).setWidth 256 : U256).toNat = 10000 - feeBps.toNat := by
  have hWide : (10000#32 - feeBps).toNat = 10000 - feeBps.toNat := BitVec.toNat_sub_of_le (BitVec.le_def.mpr hFee)
  rw [BitVec.toNat_setWidth, hWide]
  exact Nat.mod_eq_of_lt (by omega)

theorem getAmountOut_toNat {amountIn reserveIn reserveOut : U256} {feeBps : U32} (hFee : feeBps.toNat ≤ 10000)
    (hIn : reserveIn ≠ 0#256) (hFits : Fits reserveIn.toNat reserveOut.toNat feeBps.toNat amountIn.toNat) :
    ∃ out, getAmountOut amountIn reserveIn reserveOut feeBps = some out ∧ out.toNat =
      ConstantProduct.out (reserveIn.toNat * 10000) reserveOut.toNat (amountIn.toNat * (10000 - feeBps.toNat)) := by
  have hPositive : 0 < reserveIn.toNat := Nat.pos_of_ne_zero fun hZero => hIn (BitVec.eq_of_toNat_eq hZero)
  by_cases hNone : amountIn = 0#256 ∨ reserveIn = 0#256 ∨ reserveOut = 0#256
  · refine ⟨0#256, if_pos hNone, ?_⟩
    rcases hNone with rfl | hNone | rfl
    · simp [ConstantProduct.out]
    · exact absurd hNone hIn
    · simp [ConstantProduct.out]
  · have hWithFee : (amountIn * (10000#32 - feeBps).setWidth 256 : U256).toNat =
        amountIn.toNat * (10000 - feeBps.toNat) := by
      rw [BitVec.toNat_mul, feeFactor_toNat hFee, Nat.mod_eq_of_lt hFits.withFee]
    have hScaled : (reserveIn * 10000#256 : U256).toNat = reserveIn.toNat * 10000 := by
      rw [BitVec.toNat_mul, show (10000#256).toNat = 10000 from rfl, Nat.mod_eq_of_lt hFits.scaled]
    have hDenominator : (reserveIn * 10000#256 + amountIn * (10000#32 - feeBps).setWidth 256 : U256).toNat =
        reserveIn.toNat * 10000 + amountIn.toNat * (10000 - feeBps.toNat) := by
      rw [BitVec.toNat_add, hScaled, hWithFee, Nat.mod_eq_of_lt hFits.denominator]
    have hDivisor : (reserveIn * 10000#256 + amountIn * (10000#32 - feeBps).setWidth 256 : U256) ≠ 0#256 := by
      intro hZero
      rw [hZero, BitVec.toNat_zero] at hDenominator
      omega
    refine ⟨amountIn * (10000#32 - feeBps).setWidth 256 * reserveOut /
      (reserveIn * 10000#256 + amountIn * (10000#32 - feeBps).setWidth 256), ?_, ?_⟩
    · unfold getAmountOut
      rw [if_neg hNone]
      exact if_neg hDivisor
    · rw [BitVec.toNat_udiv, hDenominator, BitVec.toNat_mul, hWithFee, Nat.mod_eq_of_lt hFits.numerator]
      rfl

end V2

end Robinarb
