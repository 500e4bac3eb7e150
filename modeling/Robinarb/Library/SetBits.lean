import Mathlib.Data.List.Nodup
import Mathlib.Data.Nat.Bitwise
import Mathlib.Tactic.Common

/-! # The set bits of a word

A word and the one before it have the same bits but for the lowest set one and those below,
so that each `x &&& (x - 1)` clears one bit.
-/

namespace SetBits

variable {w : Nat}

def setBits (x : BitVec w) : List Nat := (List.range w).filter fun i => x.getLsbD i

theorem mem_setBits {x : BitVec w} {i : Nat} : i ∈ setBits x ↔ x.getLsbD i = true := by
  rw [setBits, List.mem_filter, List.mem_range]
  exact ⟨fun h => h.2, fun h => ⟨BitVec.lt_of_getLsbD h, h⟩⟩

theorem setBits_nodup (x : BitVec w) : (setBits x).Nodup := List.nodup_range.filter _

theorem setBits_sorted (x : BitVec w) : (setBits x).Pairwise (· < ·) := List.pairwise_lt_range.filter _

theorem length_setBits_le (x : BitVec w) : (setBits x).length ≤ w :=
  (List.length_filter_le _ _).trans_eq List.length_range

theorem setBits_zero : setBits (0#w) = [] := by
  rw [setBits, List.filter_eq_nil_iff]
  intro i _
  rw [BitVec.getLsbD_zero]
  exact Bool.false_ne_true

theorem testBit_and_pred {n : Nat} (h : 0 < n) :
    ∃ i, n.testBit i = true ∧ ∀ j, (n &&& (n - 1)).testBit j = (n.testBit j && decide (j ≠ i)) := by
  induction n using Nat.strong_induction_on with
  | _ n ih =>
    obtain hEven | hOdd := Nat.mod_two_eq_zero_or_one n
    · obtain ⟨i, hSet, hRest⟩ := ih (n / 2) (by omega) (by omega)
      refine ⟨i + 1, by rwa [Nat.testBit_succ], fun j => ?_⟩
      cases j with
      | zero => simp [Nat.testBit_zero, hEven]
      | succ j =>
        have hHalf : (n - 1) / 2 = n / 2 - 1 := by omega
        have hBit := hRest j
        rw [Nat.testBit_and] at hBit ⊢
        rw [Nat.testBit_succ, Nat.testBit_succ, hHalf, hBit]
        simp only [ne_eq, Nat.add_right_cancel_iff]
    · refine ⟨0, by simp [Nat.testBit_zero, hOdd], fun j => ?_⟩
      cases j with
      | zero =>
        have hLow : (n - 1) % 2 = 0 := by omega
        simp [Nat.testBit_zero, hLow]
      | succ j =>
        have hHalf : (n - 1) / 2 = n / 2 := by omega
        rw [Nat.testBit_and, Nat.testBit_succ, Nat.testBit_succ, hHalf, Bool.and_self]
        simp

theorem getLsbD_and_pred {x : BitVec w} (h : x ≠ 0#w) :
    ∃ i, x.getLsbD i = true ∧ ∀ j, (x &&& (x - 1#w)).getLsbD j = (x.getLsbD j && decide (j ≠ i)) := by
  have hPos : 0 < x.toNat := Nat.pos_of_ne_zero fun hZero => h (BitVec.eq_of_toNat_eq hZero)
  have hPred : (x - 1#w).toNat = x.toNat - 1 := by
    have hLt := x.isLt
    have hOne : (1#w).toNat = 1 := by
      rw [BitVec.toNat_ofNat, Nat.mod_eq_of_lt (by omega)]
    rw [BitVec.toNat_sub, hOne, show 2 ^ w - 1 + x.toNat = x.toNat - 1 + 2 ^ w by omega, Nat.add_mod_right,
      Nat.mod_eq_of_lt (by omega)]
  obtain ⟨i, hSet, hRest⟩ := testBit_and_pred hPos
  refine ⟨i, by rwa [← BitVec.testBit_toNat], fun j => ?_⟩
  rw [← BitVec.testBit_toNat, ← BitVec.testBit_toNat, BitVec.toNat_and, hPred]
  exact hRest j

/-- One bit goes. -/
theorem length_setBits_and_pred {x : BitVec w} (h : x ≠ 0#w) :
    (setBits (x &&& (x - 1#w))).length + 1 = (setBits x).length := by
  obtain ⟨i, hSet, hRest⟩ := getLsbD_and_pred h
  have hErase : setBits (x &&& (x - 1#w)) = (setBits x).erase i := by
    rw [(setBits_nodup x).erase_eq_filter, setBits, setBits, List.filter_filter]
    apply List.filter_congr
    intro j _
    rw [hRest j, Bool.and_comm]
    simp only [ne_eq, decide_not]
    rfl
  rw [hErase, List.length_erase_of_mem (mem_setBits.mpr hSet)]
  have hSome : 0 < (setBits x).length := List.length_pos_of_mem (mem_setBits.mpr hSet)
  omega

end SetBits
