import Mathlib.Data.Nat.Log
import Mathlib.Tactic.Ring

/-! # The top bits of a number

Keeping the leading `n` bits of a number and clearing the others, as a conversion to a
shorter mantissa does when it rounds towards zero.
-/

namespace TopBits

def length (w : Nat) : Nat := if w = 0 then 0 else w.log2 + 1

def keep (n w : Nat) : Nat := w >>> (length w - n) * 2 ^ (length w - n)

variable {n w : Nat}

theorem pow_le_of_lt_length (h : n < length w) : 2 ^ n ≤ w := by
  unfold length at h
  split at h
  · exact absurd h (Nat.not_lt_zero n)
  · rename_i hw
    have hTop : 2 ^ w.log2 ≤ w := Nat.log2_self_le hw
    exact (Nat.pow_le_pow_right (by decide) (Nat.lt_succ_iff.mp h)).trans hTop

theorem keep_add_mod (n w : Nat) : keep n w + w % 2 ^ (length w - n) = w := by
  rw [keep, Nat.shiftRight_eq_div_pow]
  exact Nat.div_add_mod' w _

theorem keep_le (n w : Nat) : keep n w ≤ w :=
  Nat.le.intro (keep_add_mod n w)

theorem keep_eq_iff (n w : Nat) : keep n w = w ↔ 2 ^ (length w - n) ∣ w := by
  have hParts := keep_add_mod n w
  rw [Nat.dvd_iff_mod_eq_zero]
  constructor <;> intro h <;> omega

theorem keep_of_length_le (h : length w ≤ n) : keep n w = w := by
  rw [keep_eq_iff, Nat.sub_eq_zero_of_le h, pow_zero]
  exact one_dvd w

theorem lost_le (hn : 0 < n) : (w - keep n w) * 2 ^ (n - 1) ≤ w := by
  rcases le_or_gt (length w) n with hShort | hLong
  · rw [keep_of_length_le hShort, Nat.sub_self, Nat.zero_mul]
    exact Nat.zero_le w
  · have hLost : w - keep n w = w % 2 ^ (length w - n) := by
      have hParts := keep_add_mod n w
      omega
    have hBelow : w % 2 ^ (length w - n) ≤ 2 ^ (length w - n) := (Nat.mod_lt _ (Nat.two_pow_pos _)).le
    have hTop : 2 ^ (length w - 1) ≤ w := pow_le_of_lt_length (by omega)
    calc (w - keep n w) * 2 ^ (n - 1)
        ≤ 2 ^ (length w - n) * 2 ^ (n - 1) := Nat.mul_le_mul_right _ (hLost.trans_le hBelow)
      _ = 2 ^ (length w - 1) := by
        rw [← pow_add]
        congr 1
        omega
      _ ≤ w := hTop

end TopBits
