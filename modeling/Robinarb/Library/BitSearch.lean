import Mathlib.Data.Nat.Bitwise
import Mathlib.Order.Lattice
import Mathlib.Tactic.Common

/-! # Searching a machine word for set bits

The masks that keep the bits up to a position, or from it on, and what the
first or last set bit of a masked word says about the word itself. A search that
stops at an edge has one result.
-/

namespace BitSearch

variable {w : Nat}

def IsHighest (x : BitVec w) (k : Nat) : Prop :=
  x.getLsbD k = true ∧ ∀ j, k < j → x.getLsbD j = false

def IsLowest (x : BitVec w) (k : Nat) : Prop :=
  x.getLsbD k = true ∧ ∀ j, j < k → x.getLsbD j = false

def lowMask (w b : Nat) : BitVec w := (1#w <<< b) - 1#w + (1#w <<< b)

def highMask (w b : Nat) : BitVec w := ~~~((1#w <<< b) - 1#w)

theorem toNat_one_shiftLeft {b : Nat} (hb : b < w) : (1#w <<< b).toNat = 2 ^ b := by
  have hw : 1 < 2 ^ w := Nat.one_lt_two_pow (by omega)
  have hPow : 2 ^ b < 2 ^ w := Nat.pow_lt_pow_right (by omega) hb
  rw [BitVec.toNat_shiftLeft, BitVec.toNat_ofNat, Nat.mod_eq_of_lt hw, Nat.shiftLeft_eq, Nat.one_mul,
    Nat.mod_eq_of_lt hPow]

theorem toNat_shiftLeft_sub_one {b : Nat} (hb : b < w) : ((1#w <<< b) - 1#w).toNat = 2 ^ b - 1 := by
  have hw : 1 < 2 ^ w := Nat.one_lt_two_pow (by omega)
  have hPow : 2 ^ b < 2 ^ w := Nat.pow_lt_pow_right (by omega) hb
  have hPos : 0 < 2 ^ b := Nat.two_pow_pos b
  rw [BitVec.toNat_sub, toNat_one_shiftLeft hb, BitVec.toNat_ofNat, Nat.mod_eq_of_lt hw]
  have hSplit : 2 ^ w - 1 + 2 ^ b = (2 ^ b - 1) + 2 ^ w := by omega
  rw [hSplit, Nat.add_mod_right, Nat.mod_eq_of_lt (by omega)]

theorem getLsbD_lowMask {b : Nat} (hb : b < w) (i : Nat) : (lowMask w b).getLsbD i = decide (i ≤ b) := by
  have hPos : 0 < 2 ^ b := Nat.two_pow_pos b
  have hBound : 2 ^ (b + 1) ≤ 2 ^ w := Nat.pow_le_pow_right (by omega) hb
  have hNat : (lowMask w b).toNat = 2 ^ (b + 1) - 1 := by
    rw [lowMask, BitVec.toNat_add, toNat_shiftLeft_sub_one hb, toNat_one_shiftLeft hb]
    rw [pow_succ] at hBound ⊢
    rw [Nat.mod_eq_of_lt (by omega)]
    omega
  rw [← BitVec.testBit_toNat, hNat, Nat.testBit_two_pow_sub_one]
  simp only [Nat.lt_succ_iff]

theorem getLsbD_highMask {b : Nat} (hb : b < w) (i : Nat) :
    (highMask w b).getLsbD i = (decide (b ≤ i) && decide (i < w)) := by
  rw [highMask, BitVec.getLsbD_not, ← BitVec.testBit_toNat, toNat_shiftLeft_sub_one hb,
    Nat.testBit_two_pow_sub_one, ← decide_not, Bool.and_comm]
  simp only [Nat.not_lt]

theorem highest_of_lowMask {word : BitVec w} {b k : Nat} (hb : b < w)
    (h : IsHighest (word &&& lowMask w b) k) :
    k ≤ b ∧ word.getLsbD k = true ∧ ∀ j, k < j → j ≤ b → word.getLsbD j = false := by
  obtain ⟨hSet, hAbove⟩ := h
  simp only [BitVec.getLsbD_and, getLsbD_lowMask hb, Bool.and_eq_true, decide_eq_true_eq] at hSet
  refine ⟨hSet.2, hSet.1, ?_⟩
  intro j hkj hjb
  have hBit := hAbove j hkj
  rwa [BitVec.getLsbD_and, getLsbD_lowMask hb, decide_eq_true hjb, Bool.and_true] at hBit

theorem lowest_of_highMask {word : BitVec w} {b k : Nat} (hb : b < w)
    (h : IsLowest (word &&& highMask w b) k) :
    b ≤ k ∧ k < w ∧ word.getLsbD k = true ∧ ∀ j, b ≤ j → j < k → word.getLsbD j = false := by
  obtain ⟨hSet, hBelow⟩ := h
  simp only [BitVec.getLsbD_and, getLsbD_highMask hb, Bool.and_eq_true, decide_eq_true_eq] at hSet
  refine ⟨hSet.2.1, hSet.2.2, hSet.1, ?_⟩
  intro j hbj hjk
  have hBit := hBelow j hjk
  rwa [BitVec.getLsbD_and, getLsbD_highMask hb, decide_eq_true hbj,
    decide_eq_true (hjk.trans hSet.2.2), Bool.and_true, Bool.and_true] at hBit

theorem getLsbD_of_lowMask_zero {word : BitVec w} {b : Nat} (hb : b < w) (h : word &&& lowMask w b = 0#w)
    {j : Nat} (hj : j ≤ b) : word.getLsbD j = false := by
  have hBit := congrArg (fun x => x.getLsbD j) h
  rwa [BitVec.getLsbD_and, getLsbD_lowMask hb, decide_eq_true hj, Bool.and_true,
    BitVec.getLsbD_zero] at hBit

theorem getLsbD_of_highMask_zero {word : BitVec w} {b : Nat} (hb : b < w)
    (h : word &&& highMask w b = 0#w) {j : Nat} (hj : b ≤ j) : word.getLsbD j = false := by
  by_cases hw : j < w
  · have hBit := congrArg (fun x => x.getLsbD j) h
    rwa [BitVec.getLsbD_and, getLsbD_highMask hb, decide_eq_true hj, decide_eq_true hw,
      Bool.and_true, Bool.and_true, BitVec.getLsbD_zero] at hBit
  · exact BitVec.getLsbD_of_ge _ _ (Nat.le_of_not_lt hw)

section Positions

variable {α : Type*} [LinearOrder α] {bit other : α → Bool} {edge c m n : α}

/-- The last set position from `c` down to `edge`, or `edge` itself. -/
structure LastBelow (bit : α → Bool) (edge c m : α) : Prop where
  low : edge ≤ m
  high : m ≤ c
  clear : ∀ k, m < k → k ≤ c → bit k = false
  atEdge : bit m = false → m = edge

/-- The first set position from `c` up to `edge`, or `edge` itself. -/
structure FirstAbove (bit : α → Bool) (c edge m : α) : Prop where
  low : c ≤ m
  high : m ≤ edge
  clear : ∀ k, c ≤ k → k < m → bit k = false
  atEdge : bit m = false → m = edge

theorem LastBelow.le (h : LastBelow bit edge c m) (h' : LastBelow bit edge c n) : m ≤ n := by
  by_contra hNot
  have hClear := h'.clear m (not_le.mp hNot) h.high
  exact hNot (h.atEdge hClear ▸ h'.low)

theorem LastBelow.unique (h : LastBelow bit edge c m) (h' : LastBelow bit edge c n) : m = n :=
  le_antisymm (h.le h') (h'.le h)

theorem LastBelow.congr (agree : ∀ k, edge ≤ k → k ≤ c → other k = bit k) (h : LastBelow bit edge c m) :
    LastBelow other edge c m where
  low := h.low
  high := h.high
  clear k hLow hHigh := (agree k (h.low.trans hLow.le) hHigh).trans (h.clear k hLow hHigh)
  atEdge hClear := h.atEdge ((agree m h.low h.high).symm.trans hClear)

theorem FirstAbove.le (h : FirstAbove bit c edge m) (h' : FirstAbove bit c edge n) : m ≤ n := by
  by_contra hNot
  have hClear := h.clear n h'.low (not_le.mp hNot)
  exact hNot (h'.atEdge hClear ▸ h.high)

theorem FirstAbove.unique (h : FirstAbove bit c edge m) (h' : FirstAbove bit c edge n) : m = n :=
  le_antisymm (h.le h') (h'.le h)

theorem FirstAbove.congr (agree : ∀ k, c ≤ k → k ≤ edge → other k = bit k) (h : FirstAbove bit c edge m) :
    FirstAbove other c edge m where
  low := h.low
  high := h.high
  clear k hLow hHigh := (agree k hLow (hHigh.le.trans h.high)).trans (h.clear k hLow hHigh)
  atEdge hClear := h.atEdge ((agree m h.low h.high).symm.trans hClear)

end Positions

end BitSearch
