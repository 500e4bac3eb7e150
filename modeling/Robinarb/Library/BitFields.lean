import Robinarb.Library.BitSearch

/-! # Bit fields of a word

Reading and overwriting a run of bits of a word, and decoders of a single field: they
return the field's value under any other bits, and no other bit changes their result.
-/

namespace BitFields

variable {w len : Nat}

/-- The `len` bits from `start` on are the same in both words. -/
def AgreeOn (start len : Nat) (x y : BitVec w) : Prop :=
  ∀ i, start ≤ i → i < start + len → x.getLsbD i = y.getLsbD i

/-- The word `rest` with the bits from `start` on overwritten. -/
def overwrite (start : Nat) (v : BitVec len) (rest : BitVec w) : BitVec w :=
  (rest &&& ~~~((BitVec.allOnes len).setWidth w <<< start)) ||| (v.setWidth w <<< start)

theorem getLsbD_overwrite {start i : Nat} (v : BitVec len) (rest : BitVec w) (hi : i < len) (hw : start + i < w) :
    (overwrite start v rest).getLsbD (start + i) = v.getLsbD i := by
  have hPast : ¬start + i < start := by omega
  simp [overwrite, hi, hw, hPast]

theorem extract_overwrite {start : Nat} (h : start + len ≤ w) (v : BitVec len) (rest : BitVec w) :
    (overwrite start v rest).extractLsb' start len = v := by
  apply BitVec.eq_of_getLsbD_eq
  intro i hi
  rw [BitVec.getLsbD_extractLsb', getLsbD_overwrite v rest hi (by omega), decide_eq_true hi, Bool.true_and]

theorem extract_eq_of_agreeOn {start : Nat} {x y : BitVec w} (h : AgreeOn start len x y) :
    x.extractLsb' start len = y.extractLsb' start len := by
  apply BitVec.eq_of_getLsbD_eq
  intro i hi
  rw [BitVec.getLsbD_extractLsb', BitVec.getLsbD_extractLsb', h (start + i) (by omega) (by omega)]

/-- A decoder of the field at `start`, which reads it as `read` does. -/
structure Decodes {β : Type*} (start : Nat) (read : BitVec len → β) (decode : BitVec w → β) : Prop where
  inverts : ∀ v rest, decode (overwrite start v rest) = read v
  reads_field : ∀ x y, AgreeOn start len x y → decode x = decode y

theorem Decodes.of_extract {β : Type*} {start : Nat} {read : BitVec len → β} {decode : BitVec w → β}
    (h : start + len ≤ w) (hDecode : ∀ x, decode x = read (x.extractLsb' start len)) : Decodes start read decode where
  inverts v rest := by rw [hDecode, extract_overwrite h]
  reads_field x y hAgree := by rw [hDecode, hDecode, extract_eq_of_agreeOn hAgree]

theorem getLsbD_mask {n : Nat} (h : n < w) (i : Nat) : ((1#w <<< n) - 1#w).getLsbD i = decide (i < n) := by
  rw [← BitVec.testBit_toNat, BitSearch.toNat_shiftLeft_sub_one h, Nat.testBit_two_pow_sub_one]

/-- A shift, a mask and a cast read a field. -/
theorem setWidth_shift_mask {n : Nat} (h : n < w) (x : BitVec w) (start m : Nat) :
    ((x >>> start) &&& ((1#w <<< n) - 1#w)).setWidth m = (x.extractLsb' start n).setWidth m := by
  apply BitVec.eq_of_getLsbD_eq
  intro i hi
  simp only [BitVec.getLsbD_setWidth, BitVec.getLsbD_and, BitVec.getLsbD_ushiftRight, getLsbD_mask h,
    BitVec.getLsbD_extractLsb', Bool.and_comm (decide (i < n))]

theorem setWidth_mask {n : Nat} (h : n < w) (x : BitVec w) (m : Nat) :
    (x &&& ((1#w <<< n) - 1#w)).setWidth m = (x.extractLsb' 0 n).setWidth m := by
  rw [← setWidth_shift_mask h, BitVec.ushiftRight_zero]

/-- A field with its sign bit set is extended by the ones above it. -/
theorem setWidth_or_ones {n m : Nat} (x : BitVec n) (hMsb : x.msb = true) :
    x.setWidth m ||| (BitVec.allOnes m <<< n) = x.signExtend m := by
  apply BitVec.eq_of_getLsbD_eq
  intro i hi
  rw [BitVec.getLsbD_or, BitVec.getLsbD_setWidth, BitVec.getLsbD_shiftLeft, BitVec.getLsbD_signExtend, hMsb]
  by_cases hLow : i < n
  · simp [hi, hLow]
  · simp [hi, hLow, show i - n < m by omega]

theorem append_inj {m : Nat} {a b : BitVec w} {c d : BitVec m} (h : a ++ c = b ++ d) : a = b ∧ c = d := by
  have hHigh := congrArg (BitVec.extractLsb' m w) h
  have hLow := congrArg (BitVec.setWidth m) h
  rw [BitVec.extractLsb'_append_eq_left, BitVec.extractLsb'_append_eq_left] at hHigh
  rw [BitVec.setWidth_append_eq_right, BitVec.setWidth_append_eq_right] at hLow
  exact ⟨hHigh, hLow⟩

theorem setWidth_inj {m : Nat} (hLe : w ≤ m) {a b : BitVec w} (h : a.setWidth m = b.setWidth m) : a = b := by
  have hBack := congrArg (BitVec.setWidth w) h
  rwa [BitVec.setWidth_setWidth_of_le _ hLe, BitVec.setWidth_setWidth_of_le _ hLe, BitVec.setWidth_eq, BitVec.setWidth_eq] at hBack

theorem ofInt_inj {m n : Int} (hw : 0 < w) (hm : -2 ^ (w - 1) ≤ m ∧ m < 2 ^ (w - 1)) (hn : -2 ^ (w - 1) ≤ n ∧ n < 2 ^ (w - 1))
    (h : BitVec.ofInt w m = BitVec.ofInt w n) : m = n := by
  have hValue := congrArg BitVec.toInt h
  rwa [BitVec.toInt_ofInt_eq_self hw hm.1 hm.2, BitVec.toInt_ofInt_eq_self hw hn.1 hn.2] at hValue

end BitFields
