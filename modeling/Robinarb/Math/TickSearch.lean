import Robinarb.Math.TickBitmap
import Robinarb.Math.ReferenceMath
import Mathlib.Order.Bounds.Basic

/-! # The tick search is exact

`next_initialized_tick_src` with every operation checked, and its result as a greatest or
least element: nothing overflows, and the tick is the one that the word names.
-/

namespace Robinarb

section Checks

variable {w : Nat}

def fitsI32 (x : Int) : Option Int := if -2 ^ 31 ≤ x ∧ x < 2 ^ 31 then some x else none

def fitsI16 (x : Int) : Option Int := if -2 ^ 15 ≤ x ∧ x < 2 ^ 15 then some x else none

def fitsU8 (x : Int) : Option U8 := if 0 ≤ x ∧ x < 2 ^ 8 then some (BitVec.ofInt 8 x) else none

def fitsShl (x : BitVec w) (k : Nat) : Option (BitVec w) := if x.toNat * 2 ^ k < 2 ^ w then some (x <<< k) else none

def fitsAdd (x y : BitVec w) : Option (BitVec w) := if x.toNat + y.toNat < 2 ^ w then some (x + y) else none

def fitsSub (x y : BitVec w) : Option (BitVec w) := if y ≤ x then some (x - y) else none

theorem fitsI32_eq {x : Int} (hLow : -2 ^ 31 ≤ x) (hHigh : x < 2 ^ 31) : fitsI32 x = some (wrapI32 x) := by
  rw [fitsI32, if_pos ⟨hLow, hHigh⟩, wrapI32_eq hLow hHigh]

theorem fitsI16_eq {x : Int} (hLow : -2 ^ 15 ≤ x) (hHigh : x < 2 ^ 15) : fitsI16 x = some (asI16 x) := by
  rw [fitsI16, if_pos ⟨hLow, hHigh⟩, asI16_eq hLow hHigh]

theorem fitsSub_eq {x y : BitVec w} (h : y ≤ x) : fitsSub x y = some (x - y) := if_pos h

end Checks

section Checked

def compressTickChecked (tick spacing : Int) : Option Int := do
  let quotient ← fitsI32 (tick.tdiv spacing)
  if tick < 0 ∧ tick.tmod spacing ≠ 0 then fitsI32 (quotient - 1) else return quotient

def positionChecked (compressed : Int) : Option (Int × U8) := do
  let wordPos ← fitsI16 (compressed >>> (8 : Nat))
  let bitPos ← fitsU8 (compressed % 256)
  return (wordPos, bitPos)

def positionTickChecked {ε : Type} (compressed spacing : Int) (initialized : Bool) :
    Option (Except ε (Option (Int × Bool))) := do
  let position ← fitsI32 compressed
  let next ← fitsI32 (position * spacing)
  return .ok (some (next, initialized))

/-- `next_initialized_tick_src`, where an operation that overflows has no result. -/
def nextInitializedTickChecked {ε : Type} (M : SwapMath ε) (src : TickSource) (tick tickSpacing : Int) (lte : Bool) :
    Option (Except ε (Option (Int × Bool))) := do
  let compressed ← compressTickChecked tick tickSpacing
  if lte then
    let (wordPos, bitPos) ← positionChecked compressed
    match src.bitmapWord wordPos with
    | none => return .ok none
    | some word =>
      let bit ← fitsShl 1#256 bitPos.toNat
      let below ← fitsSub bit 1#256
      let mask ← fitsAdd below bit
      let masked := word &&& mask
      if masked ≠ 0#256 then
        match M.mostSignificantBit masked with
        | .error e => return .error e
        | .ok msb =>
          let back ← fitsSub bitPos msb
          positionTickChecked (compressed - back.toNat) tickSpacing true
      else positionTickChecked (compressed - bitPos.toNat) tickSpacing false
  else
    let next ← fitsI32 (compressed + 1)
    let (wordPos, bitPos) ← positionChecked next
    match src.bitmapWord wordPos with
    | none => return .ok none
    | some word =>
      let bit ← fitsShl 1#256 bitPos.toNat
      let below ← fitsSub bit 1#256
      let masked := word &&& ~~~below
      if masked ≠ 0#256 then
        match M.leastSignificantBit masked with
        | .error e => return .error e
        | .ok lsb =>
          let ahead ← fitsSub lsb bitPos
          positionTickChecked (next + ahead.toNat) tickSpacing true
      else
        let ahead ← fitsSub 255#8 bitPos
        positionTickChecked (next + ahead.toNat) tickSpacing false

variable {tick spacing : Int}

theorem compressTickChecked_eq (hs : SpacingRange spacing) (ht : TickRange tick) :
    compressTickChecked tick spacing = some (compressTick tick spacing) := by
  have hc := compressed_range hs ht
  have hCompress := compressTick_eq hs ht
  have hQuotient : -2 ^ 23 ≤ tick.tdiv spacing ∧ tick.tdiv spacing ≤ 2 ^ 23 := by
    have hAbs := Int.natAbs_tdiv_le_natAbs tick spacing
    obtain ⟨hLow, hHigh⟩ := ht
    omega
  rw [compressTickChecked, fitsI32_eq (by omega) (by omega), Option.bind_eq_bind, Option.bind_some,
    wrapI32_eq (by omega) (by omega), compressTick]
  split
  · exact fitsI32_eq (by omega) (by omega)
  · rfl

theorem positionChecked_eq {c : Int} (hLow : -2 ^ 23 ≤ c) (hHigh : c < 2 ^ 23) :
    positionChecked c = some (position c) := by
  have hShift : c >>> (8 : Nat) = c / 256 := Int.shiftRight_eq_div_pow c 8
  have hBit : BitVec.ofInt 8 (c % 256) = BitVec.ofInt 8 c := by
    apply BitVec.eq_of_toNat_eq
    simp only [BitVec.toNat_ofInt]
    omega
  rw [positionChecked, fitsI16_eq (by omega) (by omega), fitsU8, if_pos (by omega), hBit]
  rfl

theorem fitsShl_bit (b : U8) : fitsShl 1#256 b.toNat = some (1#256 <<< b.toNat) := by
  have hPow : 2 ^ b.toNat < 2 ^ 256 := Nat.pow_lt_pow_right (by omega) b.isLt
  exact if_pos (by rw [BitVec.toNat_ofNat]; omega)

theorem fitsSub_bit (b : U8) : fitsSub (1#256 <<< b.toNat) 1#256 = some (1#256 <<< b.toNat - 1#256) := by
  have hPos : 0 < 2 ^ b.toNat := Nat.two_pow_pos _
  apply fitsSub_eq
  rw [BitVec.le_def, BitSearch.toNat_one_shiftLeft b.isLt, BitVec.toNat_ofNat]
  omega

theorem fitsAdd_bit (b : U8) : fitsAdd (1#256 <<< b.toNat - 1#256) (1#256 <<< b.toNat) =
    some (BitSearch.lowMask 256 b.toNat) := by
  have hPow : 2 ^ (b.toNat + 1) ≤ 2 ^ 256 := Nat.pow_le_pow_right (by omega) b.isLt
  have hPos : 0 < 2 ^ b.toNat := Nat.two_pow_pos _
  apply if_pos
  rw [BitSearch.toNat_shiftLeft_sub_one b.isLt, BitSearch.toNat_one_shiftLeft b.isLt]
  rw [pow_succ] at hPow
  omega

theorem positionTickChecked_eq {ε : Type} (hs : SpacingRange spacing) (ht : TickRange tick) {m : Int}
    (hLow : tick / spacing / 256 * 256 ≤ m) (hHigh : m ≤ (tick / spacing + 1) / 256 * 256 + 255) (initialized : Bool) :
    (positionTickChecked m spacing initialized : Option (Except ε (Option (Int × Bool)))) =
      some (.ok (some (wrapI32 (wrapI32 m * spacing), initialized))) := by
  have hc := compressed_range hs ht
  obtain ⟨hMulLow, hMulHigh⟩ := mul_spacing_range hs ht hLow hHigh
  have hm : wrapI32 m = m := wrapI32_eq (by omega) (by omega)
  rw [positionTickChecked, fitsI32_eq (by omega) (by omega), Option.bind_eq_bind, Option.bind_some, hm,
    fitsI32_eq hMulLow hMulHigh]
  rfl

theorem nextInitializedTickChecked_eq {ε : Type} {M : SwapMath ε} (bits : M.BitLaws) {src : TickSource}
    (hs : SpacingRange spacing) (ht : TickRange tick) {lte : Bool} (hTop : lte = false → tick / spacing + 1 < 2 ^ 23) :
    nextInitializedTickChecked M src tick spacing lte = some (nextInitializedTickSrc M src tick spacing lte) := by
  have hc := compressed_range hs ht
  have hTick := fun m => positionTickChecked_eq (ε := ε) (m := m) hs ht
  cases lte with
  | true =>
    obtain ⟨-, hBit⟩ := position_eq (c := tick / spacing) hc.1 hc.2
    unfold nextInitializedTickChecked nextInitializedTickSrc
    simp only [compressTickChecked_eq hs ht, compressTick_eq hs ht, positionChecked_eq hc.1 hc.2, Option.bind_eq_bind,
      Option.bind_some, if_true]
    cases src.bitmapWord (position (tick / spacing)).1 with
    | none => rfl
    | some word =>
      generalize (position (tick / spacing)).2 = b at *
      have hb : b.toNat < 256 := b.isLt
      simp only [fitsShl_bit, fitsSub_bit, fitsAdd_bit, Option.bind_some, ← BitSearch.lowMask.eq_1]
      by_cases hZero : word &&& BitSearch.lowMask 256 b.toNat = 0#256
      · rw [if_neg (not_not.mpr hZero), if_neg (not_not.mpr hZero), hTick _ (by omega) (by omega)]
      · rw [if_pos hZero, if_pos hZero]
        obtain ⟨k, hk, hHighest⟩ := bits.highest _ hZero
        obtain ⟨hkb, -, -⟩ := BitSearch.highest_of_lowMask hb hHighest
        have hSub : ((b - k).toNat : Int) = b.toNat - k.toNat := by
          rw [BitVec.toNat_sub_of_le hkb]
          omega
        rw [hk]
        dsimp only
        rw [fitsSub_eq hkb, Option.bind_some, hTick _ (by omega) (by omega)]
        rfl
  | false =>
    have hTop := hTop rfl
    have hNext : wrapI32 (tick / spacing + 1) = tick / spacing + 1 := wrapI32_eq (by omega) (by omega)
    obtain ⟨-, hBit⟩ := position_eq (c := tick / spacing + 1) (by omega) hTop
    have hPosition : positionChecked (tick / spacing + 1) = some (position (tick / spacing + 1)) :=
      positionChecked_eq (by omega) hTop
    have hFits : fitsI32 (tick / spacing + 1) = some (tick / spacing + 1) := by
      rw [fitsI32_eq (by omega) (by omega), hNext]
    unfold nextInitializedTickChecked nextInitializedTickSrc
    simp only [compressTickChecked_eq hs ht, compressTick_eq hs ht, hFits, hNext, hPosition, Option.bind_eq_bind,
      Option.bind_some, Bool.false_eq_true, if_false]
    cases src.bitmapWord (position (tick / spacing + 1)).1 with
    | none => rfl
    | some word =>
      generalize (position (tick / spacing + 1)).2 = b at *
      have hb : b.toNat < 256 := b.isLt
      simp only [fitsShl_bit, fitsSub_bit, Option.bind_some, ← BitSearch.highMask.eq_1]
      by_cases hZero : word &&& BitSearch.highMask 256 b.toNat = 0#256
      · have hMax : b ≤ 255#8 := by bv_omega
        have hSub : ((255#8 - b).toNat : Int) = 255 - b.toNat := by
          rw [BitVec.toNat_sub_of_le hMax]
          show ((255 - b.toNat : Nat) : Int) = _
          omega
        rw [if_neg (not_not.mpr hZero), if_neg (not_not.mpr hZero), fitsSub_eq hMax, Option.bind_some,
          hTick _ (by omega) (by omega)]
      · rw [if_pos hZero, if_pos hZero]
        obtain ⟨k, hk, hLowest⟩ := bits.lowest _ hZero
        obtain ⟨hbk, hkLt, -, -⟩ := BitSearch.lowest_of_highMask hb hLowest
        have hSub : ((k - b).toNat : Int) = k.toNat - b.toNat := by
          rw [BitVec.toNat_sub_of_le hbk]
          omega
        rw [hk]
        dsimp only
        rw [fitsSub_eq hbk, Option.bind_some, hTick _ (by omega) (by omega)]
        rfl

end Checked

section Exact

variable {ε : Type} {M : SwapMath ε} {src : TickSource} {tick spacing : Int}

def TickSource.initializedIn (src : TickSource) (spacing word : Int) : Set Int :=
  {u | src.initialized spacing u = true ∧ u / spacing / 256 = word}

theorem mem_initializedIn (hs : SpacingRange spacing) {word u : Int} :
    u ∈ src.initializedIn spacing word ↔ ∃ m, u = m * spacing ∧ src.bitSet m = true ∧ m / 256 = word := by
  have hPos := hs.pos
  constructor
  · rintro ⟨hSet, hWord⟩
    have hDvd : u % spacing = 0 := by
      by_contra hNot
      simp [TickSource.initialized, hNot] at hSet
    obtain ⟨m, rfl⟩ := Int.dvd_of_emod_eq_zero hDvd
    rw [Int.mul_comm spacing m] at hSet hWord ⊢
    rw [src.initialized_mul (by omega)] at hSet
    rw [Int.mul_ediv_cancel _ (by omega)] at hWord
    exact ⟨m, rfl, hSet, hWord⟩
  · rintro ⟨m, rfl, hSet, hWord⟩
    constructor
    · rwa [src.initialized_mul (by omega)]
    · rwa [Int.mul_ediv_cancel _ (by omega)]

theorem nextInitializedTickSrc_greatest (bits : M.BitLaws) (hs : SpacingRange spacing) (ht : TickRange tick)
    {word : U256} (hWord : src.bitmapWord (tick / spacing / 256) = some word) :
    (∃ n, nextInitializedTickSrc M src tick spacing true = .ok (some (n, true)) ∧
        IsGreatest {u | u ∈ src.initializedIn spacing (tick / spacing / 256) ∧ u ≤ tick} n) ∨
      nextInitializedTickSrc M src tick spacing true = .ok (some (tick / spacing / 256 * 256 * spacing, false)) ∧
        ∀ u ∈ src.initializedIn spacing (tick / spacing / 256), tick < u := by
  have hPos := hs.pos
  obtain ⟨m, hEval, hLow, hHigh, hClear, hEdge⟩ := nextInitializedTickSrc_lte bits hs ht hWord
  have hAbove : ∀ k, k * spacing ≤ tick → src.bitSet k = true → k ≤ m := by
    intro k hk hSet
    by_contra hBeyond
    have hCompressed : k ≤ tick / spacing := (Int.le_ediv_iff_mul_le (by omega)).mpr hk
    rw [hClear k (by omega) hCompressed] at hSet
    cases hSet
  cases hSet : src.bitSet m with
  | true =>
    left
    rw [hSet] at hEval
    refine ⟨m * spacing, hEval, ⟨(mem_initializedIn hs).mpr ⟨m, rfl, hSet, by omega⟩, ?_⟩, ?_⟩
    · exact (Int.le_ediv_iff_mul_le (by omega)).mp hHigh
    · rintro u ⟨hIn, hLe⟩
      obtain ⟨k, rfl, hk, -⟩ := (mem_initializedIn hs).mp hIn
      exact Int.mul_le_mul_of_nonneg_right (hAbove k hLe hk) (by omega)
  | false =>
    right
    rw [hSet, hEdge hSet] at hEval
    refine ⟨hEval, ?_⟩
    intro u hIn
    obtain ⟨k, rfl, hk, hWordK⟩ := (mem_initializedIn hs).mp hIn
    by_contra hBelow
    have hLe := hAbove k (by omega) hk
    obtain rfl : k = m := by have := hEdge hSet; omega
    rw [hSet] at hk
    cases hk

theorem nextInitializedTickSrc_least (bits : M.BitLaws) (hs : SpacingRange spacing) (ht : TickRange tick)
    (hTop : tick / spacing + 1 < 2 ^ 23) {word : U256} (hWord : src.bitmapWord ((tick / spacing + 1) / 256) = some word) :
    (∃ n, nextInitializedTickSrc M src tick spacing false = .ok (some (n, true)) ∧
        IsLeast {u | u ∈ src.initializedIn spacing ((tick / spacing + 1) / 256) ∧ tick < u} n) ∨
      nextInitializedTickSrc M src tick spacing false =
          .ok (some (((tick / spacing + 1) / 256 * 256 + 255) * spacing, false)) ∧
        ∀ u ∈ src.initializedIn spacing ((tick / spacing + 1) / 256), u ≤ tick := by
  have hPos := hs.pos
  obtain ⟨m, hEval, hLow, hHigh, hClear, hEdge⟩ := nextInitializedTickSrc_gt bits hs ht hTop hWord
  have hBelow : ∀ k, tick < k * spacing → src.bitSet k = true → m ≤ k := by
    intro k hk hSet
    by_contra hBefore
    have hCompressed : tick / spacing < k := (Int.ediv_lt_iff_lt_mul (by omega)).mpr hk
    rw [hClear k (by omega) (by omega)] at hSet
    cases hSet
  cases hSet : src.bitSet m with
  | true =>
    left
    rw [hSet] at hEval
    refine ⟨m * spacing, hEval, ⟨(mem_initializedIn hs).mpr ⟨m, rfl, hSet, by omega⟩, ?_⟩, ?_⟩
    · exact (Int.ediv_lt_iff_lt_mul (by omega)).mp (by omega)
    · rintro u ⟨hIn, hLt⟩
      obtain ⟨k, rfl, hk, -⟩ := (mem_initializedIn hs).mp hIn
      exact Int.mul_le_mul_of_nonneg_right (hBelow k hLt hk) (by omega)
  | false =>
    right
    rw [hSet, hEdge hSet] at hEval
    refine ⟨hEval, ?_⟩
    intro u hIn
    obtain ⟨k, rfl, hk, hWordK⟩ := (mem_initializedIn hs).mp hIn
    by_contra hAbove
    have hLe := hBelow k (by omega) hk
    obtain rfl : k = m := by have := hEdge hSet; omega
    rw [hSet] at hk
    cases hk

/-- The search inside the protocol's bounds: at or below the tick the greatest initialized
tick of its word or the word's lowest position, above it the least of the word of the next
position or that word's highest; it asks for that word alone, and nothing overflows. -/
theorem nextInitializedTickSrc_exact (bits : M.BitLaws) (hs : SpacingRange spacing) (hLow : minTick ≤ tick)
    (hHigh : tick ≤ maxTick) (src : TickSource) :
    (∀ word, src.bitmapWord (tick / spacing / 256) = some word →
      (∃ n, nextInitializedTickSrc M src tick spacing true = .ok (some (n, true)) ∧
          IsGreatest {u | u ∈ src.initializedIn spacing (tick / spacing / 256) ∧ u ≤ tick} n) ∨
        nextInitializedTickSrc M src tick spacing true = .ok (some (tick / spacing / 256 * 256 * spacing, false)) ∧
          ∀ u ∈ src.initializedIn spacing (tick / spacing / 256), tick < u) ∧
    (∀ word, src.bitmapWord ((tick / spacing + 1) / 256) = some word →
      (∃ n, nextInitializedTickSrc M src tick spacing false = .ok (some (n, true)) ∧
          IsLeast {u | u ∈ src.initializedIn spacing ((tick / spacing + 1) / 256) ∧ tick < u} n) ∨
        nextInitializedTickSrc M src tick spacing false =
            .ok (some (((tick / spacing + 1) / 256 * 256 + 255) * spacing, false)) ∧
          ∀ u ∈ src.initializedIn spacing ((tick / spacing + 1) / 256), u ≤ tick) ∧
    (∀ lte other, other.bitmapWord (probeWord tick spacing lte) = src.bitmapWord (probeWord tick spacing lte) →
      nextInitializedTickSrc M other tick spacing lte = nextInitializedTickSrc M src tick spacing lte) ∧
    ∀ lte, nextInitializedTickChecked M src tick spacing lte = some (nextInitializedTickSrc M src tick spacing lte) := by
  have ht := TickRange.of_bounds hLow hHigh
  have hTop := compressed_succ_lt hs hHigh
  refine ⟨?_, ?_, ?_, ?_⟩
  · intro word hWord
    exact nextInitializedTickSrc_greatest bits hs ht hWord
  · intro word hWord
    exact nextInitializedTickSrc_least bits hs ht hTop hWord
  · intro lte other hSame
    apply nextInitializedTickSrc_congr
    rwa [walkWord_eq hs ht fun _ => hTop]
  · intro lte
    exact nextInitializedTickChecked_eq bits hs ht fun _ => hTop

/-- The word of the ticks -256 to -1 with the bit of -251. -/
def negativeWord : TickSource := mapSource [(-1, 1#256 <<< 5)] []

theorem negativeWord_searched :
    (∃ n, nextInitializedTickSrc referenceMath negativeWord (-3) 1 true = .ok (some (n, true)) ∧
        IsGreatest {u | u ∈ negativeWord.initializedIn 1 (-1) ∧ u ≤ -3} n) ∨
      nextInitializedTickSrc referenceMath negativeWord (-3) 1 true = .ok (some (-256, false)) ∧
        ∀ u ∈ negativeWord.initializedIn 1 (-1), -3 < u :=
  (nextInitializedTickSrc_exact referenceMath_bitLaws ⟨by decide, by decide⟩ (by decide) (by decide)
    negativeWord).1 (1#256 <<< 5) rfl

end Exact

end Robinarb
