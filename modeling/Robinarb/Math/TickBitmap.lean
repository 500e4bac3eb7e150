import Robinarb.Math.SwapMath

/-! # The next initialized tick within one bitmap word

`next_initialized_tick_src` over a lazy tick source. Results are stated for
compressed ticks first, then for ticks: the returned tick is the first
initialized one in the walking direction, or an edge of the probed word with no
initialized tick on the way.
-/

namespace Robinarb

/-- `None` is a word that was never hydrated, not an empty one. -/
structure TickSource where
  bitmapWord : Int → Option U256
  liquidityNet : Int → I128

/-- A source over finite tables, as the tests of the walk build it. -/
def mapSource (bitmap : List (Int × U256)) (ticks : List (Int × I128)) : TickSource where
  bitmapWord word := bitmap.lookup word
  liquidityNet tick := (ticks.lookup tick).getD 0#128

/-- `compress_tick`, the expression that also stands inline in the walk. -/
def compressTick (tick spacing : Int) : Int :=
  if tick < 0 ∧ tick.tmod spacing ≠ 0 then wrapI32 (tick.tdiv spacing - 1) else tick.tdiv spacing

def position (compressed : Int) : Int × U8 := (asI16 (compressed >>> (8 : Nat)), BitVec.ofInt 8 compressed)

def nextInitializedTickSrc {ε : Type} (M : SwapMath ε) (src : TickSource) (tick tickSpacing : Int)
    (lte : Bool) : Except ε (Option (Int × Bool)) :=
  let compressed := compressTick tick tickSpacing
  if lte then
    let (wordPos, bitPos) := position compressed
    match src.bitmapWord wordPos with
    | none => .ok none
    | some word =>
      let mask := (1#256 <<< bitPos.toNat) - 1#256 + (1#256 <<< bitPos.toNat)
      let masked := word &&& mask
      if masked ≠ 0#256 then do
        let msb ← M.mostSignificantBit masked
        return some (wrapI32 (wrapI32 (compressed - (bitPos - msb).toNat) * tickSpacing), true)
      else
        .ok (some (wrapI32 (wrapI32 (compressed - bitPos.toNat) * tickSpacing), false))
  else
    let next := wrapI32 (compressed + 1)
    let (wordPos, bitPos) := position next
    match src.bitmapWord wordPos with
    | none => .ok none
    | some word =>
      let mask := ~~~((1#256 <<< bitPos.toNat) - 1#256)
      let masked := word &&& mask
      if masked ≠ 0#256 then do
        let lsb ← M.leastSignificantBit masked
        return some (wrapI32 (wrapI32 (next + (lsb - bitPos).toNat) * tickSpacing), true)
      else
        .ok (some (wrapI32 (wrapI32 (next + (255#8 - bitPos).toNat) * tickSpacing), false))

/-- The one bitmap word a call looks at, as the call computes it. -/
def walkWord (tick tickSpacing : Int) (lte : Bool) : Int :=
  let compressed := compressTick tick tickSpacing
  if lte then (position compressed).1 else (position (wrapI32 (compressed + 1))).1

/-- The same word by floor division. -/
def probeWord (tick tickSpacing : Int) (lte : Bool) : Int :=
  if lte then tick / tickSpacing / 256 else (tick / tickSpacing + 1) / 256

namespace TickSource

def bitSet (src : TickSource) (compressed : Int) : Bool :=
  match src.bitmapWord (compressed / 256) with
  | none => false
  | some word => word.getLsbD (compressed % 256).toNat

/-- The initialized ticks of a source: multiples of the spacing whose bit is set. -/
def initialized (src : TickSource) (spacing tick : Int) : Bool :=
  decide (tick % spacing = 0) && src.bitSet (tick / spacing)

theorem initialized_mul (src : TickSource) {spacing : Int} (hs : 0 < spacing) (m : Int) :
    src.initialized spacing (m * spacing) = src.bitSet m := by
  rw [initialized, Int.mul_emod_left, Int.mul_ediv_cancel _ hs.ne']
  rfl

theorem bitSet_of_word {src : TickSource} {c : Int} {word : U256} (h : src.bitmapWord (c / 256) = some word) :
    src.bitSet c = word.getLsbD (c % 256).toNat := by
  simp only [bitSet, h]

end TickSource

/-- Spacings the pools use: positive and within `int24`. -/
structure SpacingRange (spacing : Int) : Prop where
  pos : 1 ≤ spacing
  lt : spacing < 2 ^ 23

structure TickRange (tick : Int) : Prop where
  low : -2 ^ 23 ≤ tick
  high : tick < 2 ^ 23

theorem TickRange.of_bounds {tick : Int} (hLow : minTick ≤ tick) (hHigh : tick ≤ maxTick) : TickRange tick := by
  unfold minTick at hLow
  unfold maxTick at hHigh
  exact ⟨by omega, by omega⟩

theorem compressTick_eq {tick spacing : Int} (hs : SpacingRange spacing) (ht : TickRange tick) :
    compressTick tick spacing = tick / spacing := by
  obtain ⟨hPos, _⟩ := hs
  obtain ⟨hLow, hHigh⟩ := ht
  unfold compressTick
  have hSign : spacing.sign = 1 := Int.sign_eq_one_of_pos (by omega)
  rw [Int.tdiv_eq_ediv]
  have hDvd : spacing ∣ tick ↔ tick.tmod spacing = 0 := Int.dvd_iff_tmod_eq_zero
  by_cases hCond : tick < 0 ∧ tick.tmod spacing ≠ 0
  · have hNot : ¬(0 ≤ tick ∨ spacing ∣ tick) := by
      rw [hDvd]
      omega
    rw [if_pos hCond, if_neg hNot, hSign]
    have hQuot : -2 ^ 23 ≤ tick / spacing := by
      calc
        (-2 ^ 23 : Int) ≤ tick := hLow
        _ ≤ tick / spacing := by
          rw [Int.le_ediv_iff_mul_le (by omega)]
          nlinarith [hCond.1]
    have hQuot' : tick / spacing < 0 := Int.ediv_neg_of_neg_of_pos hCond.1 (by omega)
    rw [wrapI32_eq (by omega) (by omega)]
    omega
  · have hYes : 0 ≤ tick ∨ spacing ∣ tick := by
      rw [hDvd]
      omega
    rw [if_neg hCond, if_pos hYes]
    omega

theorem compressed_range {tick spacing : Int} (hs : SpacingRange spacing) (ht : TickRange tick) :
    -2 ^ 23 ≤ tick / spacing ∧ tick / spacing < 2 ^ 23 := by
  obtain ⟨hPos, _⟩ := hs
  obtain ⟨hLow, hHigh⟩ := ht
  constructor
  · rw [Int.le_ediv_iff_mul_le (by omega)]
    nlinarith
  · rw [Int.ediv_lt_iff_lt_mul (by omega)]
    nlinarith

theorem position_eq {c : Int} (hLow : -2 ^ 23 ≤ c) (hHigh : c < 2 ^ 23) :
    (position c).1 = c / 256 ∧ ((position c).2.toNat : Int) = c % 256 := by
  constructor
  · have hShift : c >>> (8 : Nat) = c / 256 := Int.shiftRight_eq_div_pow c 8
    rw [position, hShift]
    apply asI16_eq <;> omega
  · simp only [position, BitVec.toNat_ofInt]
    omega

/-- Inside the protocol's bounds the successor of a compressed tick has a word. -/
theorem compressed_succ_lt {tick spacing : Int} (hs : SpacingRange spacing) (hHigh : tick ≤ maxTick) :
    tick / spacing + 1 < 2 ^ 23 := by
  obtain ⟨hPos, _⟩ := hs
  unfold maxTick at hHigh
  have hLt : tick / spacing < 2 ^ 23 - 1 := by
    rw [Int.ediv_lt_iff_lt_mul (by omega)]
    nlinarith
  omega

theorem mul_spacing_range {tick spacing m : Int} (hs : SpacingRange spacing) (ht : TickRange tick)
    (hLow : tick / spacing / 256 * 256 ≤ m) (hHigh : m ≤ (tick / spacing + 1) / 256 * 256 + 255) :
    -2 ^ 31 ≤ m * spacing ∧ m * spacing < 2 ^ 31 := by
  have hc := compressed_range hs ht
  obtain ⟨hPos, hLt⟩ := hs
  have hDiv := Int.mul_ediv_add_emod tick spacing
  have hMod := Int.emod_nonneg tick (show spacing ≠ 0 by omega)
  have hMod' := Int.emod_lt_of_pos tick (show 0 < spacing by omega)
  obtain ⟨hTickLow, hTickHigh⟩ := ht
  generalize tick / spacing = c at *
  by_cases hSmall : spacing ≤ 2 ^ 22
  · have hmLow := mul_le_mul_of_nonneg_right (show c - 255 ≤ m by omega) (show 0 ≤ spacing by omega)
    have hmHigh := mul_le_mul_of_nonneg_right (show m ≤ c + 256 by omega) (show 0 ≤ spacing by omega)
    constructor <;> nlinarith
  · have hcLow : -3 ≤ c := by nlinarith
    have hcHigh : c ≤ 2 := by nlinarith
    have hmLow : -256 ≤ m := by omega
    have hmHigh : m ≤ 255 := by omega
    constructor <;> nlinarith

theorem mul_spacing_eq {tick spacing m : Int} (hs : SpacingRange spacing) (ht : TickRange tick)
    (hLow : tick / spacing / 256 * 256 ≤ m) (hHigh : m ≤ (tick / spacing + 1) / 256 * 256 + 255) :
    wrapI32 (wrapI32 m * spacing) = m * spacing := by
  have hc := compressed_range hs ht
  obtain ⟨hMulLow, hMulHigh⟩ := mul_spacing_range hs ht hLow hHigh
  rw [wrapI32_eq (x := m) (by omega) (by omega), wrapI32_eq hMulLow hMulHigh]

section Search

variable {ε : Type} {M : SwapMath ε} {src : TickSource} {tick spacing : Int}

theorem bitSet_in_word {word : U256} {c k : Int} (hWord : src.bitmapWord (c / 256) = some word)
    (hk : k / 256 = c / 256) : src.bitSet k = word.getLsbD (k % 256).toNat :=
  TickSource.bitSet_of_word (hk ▸ hWord)

theorem nextInitializedTickSrc_stop {lte : Bool} (h : src.bitmapWord (walkWord tick spacing lte) = none) :
    nextInitializedTickSrc M src tick spacing lte = .ok none := by
  cases lte <;> simp_all [nextInitializedTickSrc, walkWord]

theorem nextInitializedTickSrc_congr {other : TickSource} {lte : Bool}
    (h : other.bitmapWord (walkWord tick spacing lte) = src.bitmapWord (walkWord tick spacing lte)) :
    nextInitializedTickSrc M other tick spacing lte = nextInitializedTickSrc M src tick spacing lte := by
  cases lte <;> simp_all [nextInitializedTickSrc, walkWord]

theorem walkWord_eq (hs : SpacingRange spacing) (ht : TickRange tick) {lte : Bool}
    (hTop : lte = false → tick / spacing + 1 < 2 ^ 23) :
    walkWord tick spacing lte = probeWord tick spacing lte := by
  have hc := compressed_range hs ht
  cases lte with
  | true => simp only [walkWord, probeWord, compressTick_eq hs ht, if_true, (position_eq hc.1 hc.2).1]
  | false =>
    have hTop := hTop rfl
    have hNext : wrapI32 (tick / spacing + 1) = tick / spacing + 1 := wrapI32_eq (by omega) (by omega)
    simp only [walkWord, probeWord, compressTick_eq hs ht, Bool.false_eq_true, if_false, hNext,
      (position_eq (c := tick / spacing + 1) (by omega) hTop).1]

theorem nextInitializedTickSrc_unknown (hs : SpacingRange spacing) (ht : TickRange tick) {lte : Bool}
    (hTop : lte = false → tick / spacing + 1 < 2 ^ 23)
    (h : src.bitmapWord (probeWord tick spacing lte) = none) :
    nextInitializedTickSrc M src tick spacing lte = .ok none := by
  apply nextInitializedTickSrc_stop
  rwa [walkWord_eq hs ht hTop]

/-- At or below the tick: the highest set bit of the tick's own word, else its lowest position. -/
theorem nextInitializedTickSrc_lte (bits : M.BitLaws) (hs : SpacingRange spacing) (ht : TickRange tick)
    {word : U256} (hWord : src.bitmapWord (tick / spacing / 256) = some word) :
    ∃ m, nextInitializedTickSrc M src tick spacing true = .ok (some (m * spacing, src.bitSet m)) ∧
      tick / spacing / 256 * 256 ≤ m ∧ m ≤ tick / spacing ∧
      (∀ k, m < k → k ≤ tick / spacing → src.bitSet k = false) ∧
      (src.bitSet m = false → m = tick / spacing / 256 * 256) := by
  have hc := compressed_range hs ht
  obtain ⟨hPos, hBit⟩ := position_eq (c := tick / spacing) hc.1 (by omega)
  have hMul := fun m => mul_spacing_eq (m := m) hs ht
  unfold nextInitializedTickSrc
  simp only [compressTick_eq hs ht, if_true, hPos, hWord, ← BitSearch.lowMask.eq_1]
  generalize (position (tick / spacing)).2 = b at *
  generalize tick / spacing = c at *
  have hb : b.toNat < 256 := b.isLt
  by_cases hZero : word &&& BitSearch.lowMask 256 b.toNat = 0#256
  · rw [if_neg (not_not.mpr hZero)]
    have hClear : ∀ k, c / 256 * 256 ≤ k → k ≤ c → src.bitSet k = false := by
      intro k hLow hHigh
      rw [bitSet_in_word hWord (by omega)]
      exact BitSearch.getLsbD_of_lowMask_zero hb hZero (by omega)
    refine ⟨c / 256 * 256, ?_, le_rfl, by omega, fun k hk => hClear k hk.le, fun _ => rfl⟩
    have hm : c - (b.toNat : Int) = c / 256 * 256 := by omega
    rw [hm, hMul _ le_rfl (by omega), hClear _ le_rfl (by omega)]
  · rw [if_pos hZero]
    obtain ⟨k, hk, hHighest⟩ := bits.highest _ hZero
    obtain ⟨hkb, hSet, hAbove⟩ := BitSearch.highest_of_lowMask hb hHighest
    have hSub : ((b - k).toNat : Int) = b.toNat - k.toNat := by
      rw [BitVec.toNat_sub_of_le hkb]
      omega
    have hm : c - ((b - k).toNat : Int) = c / 256 * 256 + k.toNat := by omega
    have hmSet : src.bitSet (c / 256 * 256 + k.toNat) = true := by
      rw [bitSet_in_word hWord (by omega)]
      rwa [show ((c / 256 * 256 + k.toNat) % 256).toNat = k.toNat by omega]
    refine ⟨c / 256 * 256 + k.toNat, ?_, by omega, by omega, ?_, by simp [hmSet]⟩
    · simp only [hk, bind, Except.bind, pure, Except.pure]
      rw [hm, hMul _ (by omega) (by omega), hmSet]
    · intro j hLow hHigh
      rw [bitSet_in_word hWord (by omega)]
      exact hAbove _ (by omega) (by omega)

/-- Above the tick: the lowest set bit from the next position on, else its word's highest position. -/
theorem nextInitializedTickSrc_gt (bits : M.BitLaws) (hs : SpacingRange spacing) (ht : TickRange tick)
    (hTop : tick / spacing + 1 < 2 ^ 23) {word : U256} (hWord : src.bitmapWord ((tick / spacing + 1) / 256) = some word) :
    ∃ m, nextInitializedTickSrc M src tick spacing false = .ok (some (m * spacing, src.bitSet m)) ∧
      tick / spacing + 1 ≤ m ∧ m ≤ (tick / spacing + 1) / 256 * 256 + 255 ∧
      (∀ k, tick / spacing + 1 ≤ k → k < m → src.bitSet k = false) ∧
      (src.bitSet m = false → m = (tick / spacing + 1) / 256 * 256 + 255) := by
  have hc := compressed_range hs ht
  have hNext : wrapI32 (tick / spacing + 1) = tick / spacing + 1 := wrapI32_eq (by omega) (by omega)
  obtain ⟨hPos, hBit⟩ := position_eq (c := tick / spacing + 1) (by omega) (by omega)
  have hMul := fun m => mul_spacing_eq (m := m) hs ht
  unfold nextInitializedTickSrc
  simp only [compressTick_eq hs ht, Bool.false_eq_true, if_false, hNext, hPos, hWord,
    ← BitSearch.highMask.eq_1]
  generalize (position (tick / spacing + 1)).2 = b at *
  generalize tick / spacing = c at *
  have hb : b.toNat < 256 := b.isLt
  by_cases hZero : word &&& BitSearch.highMask 256 b.toNat = 0#256
  · rw [if_neg (not_not.mpr hZero)]
    have hClear : ∀ k, c + 1 ≤ k → k ≤ (c + 1) / 256 * 256 + 255 → src.bitSet k = false := by
      intro k hLow hHigh
      rw [bitSet_in_word hWord (by omega)]
      exact BitSearch.getLsbD_of_highMask_zero hb hZero (by omega)
    refine ⟨(c + 1) / 256 * 256 + 255, ?_, by omega, le_rfl, fun k hLow hk => hClear k hLow hk.le,
      fun _ => rfl⟩
    have hSub : ((255#8 - b).toNat : Int) = 255 - b.toNat := by
      rw [BitVec.toNat_sub_of_le (by show b.toNat ≤ 255; omega)]
      show ((255 - b.toNat : Nat) : Int) = _
      omega
    have hm : c + 1 + ((255#8 - b).toNat : Int) = (c + 1) / 256 * 256 + 255 := by omega
    rw [hm, hMul _ (by omega) le_rfl, hClear _ (by omega) le_rfl]
  · rw [if_pos hZero]
    obtain ⟨k, hk, hLowest⟩ := bits.lowest _ hZero
    obtain ⟨hbk, hkLt, hSet, hBelow⟩ := BitSearch.lowest_of_highMask hb hLowest
    have hSub : ((k - b).toNat : Int) = k.toNat - b.toNat := by
      rw [BitVec.toNat_sub_of_le hbk]
      omega
    have hm : c + 1 + ((k - b).toNat : Int) = (c + 1) / 256 * 256 + k.toNat := by omega
    have hmSet : src.bitSet ((c + 1) / 256 * 256 + k.toNat) = true := by
      rw [bitSet_in_word hWord (by omega)]
      rwa [show (((c + 1) / 256 * 256 + k.toNat) % 256).toNat = k.toNat by omega]
    refine ⟨(c + 1) / 256 * 256 + k.toNat, ?_, by omega, by omega, ?_, by simp [hmSet]⟩
    · simp only [hk, bind, Except.bind, pure, Except.pure]
      rw [hm, hMul _ (by omega) (by omega), hmSet]
    · intro j hLow hHigh
      rw [bitSet_in_word hWord (by omega)]
      exact hBelow _ (by omega) (by omega)

theorem nextInitializedTickSrc_found (bits : M.BitLaws) (hs : SpacingRange spacing) (ht : TickRange tick)
    {lte : Bool} (hTop : lte = false → tick / spacing + 1 < 2 ^ 23) {next : Int}
    (h : nextInitializedTickSrc M src tick spacing lte = .ok (some (next, true))) :
    ∃ m, next = m * spacing ∧ m / 256 = walkWord tick spacing lte ∧ src.bitSet m = true := by
  rw [walkWord_eq hs ht hTop]
  cases hWord : src.bitmapWord (probeWord tick spacing lte) with
  | none =>
    rw [nextInitializedTickSrc_unknown hs ht hTop hWord] at h
    cases h
  | some word =>
    cases lte with
    | true =>
      obtain ⟨m, hEval, hLow, hHigh, _⟩ := nextInitializedTickSrc_lte bits hs ht hWord
      rw [hEval, Except.ok.injEq, Option.some.injEq, Prod.mk.injEq] at h
      exact ⟨m, h.1.symm, by simp only [probeWord, if_true]; omega, h.2⟩
    | false =>
      obtain ⟨m, hEval, hLow, hHigh, _⟩ := nextInitializedTickSrc_gt bits hs ht (hTop rfl) hWord
      rw [hEval, Except.ok.injEq, Option.some.injEq, Prod.mk.injEq] at h
      exact ⟨m, h.1.symm, by simp only [probeWord, Bool.false_eq_true, if_false]; omega, h.2⟩

theorem nextInitializedTickSrc_down (bits : M.BitLaws) (hs : SpacingRange spacing) (ht : TickRange tick)
    {next : Int} {initialized : Bool}
    (h : nextInitializedTickSrc M src tick spacing true = .ok (some (next, initialized))) :
    src.initialized spacing next = initialized ∧ next ≤ tick ∧
      ∀ u, next < u → u ≤ tick → src.initialized spacing u = false := by
  have hPos := hs.pos
  cases hWord : src.bitmapWord (tick / spacing / 256) with
  | none =>
    have hUnknown : src.bitmapWord (probeWord tick spacing true) = none := by simpa [probeWord] using hWord
    rw [nextInitializedTickSrc_unknown hs ht (fun hUp => absurd hUp (by decide)) hUnknown] at h
    cases h
  | some word =>
    obtain ⟨m, hEval, _, hHigh, hClear, _⟩ := nextInitializedTickSrc_lte bits hs ht hWord
    rw [hEval] at h
    cases h
    refine ⟨src.initialized_mul (by omega) m, ?_, ?_⟩
    · exact (Int.le_ediv_iff_mul_le (by omega)).mp hHigh
    · intro u hLow hHigh
      by_cases hDvd : u % spacing = 0
      · obtain ⟨k, rfl⟩ := Int.dvd_of_emod_eq_zero hDvd
        rw [Int.mul_comm spacing k] at hLow hHigh ⊢
        rw [src.initialized_mul (by omega)]
        exact hClear k (lt_of_mul_lt_mul_right hLow (by omega)) ((Int.le_ediv_iff_mul_le (by omega)).mpr hHigh)
      · simp [TickSource.initialized, hDvd]

theorem nextInitializedTickSrc_up (bits : M.BitLaws) (hs : SpacingRange spacing) (ht : TickRange tick)
    (hTop : tick / spacing + 1 < 2 ^ 23) {next : Int} {initialized : Bool}
    (h : nextInitializedTickSrc M src tick spacing false = .ok (some (next, initialized))) :
    src.initialized spacing next = initialized ∧ tick < next ∧
      ∀ u, tick < u → u < next → src.initialized spacing u = false := by
  have hPos := hs.pos
  cases hWord : src.bitmapWord ((tick / spacing + 1) / 256) with
  | none =>
    rw [nextInitializedTickSrc_unknown hs ht (fun _ => hTop) (by simpa [probeWord] using hWord)] at h
    cases h
  | some word =>
    obtain ⟨m, hEval, hLow, _, hClear, _⟩ := nextInitializedTickSrc_gt bits hs ht hTop hWord
    rw [hEval] at h
    cases h
    refine ⟨src.initialized_mul (by omega) m, ?_, ?_⟩
    · exact (Int.ediv_lt_iff_lt_mul (by omega)).mp (by omega)
    · intro u hLow hHigh
      by_cases hDvd : u % spacing = 0
      · obtain ⟨k, rfl⟩ := Int.dvd_of_emod_eq_zero hDvd
        rw [Int.mul_comm spacing k] at hLow hHigh ⊢
        rw [src.initialized_mul (by omega)]
        have hk : tick / spacing < k := (Int.ediv_lt_iff_lt_mul (by omega)).mpr hLow
        exact hClear k (by omega) (lt_of_mul_lt_mul_right hHigh (by omega))
      · simp [TickSource.initialized, hDvd]

end Search

end Robinarb
