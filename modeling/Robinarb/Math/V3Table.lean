import Robinarb.Math.V3
import Robinarb.Math.ReferenceMath

/-! # The reference walk over a tick table

`get_amount_out` and `try_swap` of the tests, over a `TickTable`, and the production walk
over a source that serves the same maps. The reference asks for its window before it
searches; the production search meets the end of the window as a word that is not there.
-/

namespace Robinarb

/-- The windowed tick map: a word outside the window is unknown. -/
structure TickTable where
  bitmap : Int → Option U256
  ticks : Int → Option I128
  minWord : Int
  maxWord : Int

namespace TickTable

def liquidityNet (table : TickTable) (tick : Int) : I128 := (table.ticks tick).getD 0#128

def wordInWindow (table : TickTable) (word : Int) : Bool :=
  decide (table.minWord ≤ word) && decide (word ≤ table.maxWord)

end TickTable

/-- `WindowedMapSource`: the lazy source of the tests over the maps of a table. -/
def windowedMapSource (table : TickTable) : TickSource where
  bitmapWord word :=
    if word < table.minWord ∨ table.maxWord < word then none else some ((table.bitmap word).getD 0#256)
  liquidityNet tick := (table.ticks tick).getD 0#128

/-- The type of `next_initialized_tick_within_one_word` of the crate: a map of words, a
tick, the spacing and the direction. -/
abbrev NextTick (ε : Type) := (Int → Option U256) → Int → Int → Bool → Except ε (Int × Bool)

/-- The bit of a compressed tick, in a map whose absent words are zero. -/
def mapBit (bitmap : Int → Option U256) (compressed : Int) : Bool :=
  ((bitmap (compressed / 256)).getD 0#256).getLsbD (compressed % 256).toNat

/-- The crate's search is `TickBitmap.nextInitializedTickWithinOneWord` over the map: at or
below the tick the last set bit of its word, above it the first of the word of the next
position, and the end of the word where there is none. -/
structure NextTickLaws {ε : Type} (nextTick : NextTick ε) : Prop where
  lte : ∀ bitmap tick spacing, SpacingRange spacing → TickRange tick →
    ∃ m, nextTick bitmap tick spacing true = .ok (m * spacing, mapBit bitmap m) ∧
      BitSearch.LastBelow (mapBit bitmap) (tick / spacing / 256 * 256) (tick / spacing) m
  gt : ∀ bitmap tick spacing, SpacingRange spacing → TickRange tick → tick / spacing + 1 < 2 ^ 23 →
    ∃ m, nextTick bitmap tick spacing false = .ok (m * spacing, mapBit bitmap m) ∧
      BitSearch.FirstAbove (mapBit bitmap) (tick / spacing + 1) ((tick / spacing + 1) / 256 * 256 + 255) m

section Walk

variable {ε : Type} (M : SwapMath ε) (nextTick : NextTick ε) (table : TickTable) (p : SwapParams)

/-- The `while` loop of `try_swap`. The tail of its iteration reads nothing of the table
but nets. -/
def tableBody : BoundedLoop.Body SwapState SwapReport ε := fun s =>
  if s.amountRemaining ≠ 0#256 ∧ s.sqrtPrice ≠ sqrtPriceLimit p.zeroForOne then
    let compressed := compressTick s.tick p.tickSpacing
    let probeWord :=
      if p.zeroForOne then asI16 (compressed >>> (8 : Nat))
      else asI16 (wrapI32 (compressed + 1) >>> (8 : Nat))
    if ¬table.wordInWindow probeWord then
      .ok none
    else do
      let (next, initialized) ← nextTick table.bitmap s.tick p.tickSpacing p.zeroForOne
      stepTowards M ⟨table.bitmap, table.liquidityNet⟩ p s (clampTick next) initialized
  else
    .ok none

def trySwap (amountIn sqrtPriceX96 : U256) (startTick : Int) (startLiquidity : U128) : Except ε U256 :=
  if amountIn = 0#256 then
    .ok 0#256
  else
    (BoundedLoop.run (tableBody M nextTick table p) 1024
      (startState amountIn sqrtPriceX96 startTick startLiquidity)).map fun final => -final.1.amountCalculated

def getAmountOut (amountIn sqrtPriceX96 : U256) (startTick : Int) (startLiquidity : U128) : U256 :=
  match trySwap M nextTick table p amountIn sqrtPriceX96 startTick startLiquidity with
  | .ok out => out
  | .error _ => 0#256

end Walk

section Agreement

variable {ε : Type} {M : SwapMath ε} {nextTick : NextTick ε} {table : TickTable} {p : SwapParams}
  {tick spacing : Int}

theorem windowed_outside {word : Int} (h : table.wordInWindow word = false) :
    (windowedMapSource table).bitmapWord word = none := by
  simp only [TickTable.wordInWindow, Bool.and_eq_false_iff, decide_eq_false_iff_not, not_le] at h
  exact if_pos h

theorem windowed_inside {word : Int} (h : table.wordInWindow word = true) :
    (windowedMapSource table).bitmapWord word = some ((table.bitmap word).getD 0#256) := by
  simp only [TickTable.wordInWindow, Bool.and_eq_true, decide_eq_true_eq] at h
  exact if_neg (by omega)

theorem windowed_bitSet {m : Int} (h : table.wordInWindow (m / 256) = true) :
    (windowedMapSource table).bitSet m = mapBit table.bitmap m :=
  TickSource.bitSet_of_word (windowed_inside h)

theorem search_lte (bits : M.BitLaws) (laws : NextTickLaws nextTick) (hs : SpacingRange spacing) (ht : TickRange tick)
    (hIn : table.wordInWindow (tick / spacing / 256) = true) :
    nextInitializedTickSrc M (windowedMapSource table) tick spacing true =
      (nextTick table.bitmap tick spacing true).map some := by
  obtain ⟨m, hSrc, hLow, hHigh, hClear, hEdge⟩ := nextInitializedTickSrc_lte bits hs ht (windowed_inside hIn)
  obtain ⟨n, hMap, hLast⟩ := laws.lte table.bitmap tick spacing hs ht
  have agree : ∀ k, tick / spacing / 256 * 256 ≤ k → k ≤ tick / spacing →
      (windowedMapSource table).bitSet k = mapBit table.bitmap k := by
    intro k hkLow hkHigh
    apply windowed_bitSet
    rwa [show k / 256 = tick / spacing / 256 by omega]
  have hSame : m = n := BitSearch.LastBelow.unique ⟨hLow, hHigh, hClear, hEdge⟩ (hLast.congr agree)
  rw [hSrc, hMap, agree m hLow hHigh, hSame]
  rfl

theorem search_gt (bits : M.BitLaws) (laws : NextTickLaws nextTick) (hs : SpacingRange spacing) (ht : TickRange tick)
    (hTop : tick / spacing + 1 < 2 ^ 23) (hIn : table.wordInWindow ((tick / spacing + 1) / 256) = true) :
    nextInitializedTickSrc M (windowedMapSource table) tick spacing false =
      (nextTick table.bitmap tick spacing false).map some := by
  obtain ⟨m, hSrc, hLow, hHigh, hClear, hEdge⟩ := nextInitializedTickSrc_gt bits hs ht hTop (windowed_inside hIn)
  obtain ⟨n, hMap, hFirst⟩ := laws.gt table.bitmap tick spacing hs ht hTop
  have agree : ∀ k, tick / spacing + 1 ≤ k → k ≤ (tick / spacing + 1) / 256 * 256 + 255 →
      (windowedMapSource table).bitSet k = mapBit table.bitmap k := by
    intro k hkLow hkHigh
    apply windowed_bitSet
    rwa [show k / 256 = (tick / spacing + 1) / 256 by omega]
  have hSame : m = n := BitSearch.FirstAbove.unique ⟨hLow, hHigh, hClear, hEdge⟩ (hFirst.congr agree)
  rw [hSrc, hMap, agree m hLow hHigh, hSame]
  rfl

/-- The probe of the reference before its search is the failed lookup of the lazy one. -/
theorem search_windowed (bits : M.BitLaws) (laws : NextTickLaws nextTick) (hs : SpacingRange spacing)
    (ht : TickRange tick) (hTop : tick / spacing + 1 < 2 ^ 23) (lte : Bool) :
    nextInitializedTickSrc M (windowedMapSource table) tick spacing lte =
      if table.wordInWindow (walkWord tick spacing lte) then (nextTick table.bitmap tick spacing lte).map some
      else .ok none := by
  cases hIn : table.wordInWindow (walkWord tick spacing lte) with
  | false => exact nextInitializedTickSrc_stop (windowed_outside hIn)
  | true =>
    rw [walkWord_eq hs ht fun _ => hTop] at hIn
    cases lte with
    | true => exact search_lte bits laws hs ht hIn
    | false => exact search_gt bits laws hs ht hTop hIn

theorem tableBody_eq (bits : M.BitLaws) (laws : NextTickLaws nextTick) (hs : SpacingRange p.tickSpacing)
    {s : SwapState} (ht : TickRange s.tick) (hTop : s.tick / p.tickSpacing + 1 < 2 ^ 23) :
    tableBody M nextTick table p s = swapBody M (windowedMapSource table) p s := by
  have hProbe : (if p.zeroForOne then asI16 (compressTick s.tick p.tickSpacing >>> (8 : Nat))
      else asI16 (wrapI32 (compressTick s.tick p.tickSpacing + 1) >>> (8 : Nat))) =
      walkWord s.tick p.tickSpacing p.zeroForOne := rfl
  unfold tableBody swapBody
  rw [search_windowed bits laws hs ht hTop]
  simp only [hProbe]
  split
  · cases table.wordInWindow (walkWord s.tick p.tickSpacing p.zeroForOne) with
    | false => rfl
    | true =>
      cases nextTick table.bitmap s.tick p.tickSpacing p.zeroForOne with
      | error e => rfl
      | ok found => exact stepTowards_congr s fun _ => rfl
  · rfl

theorem tableWalk_eq (bits : M.BitLaws) (within : M.TickWithin) (laws : NextTickLaws nextTick)
    (hs : SpacingRange p.tickSpacing) {s : SwapState} (hLow : minTick ≤ s.tick) (hHigh : s.tick ≤ maxTick) (n : Nat) :
    BoundedLoop.run (tableBody M nextTick table p) n s = BoundedLoop.run (swapBody M (windowedMapSource table) p) n s := by
  apply BoundedLoop.run_congr
  intro t hVisited
  have hTick : minTick - 1 ≤ t.tick ∧ t.tick ≤ maxTick := by
    obtain hStart | hBetween := visited_walkTick within s n t hVisited
    · omega
    · exact hBetween
  refine tableBody_eq bits laws hs ?_ (compressed_succ_lt hs hTick.2)
  unfold minTick maxTick at hTick
  exact ⟨by omega, by omega⟩

/-- The lazy walk is the reference walk over the same maps and the same window, errors included. -/
theorem lazy_walk_eq_table_walk (bits : M.BitLaws) (within : M.TickWithin) (laws : NextTickLaws nextTick)
    (hs : SpacingRange p.tickSpacing) (hLow : minTick ≤ tick) (hHigh : tick ≤ maxTick)
    (table : TickTable) (amountIn sqrtPriceX96 : U256) (liquidity : U128) :
    trySwapSrc M (windowedMapSource table) p amountIn sqrtPriceX96 tick liquidity =
        trySwap M nextTick table p amountIn sqrtPriceX96 tick liquidity ∧
      getAmountOutSrc M (windowedMapSource table) p amountIn sqrtPriceX96 tick liquidity =
        getAmountOut M nextTick table p amountIn sqrtPriceX96 tick liquidity := by
  have hSwap : trySwapSrc M (windowedMapSource table) p amountIn sqrtPriceX96 tick liquidity =
      trySwap M nextTick table p amountIn sqrtPriceX96 tick liquidity := by
    unfold trySwapSrc trySwap swapWalk
    rw [tableWalk_eq (s := startState amountIn sqrtPriceX96 tick liquidity) bits within laws hs hLow hHigh]
  constructor
  · exact hSwap
  · exact congrArg (fun r => match r with | .ok out => out | .error _ => 0#256) hSwap

/-- A search over a map of words by trying the positions of the word in turn. -/
def referenceNextTick : NextTick Unit := fun bitmap tick spacing lte =>
  if lte then
    let compressed := tick / spacing
    match (List.range ((compressed % 256).toNat + 1)).find? fun (i : Nat) => mapBit bitmap (compressed - i) with
    | some i => .ok ((compressed - i) * spacing, true)
    | none => .ok (compressed / 256 * 256 * spacing, false)
  else
    let next := tick / spacing + 1
    match (List.range (256 - (next % 256).toNat)).find? fun (i : Nat) => mapBit bitmap (next + i) with
    | some i => .ok ((next + i) * spacing, true)
    | none => .ok ((next / 256 * 256 + 255) * spacing, false)

theorem referenceNextTick_laws : NextTickLaws referenceNextTick where
  lte bitmap tick spacing _ _ := by
    unfold referenceNextTick
    simp only [if_true]
    generalize tick / spacing = c
    cases hFind : (List.range ((c % 256).toNat + 1)).find? fun (i : Nat) => mapBit bitmap (c - i) with
    | some i =>
      obtain ⟨hSet, hMem, hBefore⟩ := List.find?_range_eq_some.mp hFind
      rw [List.mem_range] at hMem
      refine ⟨c - i, by rw [hSet], by omega, by omega, ?_, by simp [hSet]⟩
      intro k hLow hHigh
      have hClear := hBefore (c - k).toNat (by omega)
      rwa [show c - ((c - k).toNat : Int) = k by omega, Bool.not_eq_true'] at hClear
    | none =>
      have hClear : ∀ k, c / 256 * 256 ≤ k → k ≤ c → mapBit bitmap k = false := by
        intro k hLow hHigh
        have hNone := List.find?_range_eq_none.mp hFind (c - k).toNat (by omega)
        rwa [show c - ((c - k).toNat : Int) = k by omega, Bool.not_eq_true'] at hNone
      refine ⟨c / 256 * 256, by rw [hClear _ le_rfl (by omega)], le_rfl, by omega, ?_, fun _ => rfl⟩
      intro k hLow hHigh
      exact hClear k hLow.le hHigh
  gt bitmap tick spacing _ _ _ := by
    unfold referenceNextTick
    simp only [Bool.false_eq_true, if_false]
    generalize tick / spacing + 1 = c
    cases hFind : (List.range (256 - (c % 256).toNat)).find? fun (i : Nat) => mapBit bitmap (c + i) with
    | some i =>
      obtain ⟨hSet, hMem, hBefore⟩ := List.find?_range_eq_some.mp hFind
      rw [List.mem_range] at hMem
      refine ⟨c + i, by rw [hSet], by omega, by omega, ?_, by simp [hSet]⟩
      intro k hLow hHigh
      have hClear := hBefore (k - c).toNat (by omega)
      rwa [show c + ((k - c).toNat : Int) = k by omega, Bool.not_eq_true'] at hClear
    | none =>
      have hClear : ∀ k, c ≤ k → k ≤ c / 256 * 256 + 255 → mapBit bitmap k = false := by
        intro k hLow hHigh
        have hNone := List.find?_range_eq_none.mp hFind (k - c).toNat (by omega)
        rwa [show c + ((k - c).toNat : Int) = k by omega, Bool.not_eq_true'] at hNone
      refine ⟨c / 256 * 256 + 255, by rw [hClear _ (by omega) le_rfl], by omega, le_rfl, ?_, fun _ => rfl⟩
      intro k hLow hHigh
      exact hClear k hLow hHigh.le

/-- The ticks -256 to 255 at spacing 1, with liquidity that ends at tick 5. -/
def narrowTable : TickTable where
  bitmap word := if word = 0 then some (1#256 <<< 5) else none
  ticks tick := if tick = 5 then some (-1000000000000) else none
  minWord := -1
  maxWord := 0

theorem narrowTable_walked :
    trySwapSrc referenceMath (windowedMapSource narrowTable) ⟨false, 3000, 1⟩ 1000000000000000000000000000000
        79228162514264337593543950336 0 1000000000000 =
        trySwap referenceMath referenceNextTick narrowTable ⟨false, 3000, 1⟩ 1000000000000000000000000000000
          79228162514264337593543950336 0 1000000000000 ∧
      getAmountOutSrc referenceMath (windowedMapSource narrowTable) ⟨false, 3000, 1⟩ 1000000000000000000000000000000
          79228162514264337593543950336 0 1000000000000 =
        getAmountOut referenceMath referenceNextTick narrowTable ⟨false, 3000, 1⟩ 1000000000000000000000000000000
          79228162514264337593543950336 0 1000000000000 :=
  lazy_walk_eq_table_walk referenceMath_bitLaws referenceMath_tickWithin referenceNextTick_laws
    ⟨by decide, by decide⟩ (by decide) (by decide) narrowTable _ _ _

end Agreement

end Robinarb
