import Robinarb.Math.V3
import Robinarb.Math.ReferenceMath

/-! # Unhydrated words only lower a quote

Two sources that agree where the first knows a word drive the walk in lockstep
until the first gives up, so its reports are a prefix of the other's.
-/

namespace Robinarb

/-- Every word known to `src` is known to `full` with the same bits, and the nets agree. -/
structure TickSource.PartOf (src full : TickSource) : Prop where
  words : ∀ word bits, src.bitmapWord word = some bits → full.bitmapWord word = some bits
  nets : ∀ tick, src.liquidityNet tick = full.liquidityNet tick

def totalOut (reports : List SwapReport) : Nat := (reports.map fun r => r.amountOut.toNat).sum

theorem totalOut_le_of_prefix {shorter reports : List SwapReport} (h : shorter <+: reports) :
    totalOut shorter ≤ totalOut reports := by
  obtain ⟨rest, rfl⟩ := h
  simp only [totalOut, List.map_append, List.sum_append]
  omega

section Lockstep

variable {ε : Type} {M : SwapMath ε} {src full : TickSource} {p : SwapParams}

theorem nextInitializedTickSrc_part (h : src.PartOf full) (tick spacing : Int) (lte : Bool) :
    nextInitializedTickSrc M src tick spacing lte = .ok none ∨
      nextInitializedTickSrc M src tick spacing lte = nextInitializedTickSrc M full tick spacing lte := by
  cases hWord : src.bitmapWord (walkWord tick spacing lte) with
  | none => exact .inl (nextInitializedTickSrc_stop hWord)
  | some bits => exact .inr (nextInitializedTickSrc_congr (hWord.trans (h.words _ _ hWord).symm))

theorem swapBody_part (h : src.PartOf full) (s : SwapState) :
    swapBody M src p s = .ok none ∨ swapBody M src p s = swapBody M full p s := by
  unfold swapBody
  split
  · obtain hStop | hSame := nextInitializedTickSrc_part h s.tick p.tickSpacing p.zeroForOne
    · exact .inl (by rw [hStop]; rfl)
    · have hStep : ∀ nextTick initialized, stepTowards M src p s nextTick initialized =
          stepTowards M full p s nextTick initialized :=
        fun _ _ => stepTowards_congr s fun _ => h.nets _
      refine .inr ?_
      rw [hSame]
      simp only [hStep]
  · exact .inl rfl

theorem swapWalk_amountCalculated {s final : SwapState} {reports : List SwapReport}
    (h : swapWalk M src p s = .ok (final, reports)) :
    final.amountCalculated = s.amountCalculated - BitVec.ofNat 256 (totalOut reports) := by
  refine (BoundedLoop.run_induct (fun _ => True)
    (fun s reports final =>
      final.amountCalculated = s.amountCalculated - BitVec.ofNat 256 (totalOut reports))
    (fun _ _ _ _ _ => trivial) ?_ ?_ trivial h).1
  · intro s _
    simp [totalOut]
  · intro s t r reports final _ hBody hLater
    obtain ⟨_, _, _, _, _, _, _, _, _, _, _, _, hSettle⟩ := swapBody_next hBody
    obtain ⟨_, hCalculated, hOut, _⟩ := settleStep_cases hSettle
    have hCons : totalOut (r :: reports) = r.amountOut.toNat + totalOut reports := by
      simp [totalOut]
    rw [hLater, hCalculated, ← hOut, hCons, BitVec.ofNat_add, BitVec.ofNat_toNat, BitVec.setWidth_eq,
      BitVec.sub_sub]

theorem getAmountOutSrc_toNat {amountIn sqrtPriceX96 : U256} {tick : Int} {liquidity : U128}
    {final : SwapState} {reports : List SwapReport}
    (hWalk : swapWalk M src p (startState amountIn sqrtPriceX96 tick liquidity) = .ok (final, reports))
    (hTotal : totalOut reports < 2 ^ 255) :
    trySwapSrc M src p amountIn sqrtPriceX96 tick liquidity = .ok (BitVec.ofNat 256 (totalOut reports)) ∧
      (getAmountOutSrc M src p amountIn sqrtPriceX96 tick liquidity).toNat = totalOut reports := by
  have hOut : trySwapSrc M src p amountIn sqrtPriceX96 tick liquidity =
      .ok (BitVec.ofNat 256 (totalOut reports)) := by
    unfold trySwapSrc
    split
    · rename_i hZero
      rw [hZero, swapWalk, BoundedLoop.run_of_stop (startState_zero_stops _ _ _)] at hWalk
      cases hWalk
      rfl
    · rw [hWalk]
      have hCalculated := swapWalk_amountCalculated hWalk
      simp only [startState, BitVec.zero_sub] at hCalculated
      simp only [Except.map, hCalculated, BitVec.neg_neg]
  refine ⟨hOut, ?_⟩
  rw [getAmountOutSrc, hOut]
  simp only [BitVec.toNat_ofNat]
  exact Nat.mod_eq_of_lt (by omega)

/-- A quote over part of a source succeeds when the full quote does and is never
larger; with the first probed word unknown it is zero. -/
theorem getAmountOutSrc_le_of_partOf (hPart : src.PartOf full) (hs : SpacingRange p.tickSpacing)
    {amountIn sqrtPriceX96 : U256} {tick : Int} {liquidity : U128} (hTickLow : minTick ≤ tick)
    (hTickHigh : tick ≤ maxTick) {out : U256}
    (h : trySwapSrc M full p amountIn sqrtPriceX96 tick liquidity = .ok out)
    (hTotal : ∀ final reports,
      swapWalk M full p (startState amountIn sqrtPriceX96 tick liquidity) = .ok (final, reports) →
        totalOut reports < 2 ^ 255) :
    (∃ out', trySwapSrc M src p amountIn sqrtPriceX96 tick liquidity = .ok out') ∧
    getAmountOutSrc M src p amountIn sqrtPriceX96 tick liquidity ≤
      getAmountOutSrc M full p amountIn sqrtPriceX96 tick liquidity ∧
    (src.bitmapWord (probeWord tick p.tickSpacing p.zeroForOne) = none →
      getAmountOutSrc M src p amountIn sqrtPriceX96 tick liquidity = 0#256) := by
  obtain ⟨final, reports, hWalk, _⟩ := trySwapSrc_walk h
  have hReports := hTotal final reports hWalk
  obtain ⟨last, shorter, hShort, hPrefix⟩ :=
    BoundedLoop.run_prefix (fun t _ => swapBody_part hPart t) hWalk
  have hLe := totalOut_le_of_prefix hPrefix
  obtain ⟨hOut, hNat⟩ := getAmountOutSrc_toNat hShort (by omega)
  obtain ⟨_, hNatFull⟩ := getAmountOutSrc_toNat hWalk hReports
  refine ⟨⟨_, hOut⟩, ?_, ?_⟩
  · rw [BitVec.le_def, hNat, hNatFull]
    exact hLe
  · intro hUnknown
    have hStop : swapBody M src p (startState amountIn sqrtPriceX96 tick liquidity) = .ok none := by
      unfold swapBody
      split
      · simp only [startState, nextInitializedTickSrc_unknown hs (.of_bounds hTickLow hTickHigh)
          (fun _ => compressed_succ_lt hs hTickHigh) hUnknown]
        rfl
      · rfl
    rw [BoundedLoop.run_of_stop hStop] at hShort
    cases hShort
    apply BitVec.eq_of_toNat_eq
    rw [hNat]
    rfl

end Lockstep

theorem getAmountOutSrc_one_word_le :
    (∃ out, trySwapSrc referenceMath (mapSource [(0, 3#256)] []) ⟨true, 3000#32, 1⟩ 70000000000000#256
      79232123823359799118286999568#256 1 1000000000000000000#128 = .ok out) ∧
    getAmountOutSrc referenceMath (mapSource [(0, 3#256)] []) ⟨true, 3000#32, 1⟩ 70000000000000#256
        79232123823359799118286999568#256 1 1000000000000000000#128 ≤
      getAmountOutSrc referenceMath (mapSource [(0, 3#256), (-1, 1#256 <<< 255)] []) ⟨true, 3000#32, 1⟩
        70000000000000#256 79232123823359799118286999568#256 1 1000000000000000000#128 := by
  have hPart : (mapSource [(0, 3#256)] []).PartOf (mapSource [(0, 3#256), (-1, 1#256 <<< 255)] []) := by
    refine ⟨fun word bits h => ?_, fun _ => rfl⟩
    simp only [mapSource, List.lookup_cons, List.lookup_nil] at h ⊢
    split at h <;> simp_all
  have hTotal : (swapWalk referenceMath (mapSource [(0, 3#256), (-1, 1#256 <<< 255)] [])
      ⟨true, 3000#32, 1⟩ (startState 70000000000000#256 79232123823359799118286999568#256 1
        1000000000000000000#128)).map (fun walk => totalOut walk.2) = .ok 69792107965250 := by
    decide +kernel
  have hFull : trySwapSrc referenceMath (mapSource [(0, 3#256), (-1, 1#256 <<< 255)] []) ⟨true, 3000#32, 1⟩
      70000000000000#256 79232123823359799118286999568#256 1 1000000000000000000#128 = .ok 69792107965250#256 := by
    decide +kernel
  obtain ⟨hOk, hLe, _⟩ := getAmountOutSrc_le_of_partOf hPart ⟨by decide, by decide⟩ (by decide) (by decide)
    hFull (by
      intro final reports h
      rw [h] at hTotal
      have hOut := Except.ok.inj hTotal
      dsimp only at hOut
      omega)
  exact ⟨hOk, hLe⟩

end Robinarb
