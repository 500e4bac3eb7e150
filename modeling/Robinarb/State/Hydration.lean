import Robinarb.Math.ReferenceMath
import Robinarb.Math.V3
import Robinarb.State.SamplePool

/-! # Window hydration agrees with the chain

`hydrate_cl_ticks_for_pool` against a fixed storage: afterwards the reader
returns the on-chain words of the window and the on-chain nets of their bits,
and a walk that stays inside the window cannot tell the reader from the chain.
-/

namespace Robinarb

open CacheFill

section OnChain

variable (keccak : Keccak) (storage : Storage) (plan : ClPlan)

/-- The signed high half of a packed tick-info word. -/
def highNet (word : U256) : I128 := (word >>> 128).setWidth 128

/-- The complete tick data of a pool, straight from storage. -/
def onChainSource : TickSource where
  bitmapWord word := some (storage (bitmapSlot keccak plan.addr plan.bitmapBase word))
  liquidityNet tick := highNet (storage (tickSlot keccak plan.addr plan.ticksBase tick))

/-- The bitmap bits of a pool are ticks inside the protocol's bounds. -/
def BitsInBounds (spacing : Int) : Prop :=
  ∀ (word : Int) (bit : Nat), -2 ^ 15 ≤ word → word < 2 ^ 15 →
    (storage (bitmapSlot keccak plan.addr plan.bitmapBase word)).getLsbD bit = true →
    minTick ≤ (256 * word + bit) * spacing ∧ (256 * word + bit) * spacing ≤ maxTick

/-- The memo holds plan slots only, and no mapping slot of the pool is one. -/
structure MappingSlotsApart (s : ChainState) : Prop where
  memo_planned : ∀ key, (s.memo key).isSome → ∃ q, some q ∈ s.plans ∧ key ∈ ChainState.planSlots q
  bitmap_apart : ∀ word : Int, -2 ^ 15 ≤ word → word < 2 ^ 15 → ∀ q, some q ∈ s.plans →
    bitmapSlot keccak plan.addr plan.bitmapBase word ∉ ChainState.planSlots q
  tick_apart : ∀ tick, minTick ≤ tick → tick ≤ maxTick → ∀ q, some q ∈ s.plans →
    tickSlot keccak plan.addr plan.ticksBase tick ∉ ChainState.planSlots q

/-- The completions of a run of `hydrate_cl_ticks_for_pool`, one list for each batch. -/
structure Hydrates (s : ChainState) (spacing : Int) (first second : List SlotCompletion) : Prop where
  bitmapBatch : Completes (ChainState.windowBitmapSlots keccak
    (s.clTickWindows [(.cl plan, spacing)] bootstrapTickWordRange)) first
  tickBatch : Completes ((s.prefetchTicks first).windowTickSlots keccak
    (s.clTickWindows [(.cl plan, spacing)] bootstrapTickWordRange)) second

def hydrated (s : ChainState) (first second : List SlotCompletion) : ChainState :=
  (s.prefetchTicks first).prefetchTicks second

theorem ClPlan.reader_coherent (s : ChainState) : (plan.reader s).Coherent keccak :=
  ClTickReader.new_coherent keccak _ _ _ _ _

def windowLow (tick spacing : Int) : Int := saturateI16 (tick / spacing / 256 - 64)
def windowHigh (tick spacing : Int) : Int := saturateI16 (tick / spacing / 256 + 64)

end OnChain

theorem saturateI16_range (x : Int) : -2 ^ 15 ≤ saturateI16 x ∧ saturateI16 x < 2 ^ 15 := by
  unfold saturateI16
  omega

theorem rawTick_eq {spacing word : Int} {bit : Nat}
    (hWordLow : -2 ^ 15 ≤ word) (hWordHigh : word < 2 ^ 15) (hBit : bit < 256)
    (hLow : minTick ≤ (256 * word + bit) * spacing) (hHigh : (256 * word + bit) * spacing ≤ maxTick) :
    rawTick word bit spacing = (256 * word + bit) * spacing := by
  unfold minTick at hLow
  unfold maxTick at hHigh
  rw [rawTick, wrapI32_eq (x := word * 256 + bit) (by omega) (by omega), Int.mul_comm word 256]
  apply wrapI32_eq <;> omega

section Hydration

variable {keccak : Keccak} {storage : Storage} {plan : ClPlan} {s : ChainState} {spacing : Int}
  {first second : List SlotCompletion} {word0 : U256}

theorem clTickWindows_packed (hPacked : plan.tickCodec = .packed) (hs : SpacingRange spacing)
    (hSlot0 : s.memo (plan.addr, plan.slot0) = some word0) :
    s.clTickWindows [(.cl plan, spacing)] bootstrapTickWordRange =
      [⟨plan.addr, plan.ticksBase, plan.bitmapBase, spacing,
        windowLow (decodeV3Slot0 word0).2 spacing, windowHigh (decodeV3Slot0 word0).2 spacing⟩] := by
  have ht := decodeV3Slot0_tickRange word0
  have hc := compressed_range hs ht
  have hCenter := (position_eq hc.1 hc.2).1
  simp only [position] at hCenter
  simp only [ChainState.clTickWindows, List.filterMap_cons, List.filterMap_nil, ChainState.clTickWindow,
    hPacked, ChainState.read_of_memo hSlot0, max_eq_left hs.pos, compressTick_eq hs ht, hCenter,
    bootstrapTickWordRange, windowLow, windowHigh]

theorem MappingSlotsApart.bitmap_none (h : MappingSlotsApart keccak plan s) {word : Int}
    (hLow : -2 ^ 15 ≤ word) (hHigh : word < 2 ^ 15) :
    s.memo (bitmapSlot keccak plan.addr plan.bitmapBase word) = none := by
  by_contra hSome
  obtain ⟨q, hPlan, hSlot⟩ := h.memo_planned _ (Option.isSome_iff_ne_none.mpr hSome)
  exact h.bitmap_apart word hLow hHigh q hPlan hSlot

theorem MappingSlotsApart.tick_none (h : MappingSlotsApart keccak plan s) {tick : Int}
    (hLow : minTick ≤ tick) (hHigh : tick ≤ maxTick) :
    s.memo (tickSlot keccak plan.addr plan.ticksBase tick) = none := by
  by_contra hSome
  obtain ⟨q, hPlan, hSlot⟩ := h.memo_planned _ (Option.isSome_iff_ne_none.mpr hSome)
  exact h.tick_apart tick hLow hHigh q hPlan hSlot

section Served

variable (hPacked : plan.tickCodec = .packed) (hs : SpacingRange spacing)
  (hSlot0 : s.memo (plan.addr, plan.slot0) = some word0) (hRun : Hydrates keccak plan s spacing first second)
  (hServed : ∀ completion ∈ first ++ second, completion.2 = some (storage completion.1))

include hPacked hs hSlot0 hRun hServed

theorem hydrates_first_word {word : Int} (hLow : windowLow (decodeV3Slot0 word0).2 spacing ≤ word)
    (hHigh : word ≤ windowHigh (decodeV3Slot0 word0).2 spacing) :
    fill s.tickCache first (bitmapSlot keccak plan.addr plan.bitmapBase word) =
      some (storage (bitmapSlot keccak plan.addr plan.bitmapBase word)) := by
  refine fill_served hRun.bitmapBatch (fun c hc => hServed c (List.mem_append_left _ hc)) ?_ _
  rw [clTickWindows_packed hPacked hs hSlot0]
  simp only [ChainState.windowBitmapSlots, List.flatMap_cons, List.flatMap_nil, List.append_nil]
  exact List.mem_map_of_mem (mem_wordRange.mpr ⟨hLow, hHigh⟩)

theorem hydrates_word {word : Int} (hLow : windowLow (decodeV3Slot0 word0).2 spacing ≤ word)
    (hHigh : word ≤ windowHigh (decodeV3Slot0 word0).2 spacing) :
    (hydrated s first second).tickCache (bitmapSlot keccak plan.addr plan.bitmapBase word) =
      some (storage (bitmapSlot keccak plan.addr plan.bitmapBase word)) :=
  fill_served_keep (fun c hc => hServed c (List.mem_append_right _ hc))
    (hydrates_first_word hPacked hs hSlot0 hRun hServed hLow hHigh)

theorem hydrates_net (hApart : MappingSlotsApart keccak plan s)
    (hBounds : BitsInBounds keccak storage plan spacing) {word : Int} {bit : Nat}
    (hLow : windowLow (decodeV3Slot0 word0).2 spacing ≤ word)
    (hHigh : word ≤ windowHigh (decodeV3Slot0 word0).2 spacing)
    (hSet : (storage (bitmapSlot keccak plan.addr plan.bitmapBase word)).getLsbD bit = true) :
    (hydrated s first second).tickCache
        (tickSlot keccak plan.addr plan.ticksBase ((256 * word + bit) * spacing)) =
      some (storage (tickSlot keccak plan.addr plan.ticksBase ((256 * word + bit) * spacing))) := by
  have hWordLow := hLow.trans' (saturateI16_range _).1
  have hWordHigh := hHigh.trans_lt (saturateI16_range _).2
  obtain ⟨hTickLow, hTickHigh⟩ := hBounds word bit hWordLow hWordHigh hSet
  refine fill_served hRun.tickBatch (fun c hc => hServed c (List.mem_append_right _ hc)) ?_ _
  rw [clTickWindows_packed hPacked hs hSlot0]
  simp only [ChainState.windowTickSlots, List.flatMap_cons, List.flatMap_nil, List.append_nil]
  refine List.mem_flatMap.mpr ⟨word, mem_wordRange.mpr ⟨hLow, hHigh⟩, ?_⟩
  rw [mem_slotsOfBits]
  refine ⟨bit, ?_, ?_⟩
  · rw [ChainState.read_of_memo_none (s := s.prefetchTicks first) (hApart.bitmap_none hWordLow hWordHigh)]
    have hWord := hydrates_first_word hPacked hs hSlot0 hRun hServed hLow hHigh
    simp only [bitmapSlot] at hWord
    rw [ChainState.prefetchTicks_tickCache, hWord]
    exact hSet
  · rw [rawTick_eq hWordLow hWordHigh (BitVec.lt_of_getLsbD hSet) hTickLow hTickHigh]

theorem reader_word {word : Int} (hLow : windowLow (decodeV3Slot0 word0).2 spacing ≤ word)
    (hHigh : word ≤ windowHigh (decodeV3Slot0 word0).2 spacing) :
    ((plan.reader (hydrated s first second)).source keccak).bitmapWord word =
      some (storage (bitmapSlot keccak plan.addr plan.bitmapBase word)) :=
  hydrates_word hPacked hs hSlot0 hRun hServed hLow hHigh

theorem reader_net (hApart : MappingSlotsApart keccak plan s)
    (hBounds : BitsInBounds keccak storage plan spacing) {word : Int} {bit : Nat}
    (hLow : windowLow (decodeV3Slot0 word0).2 spacing ≤ word)
    (hHigh : word ≤ windowHigh (decodeV3Slot0 word0).2 spacing)
    (hSet : (storage (bitmapSlot keccak plan.addr plan.bitmapBase word)).getLsbD bit = true) :
    (plan.reader (hydrated s first second)).liquidityNet keccak ((256 * word + bit) * spacing) =
      highNet (storage (tickSlot keccak plan.addr plan.ticksBase ((256 * word + bit) * spacing))) := by
  have hWordLow := hLow.trans' (saturateI16_range _).1
  have hWordHigh := hHigh.trans_lt (saturateI16_range _).2
  obtain ⟨hTickLow, hTickHigh⟩ := hBounds word bit hWordLow hWordHigh hSet
  have hNet := hydrates_net hPacked hs hSlot0 hRun hServed hApart hBounds hLow hHigh hSet
  have hMemo := hApart.tick_none hTickLow hTickHigh
  simp only [tickSlot] at hNet hMemo
  simp only [ClPlan.reader, ClTickReader.new, ClTickReader.liquidityNet, hPacked, ClTickReader.rd, highNet,
    tickSlot]
  rw [ChainState.read_of_memo_none (by exact hMemo), hNet]
  rfl

end Served

/-- Inside a window the successor of a compressed tick has a word: past the last
`int24` word the probe wraps to the first one, which no window reaches from there. -/
theorem succ_lt_of_inside (hs : SpacingRange spacing) {startTick tick : Int} (hStart : TickRange startTick)
    (hTick : WalkTick startTick tick) (hLow : windowLow startTick spacing ≤ walkWord tick spacing false) :
    tick / spacing + 1 < 2 ^ 23 := by
  obtain ⟨hPos, _⟩ := hs
  by_contra hTop
  have hMul : (2 ^ 23 - 1) * spacing ≤ tick := (Int.le_ediv_iff_mul_le (by omega)).mp (by omega)
  obtain rfl | ⟨_, hMax⟩ := hTick
  · obtain ⟨_, hHigh⟩ := hStart
    obtain rfl : spacing = 1 := by omega
    obtain rfl : tick = 2 ^ 23 - 1 := by omega
    exact absurd hLow (by decide)
  · unfold maxTick at hMax
    omega

theorem WalkTick.range {startTick tick : Int} (hStart : TickRange startTick)
    (h : WalkTick startTick tick) : TickRange tick := by
  obtain rfl | ⟨hLow, hHigh⟩ := h
  · exact hStart
  · unfold minTick at hLow
    unfold maxTick at hHigh
    exact ⟨by omega, by omega⟩

/-- A bit the walk finds in the on-chain words is a bit of the word it probed. -/
theorem onChain_found {ε : Type} {M : SwapMath ε} (bits : M.BitLaws) (hs : SpacingRange spacing)
    {tick found : Int} {lte : Bool} (ht : TickRange tick) (hTop : lte = false → tick / spacing + 1 < 2 ^ 23)
    (h : nextInitializedTickSrc M (onChainSource keccak storage plan) tick spacing lte =
      .ok (some (found, true))) :
    ∃ bit : Nat, found = (256 * walkWord tick spacing lte + bit) * spacing ∧
      (storage (bitmapSlot keccak plan.addr plan.bitmapBase (walkWord tick spacing lte))).getLsbD bit = true := by
  obtain ⟨m, rfl, hWord, hSet⟩ := nextInitializedTickSrc_found bits hs ht hTop h
  refine ⟨(m % 256).toNat, ?_, ?_⟩
  · rw [← hWord]
    congr 1
    omega
  · rw [← hWord]
    exact hSet

/-- `hydrate_cl_ticks_for_pool` with every read served by one storage: inside the
window the reader answers with the on-chain words and nets, and a walk that stays
inside it quotes what the walk over the chain quotes. -/
theorem hydrateClTicksForPool_agrees (hPacked : plan.tickCodec = .packed) (hs : SpacingRange spacing)
    (hSlot0 : s.memo (plan.addr, plan.slot0) = some word0)
    (hRun : Hydrates keccak plan s spacing first second)
    (hServed : ∀ completion ∈ first ++ second, completion.2 = some (storage completion.1))
    (hApart : MappingSlotsApart keccak plan s) (hBounds : BitsInBounds keccak storage plan spacing) :
    (∀ word, windowLow (decodeV3Slot0 word0).2 spacing ≤ word →
      word ≤ windowHigh (decodeV3Slot0 word0).2 spacing →
      ((plan.reader (hydrated s first second)).bitmapWord keccak word).1 =
        some (storage (bitmapSlot keccak plan.addr plan.bitmapBase word)) ∧
      ∀ bit : Nat, (storage (bitmapSlot keccak plan.addr plan.bitmapBase word)).getLsbD bit = true →
        (plan.reader (hydrated s first second)).liquidityNet keccak ((256 * word + bit) * spacing) =
          highNet (storage (tickSlot keccak plan.addr plan.ticksBase ((256 * word + bit) * spacing)))) ∧
    ∀ {ε : Type} (M : SwapMath ε), M.BitLaws → M.TickWithin → ∀ (zeroForOne : Bool) (feePips : U32)
      (amountIn sqrtPriceX96 : U256) (liquidity : U128),
      (∀ u ∈ BoundedLoop.visited
          (swapBody M (onChainSource keccak storage plan) ⟨zeroForOne, feePips, spacing⟩) 1024
          (startState amountIn sqrtPriceX96 (decodeV3Slot0 word0).2 liquidity),
        windowLow (decodeV3Slot0 word0).2 spacing ≤ walkWord u.tick spacing zeroForOne ∧
        walkWord u.tick spacing zeroForOne ≤ windowHigh (decodeV3Slot0 word0).2 spacing) →
      getAmountOutSrc M ((plan.reader (hydrated s first second)).source keccak) ⟨zeroForOne, feePips, spacing⟩
          amountIn sqrtPriceX96 (decodeV3Slot0 word0).2 liquidity =
        getAmountOutSrc M (onChainSource keccak storage plan) ⟨zeroForOne, feePips, spacing⟩
          amountIn sqrtPriceX96 (decodeV3Slot0 word0).2 liquidity := by
  have hWord := fun {word : Int} (hLow : windowLow (decodeV3Slot0 word0).2 spacing ≤ word)
      (hHigh : word ≤ windowHigh (decodeV3Slot0 word0).2 spacing) =>
    reader_word hPacked hs hSlot0 hRun hServed hLow hHigh
  have hNet := fun {word : Int} {bit : Nat} (hLow : windowLow (decodeV3Slot0 word0).2 spacing ≤ word)
      (hHigh : word ≤ windowHigh (decodeV3Slot0 word0).2 spacing)
      (hSet : (storage (bitmapSlot keccak plan.addr plan.bitmapBase word)).getLsbD bit = true) =>
    reader_net hPacked hs hSlot0 hRun hServed hApart hBounds hLow hHigh hSet
  refine ⟨fun word hLow hHigh => ⟨?_, fun bit hSet => hNet hLow hHigh hSet⟩, ?_⟩
  · rw [(ClTickReader.bitmapWord_eq keccak (ClPlan.reader_coherent keccak plan _) word).1]
    exact hWord hLow hHigh
  · intro ε M bits within zeroForOne feePips amountIn sqrtPriceX96 liquidity hInside
    have hTick0 := decodeV3Slot0_tickRange word0
    have hWalk : swapWalk M ((plan.reader (hydrated s first second)).source keccak)
          ⟨zeroForOne, feePips, spacing⟩ (startState amountIn sqrtPriceX96 (decodeV3Slot0 word0).2 liquidity) =
        swapWalk M (onChainSource keccak storage plan) ⟨zeroForOne, feePips, spacing⟩
          (startState amountIn sqrtPriceX96 (decodeV3Slot0 word0).2 liquidity) := by
      refine BoundedLoop.run_congr fun u hu => ?_
      obtain ⟨hLow, hHigh⟩ := hInside u hu
      have hTick := visited_walkTick within _ _ u hu
      refine swapBody_congr (hWord hLow hHigh) fun found hFound => ?_
      obtain ⟨bit, rfl, hSet⟩ := onChain_found bits hs (hTick.range hTick0)
        (fun hUp => succ_lt_of_inside hs hTick0 hTick (hUp ▸ hLow)) hFound
      have hRange := hBounds _ bit (hLow.trans' (saturateI16_range _).1)
        (hHigh.trans_lt (saturateI16_range _).2) hSet
      have hClamp : ∀ t, minTick ≤ t → t ≤ maxTick → clampTick t = t := by
        intro t hMin hMax
        unfold clampTick
        omega
      rw [hClamp _ hRange.1 hRange.2]
      exact hNet hLow hHigh hSet
    simp only [getAmountOutSrc, trySwapSrc, hWalk]

end Hydration

section Sample

theorem sample_bitsInBounds : BitsInBounds referenceKeccak sampleStorage samplePlan 1 := by
  intro word bit hLow hHigh hSet
  rw [show samplePlan.addr = 1#160 from rfl, show samplePlan.bitmapBase = 6#256 from rfl,
    sampleStorage_bitmap (by omega) (by omega)] at hSet
  have hBit := BitVec.lt_of_getLsbD hSet
  split at hSet
  · unfold minTick maxTick
    omega
  · simp at hSet

theorem sample_slotsApart : MappingSlotsApart referenceKeccak samplePlan sampleState := by
  have hPlan : ∀ q, some q ∈ sampleState.plans → ∀ key base,
      (samplePlan.addr, mappingSlotSigned referenceKeccak key base) ∉ ChainState.planSlots q := by
    intro q hq key base
    simp only [sampleState, List.mem_singleton, Option.some.injEq] at hq
    subst hq
    simp only [ChainState.planSlots, List.mem_cons, Prod.mk.injEq, List.not_mem_nil, or_false, not_or, not_and]
    exact ⟨fun _ => mappingSlotSigned_ne (by decide), fun _ => mappingSlotSigned_ne (by decide)⟩
  refine ⟨fun key hSome => ⟨.cl samplePlan, List.mem_singleton_self _, ?_⟩,
    fun word _ _ q hq => hPlan q hq word _, fun tick _ _ q hq => hPlan q hq tick _⟩
  by_contra hNot
  simp [sampleState, hNot] at hSome

/-- The replies of a provider that serves one storage. -/
def serve (storage : Storage) (keys : List SlotKey) : List SlotCompletion :=
  keys.map fun key => (key, some (storage key))

theorem serve_completes (storage : Storage) (keys : List SlotKey) : Completes keys (serve storage keys) := by
  simp [Completes, serve, Function.comp_def]

theorem serve_served (storage : Storage) (keys : List SlotKey) :
    ∀ completion ∈ serve storage keys, completion.2 = some (storage completion.1) := by
  intro completion hMem
  obtain ⟨key, _, rfl⟩ := List.mem_map.mp hMem
  rfl

def sampleFirst : List SlotCompletion :=
  serve sampleStorage (ChainState.windowBitmapSlots referenceKeccak
    (sampleState.clTickWindows [(.cl samplePlan, 1)] bootstrapTickWordRange))

def sampleSecond : List SlotCompletion :=
  serve sampleStorage ((sampleState.prefetchTicks sampleFirst).windowTickSlots referenceKeccak
    (sampleState.clTickWindows [(.cl samplePlan, 1)] bootstrapTickWordRange))

theorem sample_hydrated :
    ((samplePlan.reader (hydrated sampleState sampleFirst sampleSecond)).bitmapWord referenceKeccak 0).1 =
      some (sampleStorage (bitmapSlot referenceKeccak samplePlan.addr samplePlan.bitmapBase 0)) ∧
    getAmountOutSrc referenceMath
        ((samplePlan.reader (hydrated sampleState sampleFirst sampleSecond)).source referenceKeccak)
        ⟨true, 3000#32, 1⟩ 70000000000000#256 79232123823359799118286999568#256 1 1000000000000000000#128 =
      getAmountOutSrc referenceMath (onChainSource referenceKeccak sampleStorage samplePlan)
        ⟨true, 3000#32, 1⟩ 70000000000000#256 79232123823359799118286999568#256 1 1000000000000000000#128 := by
  have hTick : (decodeV3Slot0 sampleSlot0).2 = 1 := by decide
  have hRun : Hydrates referenceKeccak samplePlan sampleState 1 sampleFirst sampleSecond :=
    ⟨serve_completes _ _, serve_completes _ _⟩
  have hSlot0 : sampleState.memo (samplePlan.addr, samplePlan.slot0) = some sampleSlot0 := by decide
  obtain ⟨hWords, hQuotes⟩ := hydrateClTicksForPool_agrees rfl ⟨by decide, by decide⟩ hSlot0 hRun
    (fun completion hMem => (List.mem_append.mp hMem).elim (serve_served _ _ _) (serve_served _ _ _))
    sample_slotsApart sample_bitsInBounds
  rw [hTick] at hWords hQuotes
  refine ⟨(hWords 0 (by decide) (by decide)).1, ?_⟩
  exact hQuotes referenceMath referenceMath_bitLaws referenceMath_tickWithin true 3000#32 70000000000000#256
    79232123823359799118286999568#256 1000000000000000000#128 (by decide +kernel)

end Sample

end Robinarb
