import Robinarb.Ingest.LayoutDiscovery
import Robinarb.Math.Quote
import Robinarb.State.Hydration

/-! # Discovered plans

The plan that a discovered layout gives the sample it was discovered on, read through a
state that holds what the sample stores.
-/

namespace Robinarb

open FirstMatch

section Reads

variable (keccak : Keccak) (s : ChainState) (pool : PoolMeta) (a : PoolAnswers)

/-- The reads of the state are what the pool stores, and so is what it has cached. -/
structure Mirrors : Prop where
  read : ∀ slot word, a.storageAt slot = some word → s.read pool.address slot = word
  cached : ∀ slot word, a.storageAt slot = some word → ∀ bits, s.tickCache (pool.address, slot) = some bits → bits = word

/-- The tick data of a plan at the nearest probe: its word, and the net of its tick. -/
def ProbeReads (plan : ClPlan) (bitmap : Int → Option U256) (center : Int) (tickOf : Int → Nat → Int)
    (net : Int → Option I128) : Prop :=
  ∃ probe, Nearest bitmap center probe ∧
    (∀ bits, ((plan.reader s).source keccak).bitmapWord probe.word = some bits → bits = probe.bits) ∧
    net (tickOf probe.word probe.bit) = some (((plan.reader s).source keccak).liquidityNet (tickOf probe.word probe.bit))

def PlanReads : SlotPlan → Prop
  | .v2Packed addr slot => ∃ r0 r1, a.pairReserves = some (r0, r1) ∧
      decodeV2Packed (s.read addr slot) = (r0.setWidth 128, r1.setWidth 128)
  | .v2TwoSlot addr r0 => a.aeroReserves = some (s.read addr r0, s.read addr (r0 + 1#256))
  | .cl plan =>
    match plan.tickCodec with
    | .packed => ∃ sqrtPriceX96 tick, a.slot0 = some (sqrtPriceX96, tick) ∧
        plan.slot0Of s = (sqrtPriceX96.setWidth 256, tick.toInt) ∧ a.liquidity = some (plan.liquidityOf s) ∧
        ProbeReads keccak s plan a.tickBitmap (asI16 (compressTick tick.toInt pool.tickSpacing >>> (8 : Nat)))
          (fun word bit => rawTick word bit pool.tickSpacing) fun tick => (a.ticks tick).map (·.2)
    | .twoWord => ∃ price tick lastFee, a.globalState = some (price, tick, lastFee) ∧
        plan.slot0Of s = (price.setWidth 256, tick.toInt) ∧ a.liquidity = some (plan.liquidityOf s) ∧
        ProbeReads keccak s plan a.tickTable (asI16 (tick.toInt >>> (8 : Nat))) (fun word bit => word * 256 + bit)
          fun tick => (a.algebraTicks tick).map (·.2)

end Reads

section Discovered

variable {keccak : Keccak} {s : ChainState} {pool : PoolMeta} {a : PoolAnswers} {layout : SlotLayout}

theorem setWidth_eq_ofNat (slot : U64) : (slot.setWidth 256 : U256) = BitVec.ofNat 256 slot.toNat := by
  apply BitVec.eq_of_toNat_eq
  rw [BitVec.toNat_setWidth, BitVec.toNat_ofNat]

theorem Mirrors.holds (h : Mirrors s pool a) {P : U256 → Prop} [DecidablePred P] {slot : U256}
    (hHolds : holdsAt a P slot = .ok true) : P (s.read pool.address slot) := by
  obtain ⟨word, hWord, hMatch⟩ := holdsAt_eq_ok.mp hHolds
  rw [h.read slot word hWord]
  exact of_decide_eq_true hMatch

theorem Mirrors.packed (h : Mirrors s pool a) {real : U128 × I128} {slot : U256} (hStored : packedTickStored a real slot = .ok true) :
    ((s.read pool.address slot) >>> 128).setWidth 128 = real.2 :=
  (h.holds (P := fun word => decodeLow128 word = real.1 ∧ (word >>> 128).setWidth 128 = real.2) hStored).2

theorem Mirrors.twoWord (h : Mirrors s pool a) {real : U256 × I128} {slot : U256} (hStored : twoWordTickStored a real slot = .ok true) :
    decodeLow128 (s.read pool.address (slot + 1#256)) = real.2 := by
  obtain ⟨word0, -, hTotal⟩ := bind_eq_ok.mp hStored
  by_cases hOther : word0 ≠ real.1
  · cases (if_pos hOther).symm.trans hTotal
  · exact h.holds (P := fun word => decodeLow128 word = real.2) ((if_neg hOther).symm.trans hTotal)

theorem v3TickView_eq_some {real : U128 × I128} {tick : Int} (h : v3TickView a tick = .ok (some real)) : a.ticks tick = some real := by
  obtain ⟨found, hTick, hReal⟩ := bind_eq_ok.mp h
  obtain ⟨-, hSome⟩ := Option.ite_none_left_eq_some.mp (Except.ok.inj hReal)
  exact (answer_eq_ok.mp hTick).trans hSome

theorem algebraTickView_eq_some {real : U256 × I128} {tick : Int} (h : algebraTickView a tick = .ok (some real)) :
    a.algebraTicks tick = some real := by
  obtain ⟨found, hTick, hReal⟩ := bind_eq_ok.mp h
  obtain ⟨-, hSome⟩ := Option.ite_none_left_eq_some.mp (Except.ok.inj hReal)
  exact (answer_eq_ok.mp hTick).trans hSome

/-- The probe that both bases were held against is what the plan reads of the tick data. -/
theorem probeReads_of_found {τ : Type} {bitmap : Int → Option U256} {center : Int} {tickOf : Int → Nat → Int}
    {view : Int → Except ProbeError (Option τ)} {stored : τ → U256 → Except ProbeError Bool} {net : Int → Option I128}
    {plan : ClPlan} {ticks table : U64} (hMirrors : Mirrors s pool a) (hAddr : plan.addr = pool.address)
    (hBase : plan.bitmapBase = table.setWidth 256)
    (hFound : MappingFound keccak a bitmap center tickOf view stored ticks.toNat table.toNat)
    (hNet : ∀ real tick, view tick = .ok (some real) →
      stored real (mappingSlotSigned keccak tick (BitVec.ofNat 256 ticks.toNat)) = .ok true →
      net tick = some (((plan.reader s).source keccak).liquidityNet tick)) :
    ProbeReads keccak s plan bitmap center tickOf net := by
  obtain ⟨probe, real, hProbe, -, hView, hTicks, hTable, -⟩ := hFound
  refine ⟨probe, hProbe, fun bits hBits => ?_, hNet real _ hView hTicks.holds⟩
  obtain ⟨word, hWord, hMatch⟩ := holdsAt_eq_ok.mp hTable.holds
  have hCached : s.tickCache (pool.address, mappingSlotSigned keccak probe.word (BitVec.ofNat 256 table.toNat)) = some bits := by
    rw [← setWidth_eq_ofNat, ← hBase, ← hAddr]
    exact hBits
  rw [hMirrors.cached _ word hWord bits hCached]
  exact of_decide_eq_true hMatch

/-- The plan of the sample that a layout was discovered on reads what the sample answers. -/
theorem Found.planReads (hFound : Found keccak pool a layout) (hMirrors : Mirrors s pool a)
    (trusted : Address → U64 → Nat → Option Bool) : PlanReads keccak s pool a (layoutPlan trusted pool.address layout) := by
  cases layout with
  | v2Packed slot =>
    obtain ⟨-, r0, r1, hReserves, -, hLeast⟩ := hFound
    refine ⟨r0, r1, hReserves, ?_⟩
    rw [setWidth_eq_ofNat]
    exact hMirrors.holds hLeast.holds
  | v2TwoSlots slotR0 =>
    obtain ⟨-, r0, r1, hReserves, -, hLeast⟩ := hFound
    obtain ⟨w0, hw0, hRest⟩ := bind_eq_ok.mp hLeast.holds
    obtain ⟨w1, hw1, hMatch⟩ := bind_eq_ok.mp hRest
    obtain ⟨rfl, rfl⟩ := of_decide_eq_true (Except.ok.inj hMatch)
    have hNext : (BitVec.ofNat 256 (slotR0.toNat + 1) : U256) = slotR0.setWidth 256 + 1#256 := by
      rw [setWidth_eq_ofNat, BitVec.ofNat_add]
    change a.aeroReserves = some (s.read pool.address _, s.read pool.address _)
    rw [hReserves, ← hNext, setWidth_eq_ofNat, hMirrors.read _ w0 (answer_eq_ok.mp hw0),
      hMirrors.read _ w1 (answer_eq_ok.mp hw1)]
  | v3 slot0 liquidity ticks tickBitmap =>
    obtain ⟨-, sqrtPriceX96, tick, liq, hV3⟩ := hFound
    refine ⟨sqrtPriceX96, tick, hV3.slot0_answered, ?_, ?_, ?_⟩
    · rw [ClPlan.slot0Of, setWidth_eq_ofNat]
      exact hMirrors.holds hV3.slot0_least.holds
    · have hLow := hMirrors.holds hV3.liquidity_least.holds
      rw [← setWidth_eq_ofNat, decodeLow128_eq] at hLow
      rw [hV3.liquidity_answered, ClPlan.liquidityOf, decodeShifted128_eq]
      exact congrArg some hLow.symm
    · refine probeReads_of_found hMirrors rfl rfl hV3.mapping fun real tick hView hStored => ?_
      rw [v3TickView_eq_some hView, ← setWidth_eq_ofNat] at *
      exact congrArg some (hMirrors.packed hStored).symm
  | algebra globalState liquiditySlot liquidityShift ticks tickTable feeShift =>
    obtain ⟨-, price, tick, lastFee, liq, word, hAlgebra⟩ := hFound
    refine ⟨price, tick, lastFee, hAlgebra.globalState_answered, ?_, ?_, ?_⟩
    · rw [ClPlan.slot0Of, setWidth_eq_ofNat]
      exact hMirrors.holds hAlgebra.globalState_least.holds
    · obtain ⟨w, hw, hShift⟩ := hAlgebra.liquidity_shift
      have hMatch : decodeShifted128 w liquidityShift = liq := by
        simpa using List.find?_some hShift
      rw [← hMirrors.read _ w hw, ← setWidth_eq_ofNat] at hMatch
      rw [hAlgebra.liquidity_answered, ClPlan.liquidityOf]
      exact congrArg some hMatch.symm
    · refine probeReads_of_found hMirrors rfl rfl hAlgebra.mapping fun real tick hView hStored => ?_
      rw [algebraTickView_eq_some hView]
      rw [← setWidth_eq_ofNat] at hStored
      exact congrArg some (hMirrors.twoWord hStored).symm

/-- Every discovered layout was held against the answers of a pool of its protocol: the plan
it gives this pool reads, from any state that holds what the pool stores, the price, the
liquidity or the reserves the pool answers, and the word and the net of the nearest tick. -/
theorem discovered_plan_reads {engine : Engine} {atTip : Nat → Option PoolAnswers} {tag : DexTag} {layout : SlotLayout}
    (hLayout : discoverLayouts keccak engine atTip tag = .ok (some layout)) :
    ∃ pool ∈ engine.metas, pool.dex = tag ∧ ∃ a, atTip pool.idx = some a ∧
      ∀ (trusted : Address → U64 → Nat → Option Bool) (s : ChainState), Mirrors s pool a →
        PlanReads keccak s pool a (layoutPlan trusted pool.address layout) := by
  obtain ⟨passed, pool, rest, hSamples, ⟨a, hTip, -, hFound⟩, -⟩ := discoverLayouts_eq_some.mp hLayout
  obtain ⟨hMem, hTag, -⟩ := mem_samples (hSamples ▸ List.mem_append_right passed List.mem_cons_self)
  exact ⟨pool, hMem, hTag, a, hTip, fun trusted s hMirrors => hFound.planReads hMirrors trusted⟩

end Discovered

section Sample

/-- The sample pool's storage, where tick 0 has its gross, too. -/
def probedWord (slot : U256) : U256 :=
  if slot = mappingSlotSigned referenceKeccak 0 5#256 then 400000000000#256 <<< 128 ||| 400000000000#256 else sampleWord slot

def probedAnswers : PoolAnswers where
  storageAt slot := some (probedWord slot)
  slot0 := some (79232123823359799118286999568#160, 1#24)
  globalState := none
  liquidity := some 1000000000000000000#128
  tickBitmap word := some (probedWord (mappingSlotSigned referenceKeccak word 6#256))
  tickTable _ := none
  ticks tick :=
    let word := probedWord (mappingSlotSigned referenceKeccak tick 5#256)
    some (decodeLow128 word, highNet word)
  algebraTicks _ := none
  pairReserves := none
  aeroReserves := none
  fee := none

def probedMeta (idx : Nat) : PoolMeta :=
  ⟨idx, BitVec.ofNat 160 (idx + 1), .uniV3Fork, 0x10#160, 0x20#160, 18#8, 18#8, 0#32, 500#32, 1, none⟩

def probedEngine : Engine := ⟨[probedMeta 0, probedMeta 1], []⟩

/-- The first of the two pools has no liquidity. -/
def probedTip (idx : Nat) : Option PoolAnswers :=
  if idx = 0 then some { probedAnswers with liquidity := some 0#128 } else some probedAnswers

deriving instance DecidableEq for SlotLayout

theorem probed_discovered : discoverLayouts referenceKeccak probedEngine probedTip .uniV3Fork =
    .ok (some (.v3 0#64 4#64 5#64 6#64)) := by decide +kernel

/-- What the storage holds, read and cached. -/
def probedState : ChainState where
  memo key := some (probedWord key.2)
  tickCache key := some (probedWord key.2)
  plans := []

theorem probed_mirrors {pool : PoolMeta} {a : PoolAnswers} (hTip : probedTip pool.idx = some a) : Mirrors probedState pool a := by
  have hStorage : ∀ slot, a.storageAt slot = some (probedWord slot) := by
    intro slot
    unfold probedTip at hTip
    split at hTip <;> (cases hTip; rfl)
  constructor
  · intro slot word hWord
    exact Option.some.inj ((hStorage slot).symm.trans hWord)
  · intro slot word hWord bits hBits
    exact (Option.some.inj hBits).symm.trans (Option.some.inj ((hStorage slot).symm.trans hWord))

theorem probed_plan_reads : ∃ pool ∈ probedEngine.metas, ∃ a, probedTip pool.idx = some a ∧
    PlanReads referenceKeccak probedState pool a
      (layoutPlan (fun _ _ _ => none) pool.address (.v3 0#64 4#64 5#64 6#64)) := by
  obtain ⟨pool, hPool, -, a, hTip, hReads⟩ := discovered_plan_reads probed_discovered
  exact ⟨pool, hPool, a, hTip, hReads _ probedState (probed_mirrors hTip)⟩

end Sample

end Robinarb
