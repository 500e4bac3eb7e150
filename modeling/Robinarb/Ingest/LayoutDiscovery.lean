import Robinarb.Library.FirstMatch
import Robinarb.Library.PartialMaps
import Robinarb.State.SlotPlans

/-! # Layout discovery

`discover_layouts`: where the pools of each protocol keep their state, found by holding
the storage of sample pools against what their view calls answer at one block.
-/

namespace Robinarb

open FirstMatch

def scanSlots : Nat := 24

def discoverySamples : Nat := 3

def algebraLiquidityShifts : List Nat := [0, 48]

def tickMappingScan : Nat := 20

def probeWordRange : Nat := 32

/-- A call that failed, or a panic, which no caller survives. -/
inductive ProbeError where
  | rpc
  | panicked
  deriving DecidableEq

/-- What a pool and its storage answer at one block, `none` where a call fails. -/
structure PoolAnswers where
  storageAt : U256 → Option U256
  slot0 : Option (BitVec 160 × BitVec 24)
  globalState : Option (BitVec 160 × BitVec 24 × BitVec 16)
  liquidity : Option U128
  tickBitmap : Int → Option U256
  tickTable : Int → Option U256
  ticks : Int → Option (U128 × I128)
  algebraTicks : Int → Option (U256 × I128)
  pairReserves : Option (BitVec 112 × BitVec 112)
  aeroReserves : Option (U256 × U256)
  fee : Option (BitVec 16)

def answer {α : Type} : Option α → Except ProbeError α
  | some x => .ok x
  | none => .error .rpc

@[simp] theorem answer_eq_ok {α : Type} {x : Option α} {a : α} : answer x = .ok a ↔ x = some a := by
  cases x <;> simp [answer]

/-- 0, -1, +1, -2, +2, … -/
def probeWordOffsets : List Int :=
  0 :: (List.range probeWordRange).flatMap fun (d : Nat) => [-((d : Int) + 1), (d : Int) + 1]

def lowestSetBit (bits : U256) : Option Nat := (List.range 256).find? fun bit => bits.getLsbD bit

section Mapping

variable (keccak : Keccak) (a : PoolAnswers)

/-- A word of the bitmap with a bit set, with the lowest of its bits. -/
structure Probe where
  word : Int
  bit : Nat
  bits : U256

/-- One turn of the scan for a probe; a word outside of `i16` is passed over. -/
def probeAt (bitmap : Int → Option U256) (center delta : Int) : Except ProbeError (Option Probe) :=
  let word := center + delta
  if -2 ^ 15 ≤ word ∧ word < 2 ^ 15 then do
    let bits ← answer (bitmap word)
    return (lowestSetBit bits).map fun bit => ⟨word, bit, bits⟩
  else return none

def storedAt (slot : U256) : Except ProbeError U256 := answer (a.storageAt slot)

/-- The two scans of a tick-mapping discovery have this in common. The view of the probe tick is
`none` where the tick is empty, and `stored` compares it with the mapping at a base. -/
def discoverTickMapping {τ : Type} (bitmap : Int → Option U256) (center : Int) (tickOf : Int → Nat → Int)
    (view : Int → Except ProbeError (Option τ)) (stored : τ → U256 → Except ProbeError Bool) :
    Except ProbeError (Option (Nat × Nat)) := do
  match ← first (probeAt bitmap center) probeWordOffsets with
  | none => return none
  | some probe =>
    let tick := tickOf probe.word probe.bit
    -- outside of an `int24` the conversion of the tick panics
    if -2 ^ 23 ≤ tick ∧ tick < 2 ^ 23 then
      match ← view tick with
      | none => return none
      | some real =>
        let ticksBase ← first (index fun base => stored real (mappingSlotSigned keccak tick (BitVec.ofNat 256 base)))
          (List.range tickMappingScan)
        let tableBase ← first (index fun base => do
          let word ← storedAt a (mappingSlotSigned keccak probe.word (BitVec.ofNat 256 base))
          return decide (word = probe.bits)) (List.range tickMappingScan)
        match ticksBase, tableBase with
        | some t, some b => return if t ≠ b then some (t, b) else none
        | _, _ => return none
    else throw .panicked

/-- Both words of a V3 tick are packed into one. -/
def packedTickStored (real : U128 × I128) (slot : U256) : Except ProbeError Bool := do
  let word ← storedAt a slot
  return decide (decodeLow128 word = real.1 ∧ (word >>> 128).setWidth 128 = real.2)

/-- The delta of an Algebra tick is in the word behind its total. -/
def twoWordTickStored (real : U256 × I128) (slot : U256) : Except ProbeError Bool := do
  let word0 ← storedAt a slot
  if word0 ≠ real.1 then return false
  else
    let word1 ← storedAt a (slot + 1#256)
    return decide (decodeLow128 word1 = real.2)

/-- A tick whose bit is set and that is empty determines nothing. -/
def v3TickView (tick : Int) : Except ProbeError (Option (U128 × I128)) := do
  let real ← answer (a.ticks tick)
  return if real.1 = 0#128 then none else some real

def algebraTickView (tick : Int) : Except ProbeError (Option (U256 × I128)) := do
  let real ← answer (a.algebraTicks tick)
  return if real.1 = 0#256 then none else some real

/-- A spacing of zero panics in the compression of the tick. -/
def discoverV3TickMapping (currentTick tickSpacing : Int) : Except ProbeError (Option (Nat × Nat)) :=
  if tickSpacing = 0 then throw .panicked
  else discoverTickMapping keccak a a.tickBitmap (asI16 (compressTick currentTick tickSpacing >>> (8 : Nat)))
    (fun word bit => rawTick word bit tickSpacing) (v3TickView a) (packedTickStored a)

def discoverAlgebraTickMapping (currentTick : Int) : Except ProbeError (Option (Nat × Nat)) :=
  discoverTickMapping keccak a a.tickTable (asI16 (currentTick >>> (8 : Nat))) (fun word bit => word * 256 + bit)
    (algebraTickView a) (twoWordTickStored a)

/-- Byte-aligned shifts, 184 first. -/
def algebraFeeShifts : List Nat := 184 :: ((List.range 11).map fun k => 160 + 8 * k).filter (· ≠ 184)

def feeField (word : U256) (shift : Nat) : U256 := (word >>> shift) &&& 0xFFFF#256

def discoverAlgebraFeeShift (gsWord : U256) (lastFee : BitVec 16) : Option Nat :=
  if lastFee = 0#16 then none
  else algebraFeeShifts.find? fun shift => decide (feeField gsWord shift = lastFee.setWidth 256)

def algebraFeeWordTrusted (gsSlot : U64) (shift : Nat) : Option Bool := do
  let word ← a.storageAt (gsSlot.setWidth 256)
  let fee ← a.fee
  return decide (feeField word shift = fee.setWidth 256)

end Mapping

section Pools

variable (keccak : Keccak) (a : PoolAnswers) (pool : PoolMeta) (words : List U256)

def discoverV3 : Except ProbeError (Option SlotLayout) := do
  let (sqrtPriceX96, tick24) ← answer a.slot0
  let liq ← answer a.liquidity
  let sqrt : U256 := sqrtPriceX96.setWidth 256
  if sqrt = 0#256 ∨ liq = 0#128 then return none
  else
    let tick := tick24.toInt
    let slot0 := words.findIdx? fun w => decide (decodeV3Slot0 w = (sqrt, tick))
    let liquidity := words.findIdx? fun w => decide (decodeLow128 w = liq)
    match slot0, liquidity with
    | some s0, some lq =>
      if s0 = lq then return none
      else match ← discoverV3TickMapping keccak a tick pool.tickSpacing with
        | none => return none
        | some (ticks, tickBitmap) =>
          return some (.v3 (.ofNat 64 s0) (.ofNat 64 lq) (.ofNat 64 ticks) (.ofNat 64 tickBitmap))
    | _, _ => return none

def liquidityShift (liq : U128) (w : U256) : Option Nat :=
  algebraLiquidityShifts.find? fun shift => decide (decodeShifted128 w shift = liq)

/-- The scan for the liquidity skips the state's own slot. -/
def liquidityPick (globalState : Option Nat) (liq : U128) : Option (Nat × Nat) :=
  words.zipIdx.findSome? fun (w, i) =>
    if some i = globalState then none else (liquidityShift liq w).map fun shift => (i, shift)

def discoverAlgebra : Except ProbeError (Option SlotLayout) := do
  let (price, tick24, lastFee) ← answer a.globalState
  let liq ← answer a.liquidity
  let sqrt : U256 := price.setWidth 256
  if sqrt = 0#256 ∨ liq = 0#128 then return none
  else
    let tick := tick24.toInt
    let globalState := words.findIdx? fun w => decide (decodeV3Slot0 w = (sqrt, tick))
    match globalState, liquidityPick words globalState liq with
    | some gsSlot, some (liqSlot, liqShift) =>
      match ← discoverAlgebraTickMapping keccak a tick with
      | none => return none
      | some (ticks, tickTable) =>
        return some (.algebra (.ofNat 64 gsSlot) (.ofNat 64 liqSlot) liqShift (.ofNat 64 ticks) (.ofNat 64 tickTable)
          (discoverAlgebraFeeShift (words.getD gsSlot 0#256) lastFee))
    | _, _ => return none

def discoverPair : Except ProbeError (Option SlotLayout) := do
  let (reserve0, reserve1) ← answer a.pairReserves
  let (r0, r1) : U128 × U128 := (reserve0.setWidth 128, reserve1.setWidth 128)
  if r0 = 0#128 then return none
  else
    let slot := words.findIdx? fun w => decide (decodeV2Packed w = (r0, r1))
    return slot.map fun s => .v2Packed (.ofNat 64 s)

def discoverAero : Except ProbeError (Option SlotLayout) := do
  let (r0, r1) ← answer a.aeroReserves
  if r0 = 0#256 then return none
  else
    let slot := (words.zip words.tail).findIdx? fun w => decide (w.1 = r0 ∧ w.2 = r1)
    return slot.map fun s => .v2TwoSlots (.ofNat 64 s)

/-- The answers are those at the block whose number was asked for first. -/
def discoverOne (atTip : Option PoolAnswers) : Except ProbeError (Option SlotLayout) := do
  let a ← answer atTip
  let words ← answer ((List.range scanSlots).mapM fun slot => a.storageAt (BitVec.ofNat 256 slot))
  if pool.dex.isV3Family then discoverV3 keccak a pool words
  else if pool.dex = .algebra then discoverAlgebra keccak a words
  else match pool.dex with
    | .uniV2Fork => discoverPair a words
    | .aeroVolatile | .aeroStable => discoverAero a words
    | _ => return none

end Pools

section Tags

variable (keccak : Keccak) (engine : Engine) (atTip : Nat → Option PoolAnswers)

def samples (tag : DexTag) : List PoolMeta :=
  ((engine.metas.filter fun pool => !pool.dex.isV4).filter fun pool => pool.dex = tag).take discoverySamples

/-- A failed probe goes on with the next sample; a panic ends the bootstrap. -/
def sampleLayout (pool : PoolMeta) : Except ProbeError (Option SlotLayout) :=
  match discoverOne keccak pool (atTip pool.idx) with
  | .error .rpc => .ok none
  | found => found

/-- The table comes from an iteration over a hash map of the tags, whose order shows nowhere. -/
def discoverLayouts (tag : DexTag) : Except ProbeError (Option SlotLayout) :=
  first (sampleLayout keccak atTip) (samples engine tag)

end Tags

section Probes

variable {bitmap : Int → Option U256} {center : Int} {probe : Probe}

theorem lowestSetBit_eq_none {bits : U256} : lowestSetBit bits = none ↔ bits = 0#256 := by
  rw [lowestSetBit, List.find?_eq_none]
  constructor
  · intro h
    apply BitVec.eq_of_getLsbD_eq
    intro i hi
    rw [BitVec.getLsbD_zero]
    simpa using h i (List.mem_range.mpr hi)
  · rintro rfl i -
    simp

/-- Nearer to the price, or as near and below it. -/
def Precedes (d e : Int) : Prop := d.natAbs < e.natAbs ∨ d.natAbs = e.natAbs ∧ d < e

instance (d e : Int) : Decidable (Precedes d e) := inferInstanceAs (Decidable (_ ∨ _))

instance : Std.Irrefl Precedes := ⟨fun d h => by unfold Precedes at h; omega⟩

instance : Std.Asymm Precedes := ⟨fun d e h => by unfold Precedes at *; omega⟩

theorem probeWordOffsets_pairwise : probeWordOffsets.Pairwise Precedes := by decide

theorem mem_probeWordOffsets {d : Int} : d ∈ probeWordOffsets ↔ d.natAbs ≤ probeWordRange := by
  simp only [probeWordOffsets, List.mem_cons, List.mem_flatMap, List.mem_range, List.not_mem_nil, or_false]
  constructor
  · rintro (rfl | ⟨n, hn, rfl | rfl⟩)
    · exact Nat.zero_le _
    · omega
    · omega
  · intro h
    obtain hNeg | rfl | hPos := lt_trichotomy d 0
    · exact .inr ⟨d.natAbs - 1, by omega, .inl (by omega)⟩
    · exact .inl rfl
    · exact .inr ⟨d.natAbs - 1, by omega, .inr (by omega)⟩

def WordRange (word : Int) : Prop := -2 ^ 15 ≤ word ∧ word < 2 ^ 15

/-- The nearest word of the bitmap with a bit set, and the lowest of its bits. -/
structure Nearest (bitmap : Int → Option U256) (center : Int) (probe : Probe) : Prop where
  near : (probe.word - center).natAbs ≤ probeWordRange
  valid : WordRange probe.word
  answered : bitmap probe.word = some probe.bits
  lowest : lowestSetBit probe.bits = some probe.bit
  before : ∀ word, (word - center).natAbs ≤ probeWordRange → WordRange word →
    Precedes (word - center) (probe.word - center) → bitmap word = some 0#256

theorem probeAt_of_range {delta : Int} (h : WordRange (center + delta)) : probeAt bitmap center delta =
    (answer (bitmap (center + delta))).map fun bits => (lowestSetBit bits).map fun bit => ⟨center + delta, bit, bits⟩ := by
  refine (if_pos h).trans ?_
  cases answer (bitmap (center + delta)) <;> rfl

theorem probeAt_of_not_range {delta : Int} (h : ¬WordRange (center + delta)) :
    probeAt bitmap center delta = .ok none := if_neg h

theorem probeAt_eq_some {delta : Int} : probeAt bitmap center delta = .ok (some probe) ↔
    delta = probe.word - center ∧ WordRange probe.word ∧ bitmap probe.word = some probe.bits ∧
      lowestSetBit probe.bits = some probe.bit := by
  constructor
  · intro h
    by_cases hRange : WordRange (center + delta)
    · rw [probeAt_of_range hRange] at h
      cases hBits : bitmap (center + delta) with
      | none =>
        rw [hBits] at h
        cases h
      | some bits =>
        rw [hBits] at h
        obtain ⟨bit, hBit, rfl⟩ := Option.map_eq_some_iff.mp (Except.ok.inj h)
        exact ⟨by simp, hRange, hBits, hBit⟩
    · rw [probeAt_of_not_range hRange] at h
      cases h
  · rintro ⟨rfl, hRange, hBits, hBit⟩
    have hWord : center + (probe.word - center) = probe.word := by omega
    rw [probeAt_of_range (by rwa [hWord]), hWord, hBits]
    change Except.ok ((lowestSetBit probe.bits).map _) = _
    rw [hBit]
    rfl

theorem probeAt_eq_none {delta : Int} : probeAt bitmap center delta = .ok none ↔
    (WordRange (center + delta) → bitmap (center + delta) = some 0#256) := by
  by_cases hRange : WordRange (center + delta)
  · rw [probeAt_of_range hRange, forall_prop_of_true hRange]
    cases bitmap (center + delta) with
    | none =>
      constructor
      · rintro ⟨⟩
      · rintro ⟨⟩
    | some bits =>
      rw [Option.some.injEq, ← lowestSetBit_eq_none]
      constructor
      · exact fun h => Option.map_eq_none_iff.mp (Except.ok.inj h)
      · intro h
        change Except.ok ((lowestSetBit bits).map _) = _
        rw [h]
        rfl
  · rw [probeAt_of_not_range hRange]
    exact ⟨fun _ h => absurd h hRange, fun _ => rfl⟩

theorem first_probeAt_iff : first (probeAt bitmap center) probeWordOffsets = .ok (some probe) ↔ Nearest bitmap center probe := by
  rw [first_eq_some_iff probeWordOffsets_pairwise]
  simp only [mem_probeWordOffsets, probeAt_eq_some, probeAt_eq_none]
  constructor
  · rintro ⟨delta, hNear, ⟨rfl, hValid, hAnswered, hLowest⟩, hBefore⟩
    refine ⟨hNear, hValid, hAnswered, hLowest, fun word hWord hRange hPrecedes => ?_⟩
    have hAt := hBefore _ hWord hPrecedes
    have hWordAt : center + (word - center) = word := by omega
    rw [hWordAt] at hAt
    exact hAt hRange
  · rintro ⟨hNear, hValid, hAnswered, hLowest, hBefore⟩
    refine ⟨_, hNear, ⟨rfl, hValid, hAnswered, hLowest⟩, fun delta hDelta hPrecedes hRange => ?_⟩
    have hWord : center + delta - center = delta := by omega
    exact hBefore (center + delta) (by rwa [hWord]) hRange (by rwa [hWord])

end Probes

section Words

variable {a : PoolAnswers} {words : List U256} {P : U256 → Prop} [DecidablePred P]

def holdsAt (a : PoolAnswers) (P : U256 → Prop) [DecidablePred P] (slot : U256) : Except ProbeError Bool := do
  let word ← storedAt a slot
  return decide (P word)

theorem holdsAt_eq_ok {slot : U256} {c : Bool} :
    holdsAt a P slot = .ok c ↔ ∃ word, a.storageAt slot = some word ∧ decide (P word) = c := by
  rw [holdsAt, storedAt, bind_eq_ok]
  constructor
  · rintro ⟨word, hWord, hEnd⟩
    exact ⟨word, answer_eq_ok.mp hWord, Except.ok.inj hEnd⟩
  · rintro ⟨word, hWord, rfl⟩
    exact ⟨word, answer_eq_ok.mpr hWord, rfl⟩

def Scanned (a : PoolAnswers) (words : List U256) : Prop :=
  (List.range scanSlots).mapM (fun slot => a.storageAt (BitVec.ofNat 256 slot)) = some words

theorem Scanned.length (h : Scanned a words) : words.length = scanSlots := by
  rw [PartialMaps.length_of_mapM h, List.length_range]

theorem Scanned.word (h : Scanned a words) {n : Nat} (hn : n < scanSlots) : words[n]? = a.storageAt (BitVec.ofNat 256 n) := by
  rw [PartialMaps.getElem?_of_mapM h, List.getElem?_range hn]
  rfl

theorem Scanned.getElem (h : Scanned a words) {n : Nat} (hn : n < words.length) :
    a.storageAt (BitVec.ofNat 256 n) = some words[n] := by
  rw [← h.word (h.length ▸ hn), List.getElem?_eq_getElem hn]

theorem Scanned.findIdx_iff (h : Scanned a words) {n : Nat} :
    words.findIdx? (fun w => decide (P w)) = some n ↔
      Least (fun slot => holdsAt a P (BitVec.ofNat 256 slot)) scanSlots n := by
  rw [← h.length]
  exact findIdx?_iff fun i hi => holdsAt_eq_ok.mpr ⟨_, h.getElem hi, rfl⟩

def pairAt (a : PoolAnswers) (r0 r1 : U256) (slot : Nat) : Except ProbeError Bool := do
  let w0 ← storedAt a (BitVec.ofNat 256 slot)
  let w1 ← storedAt a (BitVec.ofNat 256 (slot + 1))
  return decide (w0 = r0 ∧ w1 = r1)

theorem Scanned.findIdx_pair_iff (h : Scanned a words) {r0 r1 : U256} {n : Nat} :
    (words.zip words.tail).findIdx? (fun w => decide (w.1 = r0 ∧ w.2 = r1)) = some n ↔
      Least (pairAt a r0 r1) (scanSlots - 1) n := by
  have hLength : (words.zip words.tail).length = scanSlots - 1 := by
    rw [List.length_zip, List.length_tail, h.length]
    rfl
  rw [← hLength]
  refine findIdx?_iff fun i hi => ?_
  have hNext : i + 1 < words.length := by
    rw [hLength] at hi
    rw [h.length]
    exact Nat.add_lt_of_lt_sub hi
  rw [List.getElem_zip, List.getElem_tail, pairAt, storedAt, storedAt, h.getElem (Nat.lt_of_succ_lt hNext), h.getElem hNext]
  rfl

/-- Whether a slot other than the state's own has the liquidity at one of the shifts. -/
def liquidityAt (a : PoolAnswers) (globalState : Nat) (liq : U128) (slot : Nat) : Except ProbeError Bool :=
  if slot = globalState then .ok false
  else holdsAt a (fun w => (liquidityShift liq w).isSome) (BitVec.ofNat 256 slot)

theorem Scanned.liquidityPick_iff (h : Scanned a words) {gs lq shift : Nat} {liq : U128} :
    liquidityPick words (some gs) liq = some (lq, shift) ↔ Least (liquidityAt a gs liq) scanSlots lq ∧
      ∃ w, a.storageAt (BitVec.ofNat 256 lq) = some w ∧ liquidityShift liq w = some shift := by
  have hCheck : ∀ i, (hi : i < words.length) → liquidityAt a gs liq i =
      .ok (if some i = some gs then none else (liquidityShift liq words[i]).map fun s => (i, s)).isSome := by
    intro i hi
    rw [liquidityAt]
    by_cases hOwn : i = gs
    · rw [if_pos hOwn, if_pos (congrArg some hOwn)]
      rfl
    · rw [if_neg hOwn, if_neg (mt Option.some.inj hOwn), Option.isSome_map, holdsAt_eq_ok.mpr ⟨_, h.getElem hi, rfl⟩,
        Bool.decide_eq_true]
  rw [liquidityPick, findSome?_iff hCheck, h.length]
  constructor
  · rintro ⟨i, hLeast, w, hw, hPick⟩
    obtain ⟨-, hShift⟩ := Option.ite_none_left_eq_some.mp hPick
    obtain ⟨s, hs, hPair⟩ := Option.map_eq_some_iff.mp hShift
    cases hPair
    exact ⟨hLeast, w, (h.word hLeast.inside).symm.trans hw, hs⟩
  · rintro ⟨hLeast, w, hw, hShift⟩
    refine ⟨lq, hLeast, w, (h.word hLeast.inside).trans hw, ?_⟩
    have hOther : some lq ≠ some gs := by
      intro hOwn
      have hHolds := hLeast.holds
      rw [liquidityAt, if_pos (Option.some.inj hOwn)] at hHolds
      cases hHolds
    refine (if_neg hOther).trans ?_
    rw [hShift]
    rfl

end Words

section Mappings

variable {keccak : Keccak} {a : PoolAnswers} {τ : Type} {bitmap : Int → Option U256} {center : Int}
  {tickOf : Int → Nat → Int} {view : Int → Except ProbeError (Option τ)} {stored : τ → U256 → Except ProbeError Bool}
  {t b : Nat}

/-- The nearest probe nominates the tick and the word that the bases are held against. -/
def MappingFound (keccak : Keccak) (a : PoolAnswers) (bitmap : Int → Option U256) (center : Int)
    (tickOf : Int → Nat → Int) (view : Int → Except ProbeError (Option τ))
    (stored : τ → U256 → Except ProbeError Bool) (t b : Nat) : Prop :=
  ∃ probe real, Nearest bitmap center probe ∧
    (-2 ^ 23 ≤ tickOf probe.word probe.bit ∧ tickOf probe.word probe.bit < 2 ^ 23) ∧
    view (tickOf probe.word probe.bit) = .ok (some real) ∧
    Least (fun base => stored real (mappingSlotSigned keccak (tickOf probe.word probe.bit) (BitVec.ofNat 256 base)))
      tickMappingScan t ∧
    Least (fun base => holdsAt a (· = probe.bits) (mappingSlotSigned keccak probe.word (BitVec.ofNat 256 base)))
      tickMappingScan b ∧
    t ≠ b

theorem discoverTickMapping_iff : discoverTickMapping keccak a bitmap center tickOf view stored = .ok (some (t, b)) ↔
    MappingFound keccak a bitmap center tickOf view stored t b := by
  constructor
  · intro h
    obtain ⟨found, hProbe, h⟩ := bind_eq_ok.mp h
    cases found with
    | none => cases h
    | some probe =>
      by_cases hTick : -2 ^ 23 ≤ tickOf probe.word probe.bit ∧ tickOf probe.word probe.bit < 2 ^ 23
      · replace h := (if_pos hTick).symm.trans h
        obtain ⟨read, hView, h⟩ := bind_eq_ok.mp h
        cases read with
        | none => cases h
        | some real =>
          obtain ⟨ticksBase, hTicks, h⟩ := bind_eq_ok.mp h
          obtain ⟨tableBase, hTable, h⟩ := bind_eq_ok.mp h
          cases ticksBase with
          | none => cases h
          | some t' =>
            cases tableBase with
            | none => cases h
            | some b' =>
              obtain ⟨hApart, hPair⟩ := Option.ite_none_right_eq_some.mp (Except.ok.inj h)
              cases hPair
              exact ⟨probe, real, first_probeAt_iff.mp hProbe, hTick, hView, first_index_iff.mp hTicks,
                first_index_iff.mp hTable, hApart⟩
      · cases (if_neg hTick).symm.trans h
  · rintro ⟨probe, real, hProbe, hTick, hReal, hTicks, hTable, hApart⟩
    refine bind_eq_ok.mpr ⟨some probe, first_probeAt_iff.mpr hProbe, (if_pos hTick).trans ?_⟩
    refine bind_eq_ok.mpr ⟨some real, hReal, ?_⟩
    refine bind_eq_ok.mpr ⟨some t, first_index_iff.mpr hTicks, ?_⟩
    refine bind_eq_ok.mpr ⟨some b, first_index_iff.mpr hTable, ?_⟩
    exact congrArg Except.ok (if_pos hApart)

end Mappings

section Layouts

variable (keccak : Keccak) (pool : PoolMeta) (a : PoolAnswers)

structure V3Found (slot0 liquidity ticks tickBitmap : Nat) (sqrtPriceX96 : BitVec 160) (tick : BitVec 24)
    (liq : U128) : Prop where
  slot0_answered : a.slot0 = some (sqrtPriceX96, tick)
  liquidity_answered : a.liquidity = some liq
  live : ¬((sqrtPriceX96.setWidth 256 : U256) = 0#256 ∨ liq = 0#128)
  slot0_least : Least (fun slot => holdsAt a (fun w => decodeV3Slot0 w = (sqrtPriceX96.setWidth 256, tick.toInt))
    (BitVec.ofNat 256 slot)) scanSlots slot0
  liquidity_least : Least (fun slot => holdsAt a (fun w => decodeLow128 w = liq) (BitVec.ofNat 256 slot)) scanSlots liquidity
  apart : slot0 ≠ liquidity
  spaced : pool.tickSpacing ≠ 0
  mapping : MappingFound keccak a a.tickBitmap (asI16 (compressTick tick.toInt pool.tickSpacing >>> (8 : Nat)))
    (fun word bit => rawTick word bit pool.tickSpacing) (v3TickView a) (packedTickStored a) ticks tickBitmap

structure AlgebraFound (globalState liquiditySlot liquidityShift ticks tickTable : Nat) (feeShift : Option Nat)
    (price : BitVec 160) (tick : BitVec 24) (lastFee : BitVec 16) (liq : U128) (word : U256) : Prop where
  globalState_answered : a.globalState = some (price, tick, lastFee)
  liquidity_answered : a.liquidity = some liq
  live : ¬((price.setWidth 256 : U256) = 0#256 ∨ liq = 0#128)
  globalState_least : Least (fun slot => holdsAt a (fun w => decodeV3Slot0 w = (price.setWidth 256, tick.toInt))
    (BitVec.ofNat 256 slot)) scanSlots globalState
  globalState_word : a.storageAt (BitVec.ofNat 256 globalState) = some word
  liquidity_least : Least (liquidityAt a globalState liq) scanSlots liquiditySlot
  liquidity_shift : ∃ w, a.storageAt (BitVec.ofNat 256 liquiditySlot) = some w ∧
    Robinarb.liquidityShift liq w = some liquidityShift
  mapping : MappingFound keccak a a.tickTable (asI16 (tick.toInt >>> (8 : Nat))) (fun word bit => word * 256 + bit)
    (algebraTickView a) (twoWordTickStored a) ticks tickTable
  fee : feeShift = discoverAlgebraFeeShift word lastFee

/-- What one sample determines: each slot is the first whose storage is what the pool answers. -/
def Found : SlotLayout → Prop
  | .v2Packed slot => pool.dex = .uniV2Fork ∧ ∃ r0 r1, a.pairReserves = some (r0, r1) ∧ (r0.setWidth 128 : U128) ≠ 0#128 ∧
      Least (fun s => holdsAt a (fun w => decodeV2Packed w = (r0.setWidth 128, r1.setWidth 128)) (BitVec.ofNat 256 s))
        scanSlots slot.toNat
  | .v2TwoSlots slotR0 => (pool.dex = .aeroVolatile ∨ pool.dex = .aeroStable) ∧ ∃ r0 r1, a.aeroReserves = some (r0, r1) ∧
      r0 ≠ 0#256 ∧ Least (pairAt a r0 r1) (scanSlots - 1) slotR0.toNat
  | .v3 slot0 liquidity ticks tickBitmap => pool.dex.isV3Family = true ∧ ∃ sqrtPriceX96 tick liq,
      V3Found keccak pool a slot0.toNat liquidity.toNat ticks.toNat tickBitmap.toNat sqrtPriceX96 tick liq
  | .algebra globalState liquiditySlot liquidityShift ticks tickTable feeShift => pool.dex = .algebra ∧
      ∃ price tick lastFee liq word, AlgebraFound keccak a globalState.toNat liquiditySlot.toNat liquidityShift ticks.toNat
        tickTable.toNat feeShift price tick lastFee liq word

end Layouts

section Samples

variable {keccak : Keccak} {pool : PoolMeta} {a : PoolAnswers} {words : List U256} {layout : SlotLayout}

theorem toNat_ofNat_of_least {check : Nat → Except ProbeError Bool} {bound n : Nat} (h : Least check bound n)
    (hBound : bound ≤ 24) : (BitVec.ofNat 64 n).toNat = n := by
  have hInside := h.inside
  rw [BitVec.toNat_ofNat]
  omega

theorem MappingFound.toNat {τ : Type} {bitmap : Int → Option U256} {center : Int} {tickOf : Int → Nat → Int}
    {view : Int → Except ProbeError (Option τ)} {stored : τ → U256 → Except ProbeError Bool} {t b : Nat}
    (h : MappingFound keccak a bitmap center tickOf view stored t b) :
    (BitVec.ofNat 64 t).toNat = t ∧ (BitVec.ofNat 64 b).toNat = b := by
  obtain ⟨probe, real, -, -, -, hTicks, hTable, -⟩ := h
  exact ⟨toNat_ofNat_of_least hTicks (by decide), toNat_ofNat_of_least hTable (by decide)⟩

theorem discoverV3_iff (hWords : Scanned a words) :
    discoverV3 keccak a pool words = .ok (some layout) ↔ ∃ s0 lq t b sqrtPriceX96 tick liq,
      V3Found keccak pool a s0 lq t b sqrtPriceX96 tick liq ∧
        layout = .v3 (.ofNat 64 s0) (.ofNat 64 lq) (.ofNat 64 t) (.ofNat 64 b) := by
  constructor
  · intro h
    obtain ⟨⟨sqrtPriceX96, tick⟩, hSlot0, h⟩ := bind_eq_ok.mp h
    obtain ⟨liq, hLiquidity, h⟩ := bind_eq_ok.mp h
    by_cases hDead : (sqrtPriceX96.setWidth 256 : U256) = 0#256 ∨ liq = 0#128
    · cases (if_pos hDead).symm.trans h
    · replace h := (if_neg hDead).symm.trans h
      dsimp only at h
      split at h
      · rename_i s0 lq hS0 hLq
        by_cases hApart : s0 = lq
        · cases (if_pos hApart).symm.trans h
        · replace h := (if_neg hApart).symm.trans h
          obtain ⟨found, hMapping, h⟩ := bind_eq_ok.mp h
          cases found with
          | none => cases h
          | some pair =>
            cases h
            by_cases hSpaced : pool.tickSpacing = 0
            · cases (if_pos hSpaced).symm.trans hMapping
            · exact ⟨s0, lq, pair.1, pair.2, sqrtPriceX96, tick, liq,
                ⟨answer_eq_ok.mp hSlot0, answer_eq_ok.mp hLiquidity, hDead, hWords.findIdx_iff.mp hS0,
                  hWords.findIdx_iff.mp hLq, hApart, hSpaced,
                  discoverTickMapping_iff.mp ((if_neg hSpaced).symm.trans hMapping)⟩, rfl⟩
      · cases h
  · rintro ⟨s0, lq, t, b, sqrtPriceX96, tick, liq, h, rfl⟩
    refine bind_eq_ok.mpr ⟨_, answer_eq_ok.mpr h.slot0_answered, ?_⟩
    refine bind_eq_ok.mpr ⟨_, answer_eq_ok.mpr h.liquidity_answered, ?_⟩
    refine (if_neg h.live).trans ?_
    dsimp only
    rw [hWords.findIdx_iff.mpr h.slot0_least, hWords.findIdx_iff.mpr h.liquidity_least]
    refine (if_neg h.apart).trans (bind_eq_ok.mpr ⟨some (t, b), ?_, rfl⟩)
    exact (if_neg h.spaced).trans (discoverTickMapping_iff.mpr h.mapping)

theorem discoverAlgebra_iff (hWords : Scanned a words) :
    discoverAlgebra keccak a words = .ok (some layout) ↔ ∃ gs lq shift t b fee price tick lastFee liq word,
      AlgebraFound keccak a gs lq shift t b fee price tick lastFee liq word ∧
        layout = .algebra (.ofNat 64 gs) (.ofNat 64 lq) shift (.ofNat 64 t) (.ofNat 64 b) fee := by
  constructor
  · intro h
    obtain ⟨⟨price, tick, lastFee⟩, hState, h⟩ := bind_eq_ok.mp h
    obtain ⟨liq, hLiquidity, h⟩ := bind_eq_ok.mp h
    by_cases hDead : (price.setWidth 256 : U256) = 0#256 ∨ liq = 0#128
    · cases (if_pos hDead).symm.trans h
    · replace h := (if_neg hDead).symm.trans h
      dsimp only at h
      split at h
      · rename_i gs lq shift hGs hPick
        obtain ⟨found, hMapping, h⟩ := bind_eq_ok.mp h
        cases found with
        | none => cases h
        | some pair =>
          cases h
          have hLeast := hWords.findIdx_iff.mp hGs
          obtain ⟨word, hWord, -⟩ := holdsAt_eq_ok.mp hLeast.holds
          rw [hGs] at hPick
          obtain ⟨hLqLeast, hShift⟩ := hWords.liquidityPick_iff.mp hPick
          refine ⟨gs, lq, shift, pair.1, pair.2, _, price, tick, lastFee, liq, word,
            ⟨answer_eq_ok.mp hState, answer_eq_ok.mp hLiquidity, hDead, hLeast, hWord, hLqLeast, hShift,
              discoverTickMapping_iff.mp hMapping, rfl⟩, ?_⟩
          rw [List.getD_eq_getElem?_getD, (hWords.word hLeast.inside).trans hWord]
          rfl
      · cases h
  · rintro ⟨gs, lq, shift, t, b, fee, price, tick, lastFee, liq, word, h, rfl⟩
    refine bind_eq_ok.mpr ⟨_, answer_eq_ok.mpr h.globalState_answered, ?_⟩
    refine bind_eq_ok.mpr ⟨_, answer_eq_ok.mpr h.liquidity_answered, ?_⟩
    refine (if_neg h.live).trans ?_
    dsimp only
    rw [hWords.findIdx_iff.mpr h.globalState_least, hWords.liquidityPick_iff.mpr ⟨h.liquidity_least, h.liquidity_shift⟩]
    refine bind_eq_ok.mpr ⟨some (t, b), discoverTickMapping_iff.mpr h.mapping, ?_⟩
    dsimp only
    rw [List.getD_eq_getElem?_getD, (hWords.word h.globalState_least.inside).trans h.globalState_word, h.fee]
    rfl

theorem discoverPair_iff (hWords : Scanned a words) : discoverPair a words = .ok (some layout) ↔
    ∃ s r0 r1, a.pairReserves = some (r0, r1) ∧ (r0.setWidth 128 : U128) ≠ 0#128 ∧
      Least (fun s => holdsAt a (fun w => decodeV2Packed w = (r0.setWidth 128, r1.setWidth 128)) (BitVec.ofNat 256 s))
        scanSlots s ∧ layout = .v2Packed (.ofNat 64 s) := by
  constructor
  · intro h
    obtain ⟨⟨r0, r1⟩, hReserves, h⟩ := bind_eq_ok.mp h
    by_cases hDead : (r0.setWidth 128 : U128) = 0#128
    · cases (if_pos hDead).symm.trans h
    · replace h := (if_neg hDead).symm.trans h
      obtain ⟨s, hs, rfl⟩ := Option.map_eq_some_iff.mp (Except.ok.inj h)
      exact ⟨s, r0, r1, answer_eq_ok.mp hReserves, hDead, hWords.findIdx_iff.mp hs, rfl⟩
  · rintro ⟨s, r0, r1, hReserves, hLive, hLeast, rfl⟩
    refine bind_eq_ok.mpr ⟨_, answer_eq_ok.mpr hReserves, (if_neg hLive).trans ?_⟩
    dsimp only
    rw [hWords.findIdx_iff.mpr hLeast]
    rfl

theorem discoverAero_iff (hWords : Scanned a words) : discoverAero a words = .ok (some layout) ↔
    ∃ s r0 r1, a.aeroReserves = some (r0, r1) ∧ r0 ≠ 0#256 ∧ Least (pairAt a r0 r1) (scanSlots - 1) s ∧
      layout = .v2TwoSlots (.ofNat 64 s) := by
  constructor
  · intro h
    obtain ⟨⟨r0, r1⟩, hReserves, h⟩ := bind_eq_ok.mp h
    by_cases hDead : r0 = 0#256
    · cases (if_pos hDead).symm.trans h
    · replace h := (if_neg hDead).symm.trans h
      obtain ⟨s, hs, rfl⟩ := Option.map_eq_some_iff.mp (Except.ok.inj h)
      exact ⟨s, r0, r1, answer_eq_ok.mp hReserves, hDead, hWords.findIdx_pair_iff.mp hs, rfl⟩
  · rintro ⟨s, r0, r1, hReserves, hLive, hLeast, rfl⟩
    refine bind_eq_ok.mpr ⟨_, answer_eq_ok.mpr hReserves, (if_neg hLive).trans ?_⟩
    dsimp only
    rw [hWords.findIdx_pair_iff.mpr hLeast]
    rfl

theorem ofNat_toNat64 (slot : U64) : BitVec.ofNat 64 slot.toNat = slot := BitVec.ofNat_toNat 64 slot ▸ BitVec.setWidth_eq slot

/-- One sample determines a layout when every scanned slot answers and each field is found. -/
theorem discoverOne_iff : discoverOne keccak pool (some a) = .ok (some layout) ↔
    (∃ words, Scanned a words) ∧ Found keccak pool a layout := by
  constructor
  · intro h
    obtain ⟨_, hTip, h⟩ := bind_eq_ok.mp h
    cases answer_eq_ok.mp hTip
    obtain ⟨words, hWords, h⟩ := bind_eq_ok.mp h
    replace hWords : Scanned a words := answer_eq_ok.mp hWords
    refine ⟨⟨words, hWords⟩, ?_⟩
    split at h
    · rename_i hFamily
      obtain ⟨s0, lq, t, b, sqrtPriceX96, tick, liq, hFound, rfl⟩ := discoverV3_iff hWords |>.mp h
      refine ⟨hFamily, sqrtPriceX96, tick, liq, ?_⟩
      rwa [toNat_ofNat_of_least hFound.slot0_least (by decide), toNat_ofNat_of_least hFound.liquidity_least (by decide),
        hFound.mapping.toNat.1, hFound.mapping.toNat.2]
    · split at h
      · rename_i hDex
        obtain ⟨gs, lq, shift, t, b, fee, price, tick, lastFee, liq, word, hFound, rfl⟩ := discoverAlgebra_iff hWords |>.mp h
        refine ⟨hDex, price, tick, lastFee, liq, word, ?_⟩
        rwa [toNat_ofNat_of_least hFound.globalState_least (by decide),
          toNat_ofNat_of_least hFound.liquidity_least (by decide), hFound.mapping.toNat.1, hFound.mapping.toNat.2]
      · split at h
        · rename_i hDex
          obtain ⟨s, r0, r1, hReserves, hLive, hLeast, rfl⟩ := discoverPair_iff hWords |>.mp h
          refine ⟨hDex, r0, r1, hReserves, hLive, ?_⟩
          rwa [toNat_ofNat_of_least hLeast (by decide)]
        · rename_i hDex
          obtain ⟨s, r0, r1, hReserves, hLive, hLeast, rfl⟩ := discoverAero_iff hWords |>.mp h
          refine ⟨.inl hDex, r0, r1, hReserves, hLive, ?_⟩
          rwa [toNat_ofNat_of_least hLeast (by decide)]
        · rename_i hDex
          obtain ⟨s, r0, r1, hReserves, hLive, hLeast, rfl⟩ := discoverAero_iff hWords |>.mp h
          refine ⟨.inr hDex, r0, r1, hReserves, hLive, ?_⟩
          rwa [toNat_ofNat_of_least hLeast (by decide)]
        · cases h
  · rintro ⟨⟨words, hWords⟩, hFound⟩
    refine bind_eq_ok.mpr ⟨a, rfl, bind_eq_ok.mpr ⟨words, answer_eq_ok.mpr hWords, ?_⟩⟩
    cases layout with
    | v2Packed slot =>
      obtain ⟨hDex, r0, r1, hReserves, hLive, hLeast⟩ := hFound
      rw [hDex]
      exact (discoverPair_iff hWords).mpr ⟨_, r0, r1, hReserves, hLive, hLeast, by rw [ofNat_toNat64]⟩
    | v2TwoSlots slotR0 =>
      obtain ⟨hDex, r0, r1, hReserves, hLive, hLeast⟩ := hFound
      have hPair := (discoverAero_iff hWords).mpr ⟨_, r0, r1, hReserves, hLive, hLeast, rfl⟩
      rw [ofNat_toNat64] at hPair
      obtain hDex | hDex := hDex
      · rw [hDex]
        exact hPair
      · rw [hDex]
        exact hPair
    | v3 slot0 liquidity ticks tickBitmap =>
      obtain ⟨hFamily, sqrtPriceX96, tick, liq, hV3⟩ := hFound
      rw [if_pos hFamily]
      refine (discoverV3_iff hWords).mpr ⟨_, _, _, _, sqrtPriceX96, tick, liq, hV3, ?_⟩
      simp only [ofNat_toNat64]
    | algebra globalState liquiditySlot liquidityShift ticks tickTable feeShift =>
      obtain ⟨hDex, price, tick, lastFee, liq, word, hAlgebra⟩ := hFound
      rw [hDex]
      refine (discoverAlgebra_iff hWords).mpr ⟨_, _, _, _, _, _, price, tick, lastFee, liq, word, hAlgebra, ?_⟩
      simp only [ofNat_toNat64]

end Samples

section Discovered

variable (keccak : Keccak) (engine : Engine) (atTip : Nat → Option PoolAnswers)

def Determines (pool : PoolMeta) (layout : SlotLayout) : Prop :=
  ∃ a, atTip pool.idx = some a ∧ (∃ words, Scanned a words) ∧ Found keccak pool a layout

variable {keccak engine atTip} {tag : DexTag} {pool : PoolMeta} {layout : SlotLayout}

theorem sampleLayout_iff : sampleLayout keccak atTip pool = .ok (some layout) ↔ Determines keccak atTip pool layout := by
  constructor
  · intro h
    have hOne : discoverOne keccak pool (atTip pool.idx) = .ok (some layout) := by
      unfold sampleLayout at h
      split at h
      · cases h
      · exact h
    obtain ⟨a, hTip, -⟩ := bind_eq_ok.mp hOne
    rw [answer_eq_ok.mp hTip] at hOne
    exact ⟨a, answer_eq_ok.mp hTip, discoverOne_iff.mp hOne⟩
  · rintro ⟨a, hTip, hFound⟩
    rw [sampleLayout, hTip, discoverOne_iff.mpr hFound]

/-- Such a sample is passed over: its probe comes to an end and determines nothing. -/
def PassedOver (keccak : Keccak) (atTip : Nat → Option PoolAnswers) (pool : PoolMeta) : Prop :=
  discoverOne keccak pool (atTip pool.idx) ≠ .error .panicked ∧ ∀ layout, ¬Determines keccak atTip pool layout

theorem sampleLayout_eq_none : sampleLayout keccak atTip pool = .ok none ↔ PassedOver keccak atTip pool := by
  unfold PassedOver
  simp only [← sampleLayout_iff]
  unfold sampleLayout
  cases hOne : discoverOne keccak pool (atTip pool.idx) with
  | error e => cases e <;> simp
  | ok found => cases found <;> simp

/-- The layout of a protocol is what the first of its samples that determines one does. -/
theorem discoverLayouts_eq_some : discoverLayouts keccak engine atTip tag = .ok (some layout) ↔
    ∃ passed pool rest, samples engine tag = passed ++ pool :: rest ∧ Determines keccak atTip pool layout ∧
      ∀ other ∈ passed, PassedOver keccak atTip other := by
  rw [discoverLayouts, first_eq_some_iff_append]
  simp only [sampleLayout_iff, sampleLayout_eq_none]

theorem mem_samples (h : pool ∈ samples engine tag) : pool ∈ engine.metas ∧ pool.dex = tag ∧ pool.dex.isV4 = false := by
  obtain ⟨hFiltered, hTag⟩ := List.mem_filter.mp (List.mem_of_mem_take h)
  obtain ⟨hMetas, hV4⟩ := List.mem_filter.mp hFiltered
  exact ⟨hMetas, of_decide_eq_true hTag, Bool.not_eq_true' _ ▸ hV4⟩

/-- `discover_layouts` by its samples: three pools of the protocol at most, in their order,
and the first that determines a layout decides. -/
theorem discoverLayouts_exact (keccak : Keccak) (engine : Engine) (atTip : Nat → Option PoolAnswers) (tag : DexTag) :
    (∀ layout, discoverLayouts keccak engine atTip tag = .ok (some layout) ↔
      ∃ passed pool rest, samples engine tag = passed ++ pool :: rest ∧ Determines keccak atTip pool layout ∧
        ∀ other ∈ passed, PassedOver keccak atTip other) ∧
    (discoverLayouts keccak engine atTip tag = .ok none ↔ ∀ pool ∈ samples engine tag, PassedOver keccak atTip pool) := by
  refine ⟨fun layout => discoverLayouts_eq_some, ?_⟩
  rw [discoverLayouts, first_eq_none_iff]
  simp only [sampleLayout_eq_none]

end Discovered

end Robinarb
