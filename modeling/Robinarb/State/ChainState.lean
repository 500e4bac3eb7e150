import Robinarb.Library.CacheFill
import Robinarb.Ingest.SlotLayout

/-! # Chain state: the memo, the tick cache and their batches

`ChainState` without its provider: the replies of `eth_getStorageAt` are the
completions of a batch, in whatever order they arrive and with whatever
failures. A batch is the list of slots an operation asks for.
-/

namespace Robinarb

open CacheFill

inductive TickCodec where
  | packed
  | twoWord
  deriving DecidableEq

inductive ClFee where
  | fromMeta
  | word (shift : Nat)

/-- The read recipe of a concentrated-liquidity pool. -/
structure ClPlan where
  addr : Address
  slot0 : U256
  liquidity : U256
  liquidityShift : Nat
  ticksBase : U256
  bitmapBase : U256
  tickCodec : TickCodec
  fee : ClFee

inductive SlotPlan where
  | v2Packed (addr : Address) (slot : U256)
  | v2TwoSlot (addr : Address) (r0 : U256)
  | cl (plan : ClPlan)

abbrev SlotKey := Address × U256

instance : LawfulBEq SlotKey := inferInstance

/-- What the chain stores, one block at a time. -/
abbrev Storage := SlotKey → U256

abbrev SlotCache := Cache SlotKey U256

abbrev SlotCompletion := Completion SlotKey U256

structure ChainState where
  memo : SlotCache
  tickCache : SlotCache
  plans : List (Option SlotPlan)

namespace ChainState

def plan (s : ChainState) (idx : Nat) : Option SlotPlan := s.plans[idx]?.join

/-- Memo, then tick cache, then zero. -/
def read (s : ChainState) (addr : Address) (slot : U256) : U256 :=
  match s.memo (addr, slot) with
  | some v => v
  | none => (s.tickCache (addr, slot)).getD 0#256

def readTickCacheChecked (s : ChainState) (addr : Address) (slot : U256) : Option U256 :=
  s.tickCache (addr, slot)

/-- `prefetch_ticks` once its reads have completed. -/
def prefetchTicks (s : ChainState) (completions : List SlotCompletion) : ChainState :=
  { s with tickCache := fill s.tickCache completions }

/-- The memo of `advance_to`; the tip is not read here. -/
def advanceTo (s : ChainState) : ChainState := { s with memo := fun _ => none }

/-- `prefetch` once its reads have completed. -/
def prefetch (s : ChainState) (completions : List SlotCompletion) : ChainState :=
  { s with memo := fill s.memo completions }

@[simp] theorem prefetchTicks_memo (s : ChainState) (completions : List SlotCompletion) :
    (s.prefetchTicks completions).memo = s.memo := rfl

@[simp] theorem prefetchTicks_tickCache (s : ChainState) (completions : List SlotCompletion) :
    (s.prefetchTicks completions).tickCache = fill s.tickCache completions := rfl

theorem read_of_memo {s : ChainState} {addr : Address} {slot v : U256} (h : s.memo (addr, slot) = some v) :
    s.read addr slot = v := by
  simp only [read, h]

theorem read_of_memo_none {s : ChainState} {addr : Address} {slot : U256} (h : s.memo (addr, slot) = none) :
    s.read addr slot = (s.tickCache (addr, slot)).getD 0#256 := by
  simp only [read, h]

def planSlots : SlotPlan → List SlotKey
  | .v2Packed addr slot => [(addr, slot)]
  | .v2TwoSlot addr r0 => [(addr, r0), (addr, r0 + 1#256)]
  | .cl plan => [(plan.addr, plan.slot0), (plan.addr, plan.liquidity)]

end ChainState

def saturateI16 (x : Int) : Int := max (-2 ^ 15) (min x (2 ^ 15 - 1))

def wordRange (lo hi : Int) : List Int := (List.range (hi + 1 - lo).toNat).map fun (k : Nat) => lo + (k : Int)

theorem mem_wordRange {lo hi w : Int} : w ∈ wordRange lo hi ↔ lo ≤ w ∧ w ≤ hi := by
  simp only [wordRange, List.mem_map, List.mem_range]
  constructor
  · rintro ⟨k, hk, rfl⟩
    omega
  · rintro ⟨hLow, hHigh⟩
    exact ⟨(w - lo).toNat, by omega, by omega⟩

/-- The tick of a bit of a bitmap word, as the hydration passes compute it. -/
def rawTick (word : Int) (bit : Nat) (spacing : Int) : Int := wrapI32 (wrapI32 (word * 256 + bit) * spacing)

section Batches

variable (keccak : Keccak)

def bitmapSlot (addr : Address) (bitmapBase : U256) (word : Int) : SlotKey :=
  (addr, mappingSlotSigned keccak word bitmapBase)

def tickSlot (addr : Address) (ticksBase : U256) (tick : Int) : SlotKey :=
  (addr, mappingSlotSigned keccak tick ticksBase)

/-- The tick-net slots of the bits set in one bitmap word. -/
def slotsOfBits (addr : Address) (ticksBase : U256) (spacing word : Int) (bits : U256) : List SlotKey :=
  if bits = 0#256 then []
  else ((List.range 256).filter fun bit => bits.getLsbD bit).map fun bit =>
    tickSlot keccak addr ticksBase (rawTick word bit spacing)

theorem mem_slotsOfBits {addr : Address} {ticksBase : U256} {spacing word : Int} {bits : U256}
    {key : SlotKey} : key ∈ slotsOfBits keccak addr ticksBase spacing word bits ↔
      ∃ bit, bits.getLsbD bit = true ∧ key = tickSlot keccak addr ticksBase (rawTick word bit spacing) := by
  unfold slotsOfBits
  split
  · rename_i hZero
    simp [hZero]
  · simp only [List.mem_map, List.mem_filter, List.mem_range]
    constructor
    · rintro ⟨bit, ⟨_, hSet⟩, rfl⟩
      exact ⟨bit, hSet, rfl⟩
    · rintro ⟨bit, hSet, rfl⟩
      exact ⟨bit, ⟨BitVec.lt_of_getLsbD hSet, hSet⟩, rfl⟩

structure PoolWindow where
  addr : Address
  ticksBase : U256
  bitmapBase : U256
  spacing : Int
  lo : Int
  hi : Int

def bootstrapTickWordRange : Int := 64
def patchWordRange : Int := 1

namespace ChainState

/-- The window of one pool around its current tick; only packed CL pools have one. -/
def clTickWindow (s : ChainState) (range : Int) : SlotPlan × Int → Option PoolWindow
  | (.cl plan, tickSpacing) =>
    match plan.tickCodec with
    | .packed =>
      let tick := (decodeV3Slot0 (s.read plan.addr plan.slot0)).2
      let spacing := max tickSpacing 1
      let centerWord := asI16 (compressTick tick spacing >>> (8 : Nat))
      some ⟨plan.addr, plan.ticksBase, plan.bitmapBase, spacing, saturateI16 (centerWord - range),
        saturateI16 (centerWord + range)⟩
    | .twoWord => none
  | _ => none

def clTickWindows (s : ChainState) (plans : List (SlotPlan × Int)) (range : Int) : List PoolWindow :=
  plans.filterMap (s.clTickWindow range)

/-- The first batch of `prefetch_cl_tick_windows`: every bitmap word of every window. -/
def windowBitmapSlots (windows : List PoolWindow) : List SlotKey :=
  windows.flatMap fun pw => (wordRange pw.lo pw.hi).map (bitmapSlot keccak pw.addr pw.bitmapBase)

/-- The second batch: the nets of the bits that are set in the words as read now. -/
def windowTickSlots (s : ChainState) (windows : List PoolWindow) : List SlotKey :=
  windows.flatMap fun pw => (wordRange pw.lo pw.hi).flatMap fun w =>
    slotsOfBits keccak pw.addr pw.ticksBase pw.spacing w
      (s.read pw.addr (mappingSlotSigned keccak w pw.bitmapBase))

/-- The words `patch_cl_ticks` re-reads: each touched tick's own and its neighbours. -/
def patchWords (tickSpacing : Int) (ticks : List Int) : List Int :=
  ticks.flatMap fun t =>
    let word := asI16 (compressTick t (max tickSpacing 1) >>> (8 : Nat))
    wordRange (saturateI16 (word - patchWordRange)) (saturateI16 (word + patchWordRange))

def patchBitmapSlots (addr : Address) (bitmapBase : U256) (tickSpacing : Int) (ticks : List Int) :
    List SlotKey :=
  (patchWords tickSpacing ticks).map (bitmapSlot keccak addr bitmapBase)

/-- The second batch of `patch_cl_ticks`: the touched ticks, then every set bit of the words. -/
def patchTickSlots (s : ChainState) (addr : Address) (ticksBase bitmapBase : U256) (tickSpacing : Int)
    (ticks : List Int) : List SlotKey :=
  ticks.map (tickSlot keccak addr ticksBase) ++
    (patchWords tickSpacing ticks).flatMap fun w =>
      slotsOfBits keccak addr ticksBase (max tickSpacing 1) w
        (s.read addr (mappingSlotSigned keccak w bitmapBase))

end ChainState

end Batches

/-- The lazy tick source of the walk, with its one-word cache. -/
structure ClTickReader where
  state : ChainState
  addr : Address
  ticksBase : U256
  bitmapBase : U256
  codec : TickCodec
  lastWord : Option (Int × U256)

namespace ClTickReader

variable (keccak : Keccak)

def new (state : ChainState) (addr : Address) (ticksBase bitmapBase : U256) (codec : TickCodec) :
    ClTickReader :=
  ⟨state, addr, ticksBase, bitmapBase, codec, none⟩

def rd (r : ClTickReader) (slot : U256) : U256 := r.state.read r.addr slot

/-- Looks a word up and remembers it. -/
def fetchWord (r : ClTickReader) (word : Int) : Option U256 × ClTickReader :=
  match r.state.readTickCacheChecked r.addr (mappingSlotSigned keccak word r.bitmapBase) with
  | none => (none, r)
  | some bits => (some bits, { r with lastWord := some (word, bits) })

def bitmapWord (r : ClTickReader) (word : Int) : Option U256 × ClTickReader :=
  match r.lastWord with
  | some (w, bits) => if w = word then (some bits, r) else r.fetchWord keccak word
  | none => r.fetchWord keccak word

def liquidityNet (r : ClTickReader) (tick : Int) : I128 :=
  let slot0 := mappingSlotSigned keccak tick r.ticksBase
  match r.codec with
  | .packed => ((r.rd slot0) >>> 128).setWidth 128
  | .twoWord => decodeLow128 (r.rd (slot0 + 1#256))

/-- The source a quote sees through a reader: the one-word cache leaves no trace in it. -/
def source (r : ClTickReader) : TickSource where
  bitmapWord word := r.state.readTickCacheChecked r.addr (mappingSlotSigned keccak word r.bitmapBase)
  liquidityNet := r.liquidityNet keccak

/-- The remembered word is what the tick cache holds. -/
def Coherent (r : ClTickReader) : Prop :=
  ∀ word bits, r.lastWord = some (word, bits) → (r.source keccak).bitmapWord word = some bits

theorem new_coherent (state : ChainState) (addr : Address) (ticksBase bitmapBase : U256) (codec : TickCodec) :
    (new state addr ticksBase bitmapBase codec).Coherent keccak :=
  nofun

theorem fetchWord_eq {r : ClTickReader} (h : r.Coherent keccak) (word : Int) :
    (r.fetchWord keccak word).1 = (r.source keccak).bitmapWord word ∧
      (r.fetchWord keccak word).2.source keccak = r.source keccak ∧
      (r.fetchWord keccak word).2.Coherent keccak := by
  unfold fetchWord
  split
  · rename_i hRead
    exact ⟨hRead.symm, rfl, h⟩
  · rename_i bits hRead
    refine ⟨hRead.symm, rfl, ?_⟩
    rintro w found hLast
    cases hLast
    exact hRead

theorem bitmapWord_eq {r : ClTickReader} (h : r.Coherent keccak) (word : Int) :
    (r.bitmapWord keccak word).1 = (r.source keccak).bitmapWord word ∧
      (r.bitmapWord keccak word).2.source keccak = r.source keccak ∧
      (r.bitmapWord keccak word).2.Coherent keccak := by
  unfold bitmapWord
  split
  · rename_i w bits hLast
    split
    · rename_i hWord
      exact ⟨(hWord ▸ h w bits hLast).symm, rfl, h⟩
    · exact fetchWord_eq keccak h word
  · exact fetchWord_eq keccak h word

end ClTickReader

/-- The reader a quote of the pool builds over a state. -/
def ClPlan.reader (plan : ClPlan) (s : ChainState) : ClTickReader :=
  .new s plan.addr plan.ticksBase plan.bitmapBase plan.tickCodec

end Robinarb
