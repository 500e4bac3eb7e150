import Robinarb.Ingest.Discovery
import Robinarb.State.ChainState

/-! # Slot plans

`build_slot_plans`: which storage a quote of each pool reads. Layouts are discovered
per protocol; V4 pools need none, their slots derive from the pool id.
-/

namespace Robinarb

inductive SlotLayout where
  | v2Packed (slot : U64)
  | v2TwoSlots (slotR0 : U64)
  | v3 (slot0 liquidity ticks tickBitmap : U64)
  | algebra (globalState liquiditySlot : U64) (liquidityShift : Nat) (ticks tickTable : U64) (feeShift : Option Nat)

def v4PoolsSlot : U256 := 6#256
def v4LiquidityOffset : U256 := 3#256
def v4TicksOffset : U256 := 4#256
def v4TickBitmapOffset : U256 := 5#256

/-- `keccak256(abi.encodePacked(poolId, POOLS_SLOT))`. -/
def v4StateSlot (keccak : Keccak) (poolId : B256) : U256 := keccak (poolId ++ v4PoolsSlot)

/-- The manager's storage of one pool id. -/
def v4Plan (keccak : Keccak) (poolId : B256) : ClPlan :=
  let stateSlot := v4StateSlot keccak poolId
  { addr := univ4PoolManager
    slot0 := stateSlot
    liquidity := stateSlot + v4LiquidityOffset
    liquidityShift := 0
    ticksBase := stateSlot + v4TicksOffset
    bitmapBase := stateSlot + v4TickBitmapOffset
    tickCodec := .packed
    fee := .fromMeta }

/-- `algebra_fee_word_trusted` answers a pool, its state slot and a shift; an error is `none`. -/
def layoutPlan (feeWordTrusted : Address → U64 → Nat → Option Bool) (address : Address) : SlotLayout → SlotPlan
  | .v2Packed slot => .v2Packed address (slot.setWidth 256)
  | .v2TwoSlots slotR0 => .v2TwoSlot address (slotR0.setWidth 256)
  | .v3 slot0 liquidity ticks tickBitmap =>
    .cl ⟨address, slot0.setWidth 256, liquidity.setWidth 256, 0, ticks.setWidth 256, tickBitmap.setWidth 256, .packed,
      .fromMeta⟩
  | .algebra globalState liquiditySlot liquidityShift ticks tickTable feeShift =>
    let fee :=
      match feeShift with
      | some shift =>
        match feeWordTrusted address globalState shift with
        | some true => .word shift
        | some false => .fromMeta
        | none => .fromMeta
      | none => .fromMeta
    .cl ⟨address, globalState.setWidth 256, liquiditySlot.setWidth 256, liquidityShift, ticks.setWidth 256,
      tickTable.setWidth 256, .twoWord, fee⟩

def slotPlan (keccak : Keccak) (layouts : DexTag → Option SlotLayout)
    (feeWordTrusted : Address → U64 → Nat → Option Bool) (pool : PoolMeta) : Option SlotPlan :=
  match pool.v4 with
  | some v4 => some (.cl (v4Plan keccak v4.poolId))
  | none => (layouts pool.dex).map (layoutPlan feeWordTrusted pool.address)

def buildSlotPlans (keccak : Keccak) (layouts : DexTag → Option SlotLayout)
    (feeWordTrusted : Address → U64 → Nat → Option Bool) (engine : Engine) : List (Option SlotPlan) :=
  engine.metas.map (slotPlan keccak layouts feeWordTrusted)

end Robinarb
