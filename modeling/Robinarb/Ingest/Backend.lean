import Robinarb.Engine.Engine

/-! # Logs, events and the filter set

The event decoders are generated code of a dependency and a parameter here.
-/

namespace Robinarb

structure Log where
  address : Address
  topics : List B256
  data : List U8
  blockNumber : Option Nat
  logIndex : Option Nat
  deriving DecidableEq

/-- Ticks are `[tickLower, tickUpper]`. -/
inductive IngestEvent where
  | newHead (number timestamp baseFeePerGas : Nat)
  | poolLog (block idx : Nat) (touchedTicks : Option (Int × Int))
  | resync
  deriving DecidableEq

/-- `decode_log` of the liquidity events: the tick range of a log that decodes. -/
structure LogDecoders where
  mint : Log → Option (Int × Int)
  burn : Log → Option (Int × Int)
  modifyLiquidity : Log → Option (Int × Int)

def decodeTouchedTicks (d : LogDecoders) (log : Log) : Option (Int × Int) :=
  match d.mint log with
  | some ticks => some ticks
  | none =>
    match d.burn log with
    | some ticks => some ticks
    | none =>
      match d.modifyLiquidity log with
      | some ticks => some ticks
      | none => none

def univ4PoolManager : Address := 0x8366a39cc670b4001a1121b8f6a443a643e40951#160

structure FilterSet where
  engine : Engine
  topics : List B256

def FilterSet.resolve (f : FilterSet) (log : Log) : Option Nat :=
  if log.address = univ4PoolManager then
    match log.topics[1]? with
    | none => none
    | some poolId => f.engine.poolAt (V4Meta.syntheticAddress poolId)
  else
    f.engine.poolAt log.address

/-- `Filter::event_signature` on the first topic: an empty list matches every log. -/
def matchesTopics (topics : List B256) (log : Log) : Bool :=
  topics.isEmpty || match log.topics[0]? with
    | none => false
    | some topic => topics.contains topic

/-- `Filter::address`: an empty list matches every log. -/
def matchesAddress (addresses : List Address) (log : Log) : Bool :=
  addresses.isEmpty || addresses.contains log.address

theorem FilterSet.resolve_address {f : FilterSet} {log : Log} (h : (f.resolve log).isSome)
    (hNot : log.address ≠ univ4PoolManager) : log.address ∈ f.engine.addresses := by
  rw [resolve, if_neg hNot] at h
  exact (f.engine.poolAt_isSome_iff _).mp h

theorem FilterSet.resolve_nonempty {f : FilterSet} {log : Log} (h : (f.resolve log).isSome) :
    f.engine.addresses ≠ [] := by
  have hPool : ∃ addr, (f.engine.poolAt addr).isSome := by
    unfold resolve at h
    split at h
    · split at h
      · cases h
      · exact ⟨_, h⟩
    · exact ⟨_, h⟩
  obtain ⟨addr, hAddr⟩ := hPool
  exact List.ne_nil_of_mem ((f.engine.poolAt_isSome_iff addr).mp hAddr)

end Robinarb
