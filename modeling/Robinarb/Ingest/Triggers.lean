import Robinarb.Ingest.Backfill

/-! # Which logs wake the evaluator

The events declared in `abi.rs`, the topics the subscription asks for, and the logs a
pool's protocol emits when its state changes. A declaration is kept as far as its
signature reads it. The hash of a signature is a parameter.
-/

namespace Robinarb

inductive SolType where
  | address
  | uint (bits : Nat)
  | int (bits : Nat)
  | bytes32
  deriving DecidableEq

structure EventDecl where
  name : String
  params : List SolType
  deriving DecidableEq

def UniV2Events.sync : EventDecl := ⟨"Sync", [.uint 112, .uint 112]⟩

def AeroEvents.sync : EventDecl := ⟨"Sync", [.uint 256, .uint 256]⟩

namespace UniV3Events

def swap : EventDecl := ⟨"Swap", [.address, .address, .int 256, .int 256, .uint 160, .uint 128, .int 24]⟩

def mint : EventDecl := ⟨"Mint", [.address, .address, .int 24, .int 24, .uint 128, .uint 256, .uint 256]⟩

def burn : EventDecl := ⟨"Burn", [.address, .int 24, .int 24, .uint 128, .uint 256, .uint 256]⟩

end UniV3Events

/-- Two protocol fee words more than the Uniswap event. -/
def PancakeV3Events.swap : EventDecl :=
  ⟨"Swap", [.address, .address, .int 256, .int 256, .uint 160, .uint 128, .int 24, .uint 128, .uint 128]⟩

def AlgebraEvents.swap : EventDecl :=
  ⟨"Swap", [.address, .address, .int 256, .int 256, .uint 160, .uint 128, .int 24, .uint 24, .uint 24]⟩

def SlipstreamEvents.poolCreated : EventDecl := ⟨"PoolCreated", [.address, .address, .int 24, .address]⟩

namespace UniV4Events

def swap : EventDecl :=
  ⟨"Swap", [.bytes32, .address, .int 128, .int 128, .uint 160, .uint 128, .int 24, .uint 24]⟩

def modifyLiquidity : EventDecl :=
  ⟨"ModifyLiquidity", [.bytes32, .address, .int 24, .int 24, .int 256, .bytes32]⟩

end UniV4Events

/-- The events `event_topics` lists. -/
def subscribedEvents : List EventDecl :=
  [UniV2Events.sync, AeroEvents.sync, UniV3Events.swap, UniV3Events.mint, UniV3Events.burn, AlgebraEvents.swap,
    SlipstreamEvents.poolCreated, UniV4Events.swap, UniV4Events.modifyLiquidity]

def eventTopics (signatureHash : EventDecl → B256) : List B256 := subscribedEvents.map signatureHash

/-- The events a protocol emits when reserves, price, active liquidity or ticks of a pool change. -/
def DexTag.changeEvents : DexTag → List EventDecl
  | .uniV2Fork => [UniV2Events.sync]
  | .aeroVolatile | .aeroStable => [AeroEvents.sync]
  | .uniV3Fork | .slipstream => [UniV3Events.swap, UniV3Events.mint, UniV3Events.burn]
  | .pancakeV3 => [PancakeV3Events.swap, UniV3Events.mint, UniV3Events.burn]
  | .algebra => [AlgebraEvents.swap, UniV3Events.mint]
  | .uniV4 => [UniV4Events.swap, UniV4Events.modifyLiquidity]

section Triggers

variable (signatureHash : EventDecl → B256)

/-- A V4 pool's logs come from the PoolManager with the pool id as the first indexed word,
every other pool's from the pool itself. -/
structure Emits (pool : PoolMeta) (event : EventDecl) (log : Log) : Prop where
  topic0 : log.topics[0]? = some (signatureHash event)
  source : match pool.v4 with
    | some v4 => log.address = univ4PoolManager ∧ log.topics[1]? = some v4.poolId
    | none => log.address = pool.address

/-- The log passes the topic filter and resolves to exactly this pool. -/
def Triggers (e : Engine) (pool : PoolMeta) (log : Log) : Prop :=
  (∃ topic ∈ eventTopics signatureHash, log.topics[0]? = some topic) ∧
    FilterSet.resolve ⟨e, eventTopics signatureHash⟩ log = some pool.idx

/-- The declarations whose topics must be told apart. -/
def declaredEvents : List EventDecl := PancakeV3Events.swap :: subscribedEvents

/-- Every change event is subscribed, but for one. -/
theorem changeEvents_subscribed {dex : DexTag} {event : EventDecl} (h : event ∈ dex.changeEvents) :
    event ∈ subscribedEvents ↔ event ≠ PancakeV3Events.swap := by
  have hAll : ∀ event ∈ subscribedEvents, event ≠ PancakeV3Events.swap := by decide
  constructor
  · exact hAll event
  · intro hNot
    have hEvery : ∀ dex : DexTag, ∀ event ∈ dex.changeEvents,
        event = PancakeV3Events.swap ∨ event ∈ subscribedEvents := by
      rintro (_ | _ | _ | _ | _ | _ | _ | _) <;> decide
    exact (hEvery dex event h).resolve_left hNot

theorem changeEvents_declared {dex : DexTag} {event : EventDecl} (h : event ∈ dex.changeEvents) :
    event ∈ declaredEvents := by
  by_cases hPancake : event = PancakeV3Events.swap
  · exact hPancake ▸ List.mem_cons_self
  · exact List.mem_cons_of_mem _ ((changeEvents_subscribed h).mpr hPancake)

variable {signatureHash}

theorem topic_mem_iff
    (hDistinct : ∀ a ∈ declaredEvents, ∀ b ∈ declaredEvents, signatureHash a = signatureHash b → a = b)
    {event : EventDecl} (hDeclared : event ∈ declaredEvents) :
    signatureHash event ∈ eventTopics signatureHash ↔ event ∈ subscribedEvents := by
  constructor
  · intro h
    obtain ⟨other, hOther, hEq⟩ := List.mem_map.mp h
    rwa [← hDistinct other (List.mem_cons_of_mem _ hOther) event hDeclared hEq]
  · exact List.mem_map_of_mem

variable {registrations : List PoolMeta} {e : Engine} {pool : PoolMeta}

theorem resolve_emitted (hNew : Engine.new registrations = some e) (hPool : pool ∈ registrations)
    (hSynthetic : ∀ v4, pool.v4 = some v4 → pool.address = V4Meta.syntheticAddress v4.poolId)
    (hManager : pool.v4 = none → pool.address ≠ univ4PoolManager) {event : EventDecl} {log : Log}
    (hLog : Emits signatureHash pool event log) (topics : List B256) :
    FilterSet.resolve ⟨e, topics⟩ log = some pool.idx := by
  have hFound := Engine.poolAt_registered hNew hPool
  obtain ⟨-, hSource⟩ := hLog
  cases hV4 : pool.v4 with
  | none =>
    rw [hV4] at hSource
    simp only at hSource
    rw [FilterSet.resolve, if_neg (hSource ▸ hManager hV4), hSource, hFound]
  | some v4 =>
    rw [hV4] at hSource
    simp only at hSource
    obtain ⟨hAddress, hId⟩ := hSource
    simp only [FilterSet.resolve, if_pos hAddress, hId]
    rw [← hSynthetic v4 hV4, hFound]

/-- A log of an event, with the pool id where the protocol has one and no other words. -/
def bareLog (signatureHash : EventDecl → B256) (pool : PoolMeta) (event : EventDecl) : Log :=
  match pool.v4 with
  | some v4 => ⟨univ4PoolManager, [signatureHash event, v4.poolId], [], none, none⟩
  | none => ⟨pool.address, [signatureHash event], [], none, none⟩

variable (signatureHash pool) in
theorem bareLog_emitted (event : EventDecl) : Emits signatureHash pool event (bareLog signatureHash pool event) := by
  unfold bareLog
  constructor
  · split <;> rfl
  · split
    · exact ⟨rfl, rfl⟩
    · rfl

/-- For each registered pool and each event its protocol emits on a change, every such
log is a trigger of that pool exactly if the event is not the Swap of Pancake V3, which
has a topic of its own, and the pool has not been registered at the PoolManager. -/
theorem emitted_triggers_iff
    (hDistinct : ∀ a ∈ declaredEvents, ∀ b ∈ declaredEvents, signatureHash a = signatureHash b → a = b)
    (hNew : Engine.new registrations = some e) (hPool : pool ∈ registrations)
    (hSynthetic : ∀ v4, pool.v4 = some v4 → pool.address = V4Meta.syntheticAddress v4.poolId)
    {event : EventDecl} (hEvent : event ∈ pool.dex.changeEvents) :
    (∀ log, Emits signatureHash pool event log → Triggers signatureHash e pool log) ↔
      event ≠ PancakeV3Events.swap ∧ (pool.v4 = none → pool.address ≠ univ4PoolManager) := by
  constructor
  · intro hAll
    have hBare := bareLog_emitted signatureHash pool event
    obtain ⟨⟨topic, hTopic, hFirst⟩, hResolve⟩ := hAll _ hBare
    constructor
    · rw [hBare.topic0, Option.some.injEq] at hFirst
      rw [← hFirst, topic_mem_iff hDistinct (changeEvents_declared hEvent)] at hTopic
      exact (changeEvents_subscribed hEvent).mp hTopic
    · intro hV4 hAddress
      have hLog : bareLog signatureHash pool event = ⟨pool.address, [signatureHash event], [], none, none⟩ := by
        rw [bareLog, hV4]
      rw [hLog, FilterSet.resolve, if_pos hAddress] at hResolve
      cases hResolve
  · rintro ⟨hSwap, hManager⟩ log hLog
    have hListed := (changeEvents_subscribed hEvent).mpr hSwap
    refine ⟨⟨signatureHash event, List.mem_map_of_mem hListed, hLog.topic0⟩, ?_⟩
    exact resolve_emitted hNew hPool hSynthetic hManager hLog _

end Triggers

section Sample

def referenceTopics : List (EventDecl × B256) :=
  [(UniV2Events.sync, syncTopic),
    (AeroEvents.sync, 0xcf2aa50876cdfbb541206f89af0ee78d44a2abf8d328e37fa4917f982149848a#256),
    (UniV3Events.swap, 0xc42079f94a6350d7e6235f29174924f928cc2ac818eb64fed8004e115fbcca67#256),
    (UniV3Events.mint, 0x7a53080ba414158be7ec69b987b5fb7d07dee101fe85488f0853ae16239d0bde#256),
    (UniV3Events.burn, 0x0c396cd989a39f4459b5fa1aed6a9a8dcdbc45908acfd67e028cd568da98982c#256),
    (AlgebraEvents.swap, 0x121cb44ee54098b1a04743c487e7460d8dd429b27f88b1f4d4767396e1a59f79#256),
    (SlipstreamEvents.poolCreated, 0xab0d57f0df537bb25e80245ef7748fa62353808c54d6e528a9dd20887aed9ac2#256),
    (UniV4Events.swap, v4SwapTopic),
    (UniV4Events.modifyLiquidity, 0xf208f4912782fd25c7f114ca3723a2d5dd6f3bcc3ac8db5af63baa85f711d5ec#256),
    (PancakeV3Events.swap, 0x19b47279256b2a23a1665c810c8d55a1758940ee09377d4f8d26497a3577dc83#256)]

def referenceHash (event : EventDecl) : B256 := (referenceTopics.lookup event).getD 0#256

theorem referenceHash_distinct : ∀ a ∈ declaredEvents, ∀ b ∈ declaredEvents,
    referenceHash a = referenceHash b → a = b := by decide +kernel

def pancakePool : PoolMeta where
  idx := 0
  address := 3#160
  dex := .pancakeV3
  token0 := 10#160
  token1 := 11#160
  dec0 := 18#8
  dec1 := 18#8
  feeBps := 25#32
  feePips := 2500#32
  tickSpacing := 50
  v4 := none

/-- A swap of a registered Pancake V3 pool is no trigger. -/
theorem pancake_swap_ignored : ∃ e, Engine.new [pancakePool] = some e ∧
    PancakeV3Events.swap ∈ pancakePool.dex.changeEvents ∧
    Emits referenceHash pancakePool PancakeV3Events.swap
      ⟨3#160, [referenceHash PancakeV3Events.swap, 5#256, 6#256], List.replicate 224 0#8, some 10, some 0⟩ ∧
    ¬Triggers referenceHash e pancakePool
      ⟨3#160, [referenceHash PancakeV3Events.swap, 5#256, 6#256], List.replicate 224 0#8, some 10, some 0⟩ := by
  refine ⟨⟨[pancakePool], [(3#160, 0)]⟩, rfl, by decide, ⟨rfl, rfl⟩, ?_⟩
  rintro ⟨⟨topic, hTopic, hFirst⟩, -⟩
  cases hFirst
  have hListed := (topic_mem_iff referenceHash_distinct (by decide)).mp hTopic
  exact absurd hListed (by decide)

theorem pair_sync_triggers :
    (∀ log, Emits referenceHash samplePair UniV2Events.sync log →
      Triggers referenceHash pairFilters.engine samplePair log) ↔
    UniV2Events.sync ≠ PancakeV3Events.swap ∧ (samplePair.v4 = none → samplePair.address ≠ univ4PoolManager) :=
  emitted_triggers_iff referenceHash_distinct (show Engine.new [samplePair] = some pairFilters.engine from rfl)
    List.mem_cons_self nofun List.mem_cons_self

end Sample

end Robinarb
