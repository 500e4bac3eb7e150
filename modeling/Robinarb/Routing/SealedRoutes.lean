import Robinarb.Routing.RouteReads
import Robinarb.Routing.Store
import Robinarb.Routing.SpotGate
import Robinarb.State.Hydration
import Robinarb.State.SlotPlans

/-! # The slots of an announced batch

`seal` and `resync_all` clear the memo and prefetch base slots before they announce their
pools. Every base slot that a route through an announced pool reads is then in the memo.
-/

namespace Robinarb

open CacheFill Lookups Logged

namespace ChainState

/-- The slots `prefetch_pools` asks for. -/
def poolsSlots (s : ChainState) (pools : List Nat) : List SlotKey :=
  pools.flatMap fun idx => ((s.plan idx).map planSlots).getD []

/-- The slots `prefetch_neighborhood` asks for. -/
def neighborhoodSlots (s : ChainState) (store : RouteStore) (dirty : List Nat) : List SlotKey :=
  s.poolsSlots (store.neighborhood dirty)

def Present (s : ChainState) (key : SlotKey) : Prop := (s.memo key).isSome = true

theorem mem_poolsSlots {s : ChainState} {pools : List Nat} {idx : Nat} (hIdx : idx ∈ pools) {plan : SlotPlan}
    (hPlan : s.plan idx = some plan) {key : SlotKey} (hKey : key ∈ planSlots plan) : key ∈ s.poolsSlots pools := by
  apply List.mem_flatMap.mpr
  exact ⟨idx, hIdx, by rwa [hPlan]⟩

end ChainState

section Announced

variable (engine : Engine) (store : RouteStore) (s : ChainState)

/-- The pools of a batch, with the slots that were asked for before it was sent. -/
inductive Announced : List Nat → List SlotKey → Prop where
  | sealed {dirty : List Nat} (nonempty : dirty ≠ []) : Announced dirty (s.neighborhoodSlots store dirty)
  | resynced : Announced (List.range engine.metas.length) (s.poolsSlots (List.range engine.metas.length))

variable {ε : Type} (M : SwapMath ε) (keccak : Keccak) (K : Type) [Field K] [LinearOrder K] [FloorSemiring K]

/-- No base slot that the readers of a route look up is missing from the memo, whatever
the amounts. By `slots` this does not hang on how the floats round either. -/
structure RouteCovered (route : Route) : Prop where
  spot : (spotProductReading K engine route).Within s s.Present
  pure : (isPureV2Reading K engine route).Within s s.Present
  float : ∀ amountIn : K, (quoteRouteF64Reading M keccak engine route amountIn).Within s s.Present
  exact : ∀ amountIn : U256, (quoteRouteReading M keccak engine route amountIn).Within s s.Present
  slots : ∀ hop ∈ route.hops, SlotsOf s s.Present hop.pool

end Announced

section Covered

variable {registrations : List PoolMeta} {engine : Engine} {store : RouteStore} {s : ChainState} {keccak : Keccak}
  {layouts : DexTag → Option SlotLayout} {feeWordTrusted : Address → U64 → Nat → Option Bool} {pools : List Nat}
  {slots : List SlotKey} {completions : List SlotCompletion}

theorem Engine.metaOf_idx (hEngine : Engine.new (Engine.reindex registrations) = some engine) {idx : Nat}
    {pool : PoolMeta} (hPool : engine.metaOf idx = some pool) : pool.idx = idx := by
  rw [metaOf, (new_eq hEngine).1, reindex, List.getElem?_mapIdx] at hPool
  obtain ⟨registered, -, rfl⟩ := Option.map_eq_some_iff.mp hPool
  rfl

theorem RouteCovered.of_slots {ε : Type} (M : SwapMath ε) {K : Type} [Field K] [LinearOrder K] [FloorSemiring K]
    (hEngine : Engine.new (Engine.reindex registrations) = some engine) {route : Route}
    (hSlots : ∀ hop ∈ route.hops, SlotsOf s s.Present hop.pool) : RouteCovered engine s M keccak K route where
  spot := spotHopsReading_within (fun _ _ => Engine.metaOf_idx hEngine) hSlots 1
  pure := pureHopsReading_within hSlots
  float := quoteHopsF64Reading_within (fun _ _ => Engine.metaOf_idx hEngine) hSlots
  exact := quoteHopsReading_within (fun _ _ => Engine.metaOf_idx hEngine) hSlots
  slots := hSlots

/-- Both kinds of batch ask for the base slots of every planned pool on a route of theirs. -/
theorem Announced.asks (hAnnounced : Announced engine store s pools slots) (hPlans : s.plans.length = engine.metas.length)
    {pool id : Nat} (hPool : pool ∈ pools) (hRoute : id ∈ store.routesForPool pool) {hop : Nat}
    (hHop : hop ∈ store.hopPools id) {plan : SlotPlan} (hPlan : s.plan hop = some plan) {key : SlotKey}
    (hKey : key ∈ ChainState.planSlots plan) : key ∈ slots := by
  cases hAnnounced with
  | sealed =>
    have hNear := RouteStore.hopPools_subset_neighborhood hPool hRoute hHop
    exact ChainState.mem_poolsSlots hNear hPlan hKey
  | resynced =>
    have hLt : hop < s.plans.length := (List.getElem?_eq_some_iff.mp (Option.join_eq_some_iff.mp hPlan)).1
    exact ChainState.mem_poolsSlots (List.mem_range.mpr (hPlans ▸ hLt)) hPlan hKey

/-- When a batch is sent, every base slot that a route through one of its pools reads has
been fetched. -/
theorem announced_reads_present {ε : Type} (M : SwapMath ε) {K : Type} [Field K] [LinearOrder K] [FloorSemiring K]
    (hEngine : Engine.new (Engine.reindex registrations) = some engine)
    (hPlans : s.plans = buildSlotPlans keccak layouts feeWordTrusted engine)
    (hAnnounced : Announced engine store s pools slots) (hCompletes : Completes slots completions)
    (hOk : ∀ completion ∈ completions, completion.2.isSome) :
    ∀ pool ∈ pools, ∀ id ∈ store.routesForPool pool, ∀ route, store.route id = some route →
      RouteCovered engine (s.advanceTo.prefetch completions) M keccak K route := by
  intro pool hPool id hRoute route hFound
  apply RouteCovered.of_slots M hEngine
  intro hop hHop plan hPlan key hKey
  have hLength : s.plans.length = engine.metas.length := by rw [hPlans, buildSlotPlans, List.length_map]
  have hHopPool : hop.pool ∈ store.hopPools id := by
    rw [RouteStore.hopPools, hFound]
    exact List.mem_map_of_mem hHop
  have hAsked := hAnnounced.asks hLength hPool hRoute hHopPool hPlan hKey
  obtain ⟨value, -, hValue⟩ := fill_of_mem hCompletes hOk hAsked fun _ => none
  exact Option.isSome_of_eq_some hValue

end Covered

section Sample

def deepStore : RouteStore := .build [deepRoute] 2

/-- Pool 0 is dirty: its seal fetches the reserves of pool 1 as well. -/
theorem deepRoute_announced : RouteCovered deepEngine
    (deepState.advanceTo.prefetch (serve (fun _ => 1#256) (deepState.neighborhoodSlots deepStore [0])))
    referenceMath referenceKeccak ℚ deepRoute := by
  have hEngine : Engine.new (Engine.reindex [deepPair 0 1#160, deepPair 0 7#160]) = some deepEngine := rfl
  have hPlans : deepState.plans = buildSlotPlans referenceKeccak
    (fun dex => if dex = .aeroVolatile then some (.v2TwoSlots 8#64) else none) (fun _ _ _ => none) deepEngine := rfl
  have hAnnounced : Announced deepEngine deepStore deepState [0] (deepState.neighborhoodSlots deepStore [0]) :=
    .sealed (by decide)
  have hOk : ∀ completion ∈ serve (fun _ => 1#256) (deepState.neighborhoodSlots deepStore [0]),
      completion.2.isSome := by
    intro completion hMem
    rw [serve_served _ _ completion hMem]
    rfl
  exact announced_reads_present referenceMath hEngine hPlans hAnnounced (serve_completes _ _) hOk 0 List.mem_cons_self 0
    (by decide) deepRoute rfl

end Sample

end Robinarb
