import Robinarb.Ingest.Pipeline
import Robinarb.Library.GreedySelection
import Robinarb.Library.LastEntry
import Robinarb.Library.RankedPrefix
import Robinarb.Routing.GasGate
import Robinarb.Routing.Returns

/-! # The evaluator

`Evaluator::run`: from the batches of the ingest channel to the opportunities of the
sender. A pass takes what is queued, drops it when it is old, ranks the routes that it
touches, sizes the best of them and sends those of disjoint pools.
-/

namespace Robinarb

open scoped Numerals
open Binary64 GasStation GreedySelection PartialMaps RankedPrefix

/-- A `ChangedBatch` with the instant of its seal, in nanoseconds. -/
structure SealedBatch extends ChangedBatch where
  ts : Nat

def SealedBatch.merge (batch next : SealedBatch) : SealedBatch where
  block := max next.block batch.block
  pools := batch.pools ++ next.pools
  ts := min batch.ts next.ts

structure Stats where
  batchesEvaluated : Nat
  batchesDroppedStale : Nat
  routesTier1 : Nat
  routesTier1Passed : Nat
  routesTier2 : Nat
  opportunitiesFound : Nat
  deriving DecidableEq

namespace Stats

def zero : Stats := ⟨0, 0, 0, 0, 0, 0⟩

def add (a b : Stats) : Stats where
  batchesEvaluated := a.batchesEvaluated + b.batchesEvaluated
  batchesDroppedStale := a.batchesDroppedStale + b.batchesDroppedStale
  routesTier1 := a.routesTier1 + b.routesTier1
  routesTier1Passed := a.routesTier1Passed + b.routesTier1Passed
  routesTier2 := a.routesTier2 + b.routesTier2
  opportunitiesFound := a.opportunitiesFound + b.opportunitiesFound

end Stats

/-- What the evaluation of one route reads. Storage is patched between the tiers. -/
structure RouteView where
  tier1 : ChainState
  tier2 : ChainState
  gas : GasStation

/-- What one turn of the loop meets: the batch it waits for and those queued behind it, the
instants of the two staleness checks, what each route reads, and whether the receiver
takes another opportunity after those of this turn. -/
structure Round where
  first : SealedBatch
  queued : List SealedBatch
  received : Nat
  sorted : Nat
  view : Nat → RouteView
  accepts : List Evaluator.Evaluated → Bool

def Round.batch (round : Round) : SealedBatch := round.queued.foldl SealedBatch.merge round.first

def Round.batches (round : Round) : List SealedBatch := round.first :: round.queued

section Batches

/-- A batch that stands for several: the latest block, the oldest seal and all the pools. -/
structure Merged (batches : List SealedBatch) (batch : SealedBatch) : Prop where
  block : ∃ b ∈ batches, b.block = batch.block
  blocks : ∀ b ∈ batches, b.block ≤ batch.block
  ts : ∃ b ∈ batches, b.ts = batch.ts
  oldest : ∀ b ∈ batches, batch.ts ≤ b.ts
  pools : ∀ pool, pool ∈ batch.pools ↔ ∃ b ∈ batches, pool ∈ b.pools

theorem Merged.merge {batches : List SealedBatch} {batch : SealedBatch} (h : Merged batches batch) (next : SealedBatch) :
    Merged (batches ++ [next]) (batch.merge next) where
  block := by
    obtain ⟨b, hMem, hBlock⟩ := h.block
    obtain hNext | hHere := le_total batch.block next.block
    · exact ⟨next, by simp, (max_eq_left hNext).symm⟩
    · exact ⟨b, List.mem_append_left _ hMem, hBlock.trans (max_eq_right hHere).symm⟩
  blocks := by
    intro b hMem
    obtain hOld | hNew := List.mem_append.mp hMem
    · exact (h.blocks b hOld).trans (le_max_right _ _)
    · rw [List.mem_singleton.mp hNew]
      exact le_max_left _ _
  ts := by
    obtain ⟨b, hMem, hTs⟩ := h.ts
    obtain hHere | hNext := le_total batch.ts next.ts
    · exact ⟨b, List.mem_append_left _ hMem, hTs.trans (min_eq_left hHere).symm⟩
    · exact ⟨next, by simp, (min_eq_right hNext).symm⟩
  oldest := by
    intro b hMem
    obtain hOld | hNew := List.mem_append.mp hMem
    · exact (min_le_left _ _).trans (h.oldest b hOld)
    · rw [List.mem_singleton.mp hNew]
      exact min_le_right _ _
  pools := by
    intro pool
    rw [SealedBatch.merge, List.mem_append, h.pools]
    constructor
    · rintro (⟨b, hMem, hPool⟩ | hPool)
      · exact ⟨b, List.mem_append_left _ hMem, hPool⟩
      · exact ⟨next, by simp, hPool⟩
    · rintro ⟨b, hMem, hPool⟩
      obtain hOld | hNew := List.mem_append.mp hMem
      · exact .inl ⟨b, hOld, hPool⟩
      · rw [List.mem_singleton.mp hNew] at hPool
        exact .inr hPool

theorem Merged.foldl {batches : List SealedBatch} {batch : SealedBatch} (h : Merged batches batch)
    (queued : List SealedBatch) : Merged (batches ++ queued) (queued.foldl SealedBatch.merge batch) := by
  induction queued generalizing batches batch with
  | nil => rwa [List.append_nil]
  | cons next rest ih =>
    have hRest := ih (h.merge next)
    rwa [List.append_assoc, List.singleton_append] at hRest

theorem Round.merged (round : Round) : Merged round.batches round.batch := by
  have hFirst : Merged [round.first] round.first := by
    constructor <;> simp
  exact hFirst.foldl round.queued

end Batches

namespace Evaluator

/-- What came of a turn or of a run; a closed receiver ends the run. -/
structure Pass where
  stats : Stats
  sent : List Evaluated
  running : Bool

section Run

variable {K ε : Type} [Field K] [LinearOrder K] [FloorSemiring K] (M : SwapMath ε) (keccak : Keccak) (sqrt : K → K)
  (ev : Evaluator K)

def anchorOf (token : Address) : Option (TradingAnchor K) := LastEntry.ofList (fun anchor => anchor.token) ev.anchors token

def stale (ts now : Nat) : Prop := ev.cfg.dropMs * 1000000 < now - ts

instance (ts now : Nat) : Decidable (ev.stale ts now) := inferInstanceAs (Decidable (_ < _))

def gate : K := rounded (1 + rounded (ev.cfg.spotGateBps / 10000))

def product (round : Round) (id : Nat) : Option K := do
  spotProduct K ev.engine (round.view id).tier1 (← ev.store.route id)

def tier1 (round : Round) (ids : List Nat) : Option (List (Nat × K)) :=
  (ids.mapM fun id => (ev.product round id).map fun prod => if ev.gate < prod then some (id, prod) else none).map
    List.reduceOption

def minIn (anchor : TradingAnchor K) : K := rounded (anchor.minTrade * powi 10 anchor.decimals.toNat)

def maxIn (anchor : TradingAnchor K) : K := rounded (anchor.maxTrade * powi 10 anchor.decimals.toNat)

def tier2 (round : Round) (id : Nat) : Option (Option Evaluated) := do
  let route ← ev.store.route id
  let anchor ← ev.anchorOf route.anchor
  match ← optimize M keccak sqrt ev.engine (round.view id).tier2 route (minIn anchor) (maxIn anchor) with
  | none => return none
  | some opp => ev.applyGasGate (round.view id).gas opp round.batch.block anchor round.batch.ts

/-- The rank across anchors. Its lookups are those that the gate has made. -/
def rankKey (e : Evaluated) : U128 :=
  (do
    let route ← ev.store.route e.opp.routeId
    let anchor ← ev.anchorOf route.anchor
    ev.anchorToWethWei anchor e.netProfitWei).getD 0#128

/-- The loop over the ranked candidates, with the pools in use and what it has sent. -/
def sendLoop (accepts : List Evaluated → Bool) : List Nat → List Evaluated → List Evaluated →
    Option (List Evaluated × Bool)
  | _, sent, [] => some (sent, true)
  | used, sent, e :: rest => do
    let route ← ev.store.route e.opp.routeId
    if route.hops.any fun h => used.contains h.pool then sendLoop accepts used sent rest
    else
      let used := route.hops.foldl (fun used h => used.insert h.pool) used
      if accepts sent then sendLoop accepts used (sent ++ [e]) rest else return (sent, false)

/-- One turn of the loop. An opportunity is counted before it is sent. -/
def turn (round : Round) : Option Pass :=
  let batch := round.batch
  if ev.stale batch.ts round.received then some ⟨{ Stats.zero with batchesDroppedStale := 1 }, [], true⟩
  else
    let ids := ev.store.candidateIds batch.pools
    if ids = [] then some ⟨.zero, [], true⟩
    else do
      let stats := { Stats.zero with batchesEvaluated := 1, routesTier1 := ids.length }
      let passed ← ev.tier1 round ids
      if passed.isEmpty then return ⟨stats, [], true⟩
      else
        let stats := { stats with routesTier1Passed := passed.length }
        let top := (ranked Prod.snd passed).take ev.cfg.tier2TopN
        if ev.stale batch.ts round.sorted then return ⟨{ stats with batchesDroppedStale := 1 }, [], true⟩
        else
          let stats := { stats with routesTier2 := top.length }
          let candidates ← (top.mapM fun p => ev.tier2 M keccak sqrt round p.1).map List.reduceOption
          let (sent, running) ← ev.sendLoop round.accepts [] [] (ranked (fun e => (ev.rankKey e).toNat) candidates)
          return ⟨{ stats with opportunitiesFound := sent.length + if running then 0 else 1 }, sent, running⟩

/-- The run, up to the close of either channel. -/
def run : List Round → Option Pass
  | [] => some ⟨.zero, [], true⟩
  | round :: rest => do
    let here ← ev.turn M keccak sqrt round
    if here.running then
      let later ← run rest
      return ⟨here.stats.add later.stats, here.sent ++ later.sent, later.running⟩
    else return here

end Run

/-- What `App` builds the evaluator from: the routes and their store, then the rates. -/
def assemble {K L : Type} [Field K] [LinearOrder K] [FloorSemiring K] [LinearOrder L] (engine : Engine) (liq : Nat → L)
    (poolAddresses : List (Address × Nat)) (sources : PriceSources K) (gas : GasConfig K) (cfg : RoutingConfig K)
    (anchors : List (TradingAnchor K)) : Option (Evaluator K) := do
  let routes ← numberedRoutes engine liq poolAddresses cfg.toGraphConfig (anchors.map fun anchor => anchor.toAnchorConfig)
  let prices ← fetchAnchorRates sources anchors
  return ⟨engine, RouteStore.build routes engine.metas.length, gas, cfg, anchors, prices⟩

/-- The thresholds of a configuration. Nothing checks them before the evaluator reads them. -/
structure Thresholds {K : Type} [Field K] [LinearOrder K] [FloorSemiring K] (gas : GasConfig K)
    (anchors : List (TradingAnchor K)) : Prop where
  tips : minPriorityFee gas ≤ maxPriorityFee gas
  minProfit : ∀ anchor ∈ anchors, anchor.minProfit.isSome
  sizes : ∀ anchor ∈ anchors, anchor.minTrade ≤ anchor.maxTrade

structure Configured {K : Type} [Field K] [LinearOrder K] [FloorSemiring K] (ev : Evaluator K) (routes : List Route) :
    Prop where
  store : ev.store = RouteStore.build routes ev.engine.metas.length
  table : RouteTable ev.engine (ev.anchors.map fun anchor => anchor.toAnchorConfig) routes
  hops : ∀ route ∈ routes, route.hops ≠ [] ∧ route.hops.length ≤ ev.cfg.maxHops
  rates : ∃ sources, fetchAnchorRates sources ev.anchors = some ev.prices
  thresholds : Thresholds ev.gas ev.anchors

theorem assemble_eq {K L : Type} [Field K] [LinearOrder K] [FloorSemiring K] [LinearOrder L] {engine : Engine} {liq : Nat → L}
    {poolAddresses : List (Address × Nat)} {sources : PriceSources K} {gas : GasConfig K} {cfg : RoutingConfig K}
    {anchors : List (TradingAnchor K)} {ev : Evaluator K}
    (hEv : assemble engine liq poolAddresses sources gas cfg anchors = some ev) : ∃ routes prices,
      numberedRoutes engine liq poolAddresses cfg.toGraphConfig (anchors.map fun anchor => anchor.toAnchorConfig) = some routes ∧
      fetchAnchorRates sources anchors = some prices ∧
      ev = ⟨engine, RouteStore.build routes engine.metas.length, gas, cfg, anchors, prices⟩ := by
  obtain ⟨routes, hRoutes, hRest⟩ := Option.bind_eq_some_iff.mp hEv
  obtain ⟨prices, hPrices, hDone⟩ := Option.bind_eq_some_iff.mp hRest
  exact ⟨routes, prices, hRoutes, hPrices, (Option.some.inj hDone).symm⟩

theorem configured_of_assemble {K L : Type} [Field K] [LinearOrder K] [FloorSemiring K] [LinearOrder L]
    {registrations : List PoolMeta} {engine : Engine} (hEngine : Engine.new (Engine.reindex registrations) = some engine)
    {poolAddresses : List (Address × Nat)} (hOrder : poolAddresses.Perm engine.byAddress) {liq : Nat → L}
    {sources : PriceSources K} {gas : GasConfig K} {cfg : RoutingConfig K} {anchors : List (TradingAnchor K)}
    {ev : Evaluator K} (hEv : assemble engine liq poolAddresses sources gas cfg anchors = some ev)
    (hCount : ev.store.routes.length < 2 ^ 32) (hThresholds : Thresholds gas anchors) :
    ev.Configured ev.store.routes := by
  obtain ⟨routes, prices, hRoutes, hPrices, rfl⟩ := assemble_eq hEv
  obtain ⟨adj, -, hCycles⟩ := buildRoutes_cycle hEngine hOrder (numberedRoutes_eq hRoutes hCount)
  refine ⟨rfl, numberedRoutes_table hEngine hOrder hRoutes hCount, fun route hMem => ?_, ⟨sources, hPrices⟩, hThresholds⟩
  have hCycle := (hCycles route hMem).2
  refine ⟨fun hNone => ?_, hCycle.atMost⟩
  have hTwo := hCycle.atLeast
  rw [hNone] at hTwo
  exact absurd hTwo (by decide)

section Lookups

variable {K ε : Type} [Field K] [LinearOrder K] [FloorSemiring K] {M : SwapMath ε} {keccak : Keccak} {sqrt : K → K}
  {ev : Evaluator K} {routes : List Route} {round : Round} {id : Nat} {route : Route}

theorem Configured.mem_route (h : ev.Configured routes) (hRoute : ev.store.route id = some route) :
    route ∈ routes ∧ route.id = id := by
  rw [h.store] at hRoute
  exact ⟨List.mem_of_getElem? hRoute, h.table.id_eq hRoute⟩

theorem Configured.candidate (h : ev.Configured routes) {pools : List Nat} :
    id ∈ ev.store.candidateIds pools ↔
      ∃ route, ev.store.route id = some route ∧ ∃ hop ∈ route.hops, hop.pool ∈ pools := by
  rw [h.store]
  exact h.table.mem_candidateIds

theorem Configured.anchor (h : ev.Configured routes) (hMem : route ∈ routes) :
    ∃ anchor, ev.anchorOf route.anchor = some anchor ∧ anchor ∈ ev.anchors ∧ anchor.token = route.anchor := by
  apply LastEntry.ofList_isSome
  have hAnchored := h.table.anchored route hMem
  rwa [List.map_map] at hAnchored

theorem Configured.product (h : ev.Configured routes) (hRoute : ev.store.route id = some route) :
    (ev.product round id).isSome := by
  rw [Evaluator.product, hRoute]
  exact spotHops_returns (h.table.registered route (h.mem_route hRoute).1) 1

theorem tier2_eq (hRoute : ev.store.route id = some route) {anchor : TradingAnchor K}
    (hAnchor : ev.anchorOf route.anchor = some anchor) :
    ev.tier2 M keccak sqrt round id =
      optimize M keccak sqrt ev.engine (round.view id).tier2 route (minIn anchor) (maxIn anchor) >>= fun found =>
        match found with
          | none => some none
          | some opp => ev.applyGasGate (round.view id).gas opp round.batch.block anchor round.batch.ts := by
  rw [Evaluator.tier2, hRoute, Option.bind_eq_bind, Option.bind_some, hAnchor]
  rfl

/-- The size that the optimizer returns for a route between the bounds of its anchor, and what
the gate leaves of its profit. -/
def Sized (M : SwapMath ε) (keccak : Keccak) (sqrt : K → K) (ev : Evaluator K) (round : Round) (route : Route)
    (e : Evaluated) : Prop :=
  ∃ anchor, ev.anchorOf route.anchor = some anchor ∧
    optimize M keccak sqrt ev.engine (round.view e.opp.routeId).tier2 route (minIn anchor) (maxIn anchor) =
      some (some e.opp) ∧ ev.Passes (round.view e.opp.routeId).gas anchor route e

/-- The second tier finds just what is sized and passes the gate. -/
theorem Configured.tier2_eq_some_iff (h : ev.Configured routes) (hRoute : ev.store.route id = some route) {e : Evaluated} :
    ev.tier2 M keccak sqrt round id = some (some e) ↔ e.opp.routeId = id ∧ e.block = round.batch.block ∧
      e.detectedAt = round.batch.ts ∧ Sized M keccak sqrt ev round route e := by
  obtain ⟨hMem, hId⟩ := h.mem_route hRoute
  obtain ⟨anchor, hAnchor, -⟩ := h.anchor hMem
  rw [tier2_eq hRoute hAnchor]
  constructor
  · intro hFound
    obtain ⟨sized, hSized, hGate⟩ := Option.bind_eq_some_iff.mp hFound
    cases sized with
    | none => cases hGate
    | some opp =>
      obtain ⟨gated, hGated, hPasses, rfl, hBlock, hDetected⟩ := applyGasGate_passes hGate
      have hOpp := (optimize_routeId hSized).trans hId
      rw [hOpp, hRoute] at hGated
      cases hGated
      rw [← hOpp] at hSized hPasses
      exact ⟨hOpp, hBlock, hDetected, anchor, hAnchor, hSized, hPasses⟩
  · rintro ⟨rfl, hBlock, hDetected, other, hOther, hSized, hPasses⟩
    cases hAnchor.symm.trans hOther
    rw [hSized, Option.bind_eq_bind, Option.bind_some, ← hBlock, ← hDetected]
    exact hPasses.applyGasGate hRoute

variable [IsStrictOrderedRing K]

theorem minIn_le_maxIn {anchor : TradingAnchor K} (h : anchor.minTrade ≤ anchor.maxTrade) : minIn anchor ≤ maxIn anchor := by
  have hDecimals : anchor.decimals.toNat < 2 ^ 32 := (show anchor.decimals.toNat < 2 ^ 8 from anchor.decimals.isLt).trans (by decide)
  obtain ⟨-, hUnits⟩ := powi_near (K := K) (x := 10) (by norm_num) hDecimals
  exact rounded_mono (mul_le_mul_of_nonneg_right h (zero_le_one.trans hUnits))

/-- The second tier panics only where the exact quote of a chosen size does. -/
theorem Configured.tier2_eq_none (h : ev.Configured routes) (hRoute : ev.store.route id = some route)
    (hPanics : ev.tier2 M keccak sqrt round id = none) : ∃ anchor x, ev.anchorOf route.anchor = some anchor ∧
      candidateSize M keccak sqrt ev.engine (round.view id).tier2 route (minIn anchor) (maxIn anchor) = some (some x) ∧
      quoteRoute M keccak ev.engine (round.view id).tier2 route (wholeAmount x) = none := by
  obtain ⟨hMem, hId⟩ := h.mem_route hRoute
  obtain ⟨anchor, hAnchor, hConfigured, -⟩ := h.anchor hMem
  have hHops := h.table.registered route hMem
  rw [tier2_eq hRoute hAnchor] at hPanics
  cases hSized : optimize M keccak sqrt ev.engine (round.view id).tier2 route (minIn anchor) (maxIn anchor) with
  | none =>
    obtain ⟨x, hSize, hQuote⟩ :=
      optimize_eq_none hHops (h.hops route hMem).1 (minIn_le_maxIn (h.thresholds.sizes anchor hConfigured)) hSized
    exact ⟨anchor, x, hAnchor, hSize, hQuote⟩
  | some found =>
    rw [hSized, Option.bind_eq_bind, Option.bind_some] at hPanics
    cases found with
    | none => cases hPanics
    | some opp =>
      have hOpp : ev.store.route opp.routeId = some route := by
        rw [optimize_routeId hSized, hId, hRoute]
      obtain ⟨sources, hRates⟩ := h.rates
      obtain ⟨rate, hRate, -⟩ := fetchAnchorRates_rated hRates hConfigured
      have hGate := applyGasGate_returns hOpp hHops h.thresholds.tips (hRate ▸ rfl)
        (h.thresholds.minProfit anchor hConfigured) (round.view id).gas round.batch.block round.batch.ts
      dsimp only at hPanics
      rw [hPanics] at hGate
      cases hGate

end Lookups

end Evaluator

end Robinarb
