import Robinarb.Executor.QuotedProfit
import Robinarb.Routing.EvaluatorRuns

/-! # The profit of what is sent

From the batches of the ingest channel to the balance of the contract. What a run sends was
vetted and pays for its transaction. The opportunities of one turn have disjoint pools, so
that the transactions of all of them bring what was predicted, one after another.
-/

namespace Robinarb

open scoped Numerals
open ArbExecutor Binary64 Evaluator GasStation

section Started

variable {F K L : Type} [Field K] [LinearOrder K] [FloorSemiring K] [LinearOrder L]

/-- The evaluator that `App` runs: over the registry that was hydrated, the routes through it
and the rates that were fetched. -/
structure Started (keyHash : KeyHash) (b : Bootstrap F) (rpc : BootstrapRpc) (found : List DiscoveredPool) (liq : Nat → L)
    (sources : PriceSources K) (ev : Evaluator K) : Prop where
  keys : ∀ p ∈ found, p.dex = .uniV4 → ∃ key, p.FromKey keyHash key
  engine : ∃ regs, b.hydrate rpc found = some regs ∧ Engine.new (regs.map PoolRegistration.pool) = some ev.engine
  assembled : ∃ poolAddresses : List (Address × Nat), poolAddresses.Perm ev.engine.byAddress ∧
    assemble ev.engine liq poolAddresses sources ev.gas ev.cfg ev.anchors = some ev
  count : ev.store.routes.length < 2 ^ 32
  thresholds : Thresholds ev.gas ev.anchors

variable {keyHash : KeyHash} {b : Bootstrap F} {rpc : BootstrapRpc} {found : List DiscoveredPool} {liq : Nat → L}
  {sources : PriceSources K} {ev : Evaluator K}

theorem Started.configured (h : Started keyHash b rpc found liq sources ev) : ev.Configured ev.store.routes := by
  obtain ⟨regs, hHydrate, hEngine⟩ := h.engine
  obtain ⟨poolAddresses, hOrder, hEv⟩ := h.assembled
  rw [← Bootstrap.hydrate_reindex hHydrate] at hEngine
  exact configured_of_assemble hEngine hOrder hEv h.count h.thresholds

theorem Started.rates (h : Started keyHash b rpc found liq sources ev) : fetchAnchorRates sources ev.anchors = some ev.prices := by
  obtain ⟨poolAddresses, -, hEv⟩ := h.assembled
  obtain ⟨routes, prices, -, hPrices, hBuilt⟩ := assemble_eq hEv
  rw [congrArg Evaluator.prices hBuilt]
  exact hPrices

theorem Started.routes (h : Started keyHash b rpc found liq sources ev) : ∃ poolAddresses : List (Address × Nat),
    poolAddresses.Perm ev.engine.byAddress ∧ buildRoutes ev.engine liq poolAddresses ev.cfg.toGraphConfig
      ((ev.anchors.map fun anchor => anchor.toAnchorConfig).map AnchorConfig.token) = some ev.store.routes := by
  obtain ⟨poolAddresses, hOrder, hEv⟩ := h.assembled
  obtain ⟨routes, prices, hRoutes, -, hBuilt⟩ := assemble_eq hEv
  have hStored : ev.store.routes = routes := by
    rw [congrArg Evaluator.store hBuilt]
    rfl
  have hCount := h.count
  rw [hStored] at hCount ⊢
  exact ⟨poolAddresses, hOrder, numberedRoutes_eq hRoutes hCount⟩

variable {ε : Type} {M : SwapMath ε} {keccak : Keccak} {sqrt : K → K} {rounds : List Round}

/-- Everything that a run sends was vetted in one of its rounds. -/
theorem Started.sent_vetted (h : Started keyHash b rpc found liq sources ev) {pass : Pass}
    (hRun : ev.run M keccak sqrt rounds = some pass) {e : Evaluated} (hSent : e ∈ pass.sent) :
    ∃ round ∈ rounds, Vetted M keccak sqrt ev round e := by
  obtain ⟨-, turns, hPrefix, -, hTurns, hOutcomes⟩ := run_outcome h.configured hRun
  rw [hTurns, List.mem_flatMap] at hSent
  obtain ⟨t, hTurn, hMem⟩ := hSent
  exact ⟨t.1, hPrefix.subset (List.mem_map_of_mem hTurn), (hOutcomes t hTurn).2.1.vetted e hMem⟩

variable [IsStrictOrderedRing K]

/-- A run of a started evaluator panics only where the exact quote of a chosen size does,
and never over packed pairs. Turn by turn, what it sends was vetted and has disjoint pools; what is due is sent, or shares
a pool with something sent that ranks as high. The counters are in order at the end, and what
is sent is what the turns send. -/
theorem run_sends_vetted (h : Started keyHash b rpc found liq sources ev) (rounds : List Round) :
    (ev.run M keccak sqrt rounds = none → ∃ round ∈ rounds, Panics M keccak sqrt ev round) ∧
      ((∀ round ∈ rounds, OverPackedPairs ev round) → (ev.run M keccak sqrt rounds).isSome) ∧
      ∀ pass, ev.run M keccak sqrt rounds = some pass → Counts ev.cfg.tier2TopN rounds.length pass ∧
        ∃ turns : List (Round × Pass), (turns.map Prod.fst) <+: rounds ∧ (pass.running = true → turns.map Prod.fst = rounds) ∧
          pass.sent = turns.flatMap (fun t => t.2.sent) ∧
          ∀ t ∈ turns, ev.turn M keccak sqrt t.1 = some t.2 ∧ Outcome M keccak sqrt ev t.1 t.2 ∧
            (pass.running = true → t.2.running = true) :=
  ⟨panics_of_run h.configured, run_returns_of_packed h.configured, fun _ => run_outcome h.configured⟩

/-- Whatever a run sends pays for its transaction and for the least profit of its anchor, to
within one smallest unit of the anchor and the roundings of the floats: in any block whose
base fee is at most an eighth above the one that was read, as long as the transaction keeps
to the estimate of its gas. -/
theorem sent_covers_cost (h : Started keyHash b rpc found liq sources ev) (hModerate : Moderate ev.gas)
    (hHops : ev.cfg.maxHops ≤ 65536) (hPlausible : Plausible sources) {pass : Pass}
    (hRun : ev.run M keccak sqrt rounds = some pass) {e : Evaluated} (hSent : e ∈ pass.sent) :
    ∃ round ∈ rounds, ∃ route anchor rate kinds minProfit, ev.store.route e.opp.routeId = some route ∧
      anchor ∈ ev.anchors ∧ anchor.token = route.anchor ∧ ev.prices anchor.token = some rate ∧
      ev.hopKinds route = some kinds ∧ anchor.minProfit = some minProfit ∧
      ∀ gasUsed baseFee : Nat, gasUsed ≤ e.gasUnits.toNat →
        baseFee * 8 ≤ (round.view e.opp.routeId).gas.baseFee.toNat * 9 →
        ((gasUsed * (baseFee + e.priorityFeeWei.toNat) + l1Fee (round.view e.opp.routeId).gas (calldataLen route kinds) : Nat) : K) *
              kept K (5 + anchor.decimals.toNat) + worth anchor rate minProfit.toNat <
            worth anchor rate ((u128From e.opp.grossProfit).toNat + 1) := by
  obtain ⟨round, hRound, hVetted⟩ := h.sent_vetted hRun hSent
  obtain ⟨route, prod, hSurvives, -, anchor, hAnchor, -, hPasses⟩ := hVetted.leads
  have hRoute := hSurvives.stored
  obtain ⟨hMem, -⟩ := h.configured.mem_route hRoute
  obtain ⟨same, hSame, hConfigured, hToken⟩ := h.configured.anchor hMem
  obtain rfl := Option.some.inj (hAnchor.symm.trans hSame)
  obtain ⟨rate, hRate, -, hPriced⟩ := fetchAnchorRates_rated h.rates hConfigured
  obtain ⟨hLow, hHigh⟩ := hPriced hPlausible
  have hLength : route.hops.length ≤ 65536 := (h.configured.hops route hMem).2.trans hHops
  obtain ⟨kinds, hKinds, -⟩ := hPasses.gasUnits
  obtain ⟨minProfit, hMin, -⟩ := hPasses.threshold
  refine ⟨round, hRound, route, anchor, rate, kinds, minProfit, hRoute, hConfigured, hToken, hRate, hKinds, hMin,
    fun gasUsed baseFee hUsed hFee => ?_⟩
  obtain ⟨sameKinds, sameMin, hSameKinds, hSameMin, hCovers⟩ :=
    hPasses.covers hModerate hLength hRate hLow hHigh hUsed hFee
  cases hKinds.symm.trans hSameKinds
  cases hMin.symm.trans hSameMin
  exact hCovers

end Started

section Taken

variable {E V : Type} (contract : Address) (view : E → Books V) (ext : Handler E)

/-- Transactions one after another, each in a world of its own where its sender is an executor. -/
def TakesEach : List ArbExecutor.Call → Books V → Books V → Prop
  | [], books, last => last = books
  | call :: rest, books, last => ∃ next,
      (∀ w sender, w.executors sender = true → ∃ w', Takes view w books (dispatch contract ext sender call) [] w' next) ∧
        TakesEach rest next last

section Predictions

variable {K : Type}

def routeAnchor (ev : Evaluator K) (e : Evaluated) : Option Address := (ev.store.route e.opp.routeId).map Route.anchor

/-- What a list of opportunities predicts to earn of a token. -/
def predicted (ev : Evaluator K) (sent : List Evaluated) (token : Address) : Nat :=
  ((sent.filter fun e => routeAnchor ev e = some token).map fun e => e.opp.grossProfit.toNat).sum

theorem predicted_cons {ev : Evaluator K} {e : Evaluated} {rest : List Evaluated} {route : Route}
    (hRoute : ev.store.route e.opp.routeId = some route) (held : Address → Nat) (token : Address) :
    held token + predicted ev (e :: rest) token =
      credit held route.anchor e.opp.grossProfit.toNat token + predicted ev rest token := by
  have hAnchor : routeAnchor ev e = some route.anchor := by
    rw [routeAnchor, hRoute]
    rfl
  unfold predicted credit
  rw [List.filter_cons, hAnchor]
  by_cases hToken : token = route.anchor
  · rw [if_pos (decide_eq_true (congrArg some hToken.symm)), if_pos hToken, List.map_cons, List.sum_cons, Nat.add_assoc]
  · rw [if_neg (fun hSame => hToken (Option.some.inj (of_decide_eq_true hSame)).symm), if_neg hToken]

end Predictions

variable {F K L ε : Type} [Field K] [LinearOrder K] [FloorSemiring K] [LinearOrder L]

/-- What the venues, the books and the sender's own balance are to be for an opportunity to
be taken at what it was sized at. -/
structure Ready (M : SwapMath ε) (keccak : Keccak) (ev : Evaluator K) (fresh : ChainState → V → Nat → Prop)
    (fills : ChainState → Robinarb.Hop → U256 → U256 → Prop) (own : Evaluated → U256) (read : ChainState) (books : Books V)
    (e : Evaluated) (route : Route) : Prop where
  small : e.opp.amountIn.toNat < 2 ^ 127
  fresh : ∀ hop ∈ route.hops, fresh read books.venues hop.pool
  fills : FillsAlong M keccak ev.engine read (fills read) route.hops e.opp.amountIn
  own : (own e).toNat ≤ books.held route.anchor

structure Takeable (M : SwapMath ε) (keccak : Keccak) (sqrt : K → K) (ev : Evaluator K) (fresh : ChainState → V → Nat → Prop)
    (fills : ChainState → Robinarb.Hop → U256 → U256 → Prop) (own : Evaluated → U256) (read : ChainState) (books : Books V)
    (e : Evaluated) (route : Route) : Prop extends Ready M keccak ev fresh fills own read books e route where
  stored : ev.store.route e.opp.routeId = some route
  sized : ∃ minIn maxIn, optimize M keccak sqrt ev.engine read route minIn maxIn = some (some e.opp)

variable {contract view ext} {keyHash : KeyHash} {b : Bootstrap F} {rpc : BootstrapRpc} {found : List DiscoveredPool}
  {liq : Nat → L} {sources : PriceSources K} {ev : Evaluator K} {M : SwapMath ε} {keccak : Keccak} {sqrt : K → K}
  {market : Market V} {fresh : ChainState → V → Nat → Prop} {fills : ChainState → Robinarb.Hop → U256 → U256 → Prop}
  {own : Evaluated → U256} {books : Books V}

theorem Started.takes (h : Started keyHash b rpc found liq sources ev) (hHops : ev.cfg.maxHops ≤ 65536)
    (hMarket : ∀ pool ∈ ev.engine.metas, pool.dex ≠ .uniV4 → Listed market contract pool)
    (hDeals : ∀ read v4Keys, DealsAtQuotes M keccak ev.engine read market v4Keys fresh fills)
    (hFunds : Funds market contract view ext) (hManager : POOL_MANAGER ≠ contract) (hQuiet : books.Quiet)
    {read : ChainState} {e : Evaluated} {route : Route} (hTake : Takeable M keccak sqrt ev fresh fills own read books e route)
    (hRoom : books.held route.anchor + e.opp.grossOut.toNat < 2 ^ 256) (forceFlashloan : Bool) :
    ∃ call useFlashloan venues,
      encode ev.engine ev.store e.opp.routeId e.opp.amountIn (own e) forceFlashloan = some (call, useFlashloan) ∧
      (∀ other idx, idx ∉ route.hops.map Robinarb.Hop.pool → fresh other books.venues idx → fresh other venues idx) ∧
      ∀ w sender, w.executors sender = true → ∃ w', Takes view w books (dispatch contract ext sender call) [] w'
        (books.earned route.anchor e.opp.grossProfit.toNat venues) := by
  obtain ⟨minIn, maxIn, hOpp⟩ := hTake.sized
  obtain ⟨hQuote, hGain, hProfit, -⟩ := optimize_eq hOpp
  obtain ⟨regs, hHydrate, hEngine⟩ := h.engine
  obtain ⟨poolAddresses, hOrder, hRoutes⟩ := h.routes
  have hStored := hTake.stored
  have hConfigured := h.configured
  have hLength : route.hops.length ≤ 65536 := (hConfigured.hops route (hConfigured.mem_route hStored).1).2.trans hHops
  rw [hConfigured.store] at hStored
  obtain ⟨entries, v4Keys, hEncoded, hCall⟩ := builtRoute_encoded h.keys hHydrate hEngine hOrder hRoutes hStored hLength
    hMarket e.opp.amountIn (own e) forceFlashloan
  obtain ⟨venues, hOff, hTakes⟩ := hEncoded.takes (hDeals read v4Keys) hTake.fresh hQuote hGain hTake.small hTake.fills
    hFunds hManager hQuiet hTake.own hRoom forceFlashloan
  rw [← hConfigured.store] at hCall
  rw [hProfit]
  exact ⟨_, _, venues, hCall, hOff, hTakes⟩

/-- Opportunities of disjoint pools are taken one after another, each at what it was sized at. -/
theorem Started.takesEach (h : Started keyHash b rpc found liq sources ev) (hHops : ev.cfg.maxHops ≤ 65536)
    (hMarket : ∀ pool ∈ ev.engine.metas, pool.dex ≠ .uniV4 → Listed market contract pool)
    (hDeals : ∀ read v4Keys, DealsAtQuotes M keccak ev.engine read market v4Keys fresh fills)
    (hFunds : Funds market contract view ext) (hManager : POOL_MANAGER ≠ contract) (read : Evaluated → ChainState)
    (forceFlashloan : Bool) {sent : List Evaluated}
    (hDisjoint : sent.Pairwise fun a b => Disjoint (poolsOf ev a) (poolsOf ev b)) (hQuiet : books.Quiet)
    (hTake : ∀ e ∈ sent, ∃ route, Takeable M keccak sqrt ev fresh fills own (read e) books e route)
    (hRoom : ∀ token, books.held token + (sent.map fun e => e.opp.grossOut.toNat).sum < 2 ^ 256) :
    ∃ calls last, List.Forall₂ (fun e call => ∃ useFlashloan,
        encode ev.engine ev.store e.opp.routeId e.opp.amountIn (own e) forceFlashloan = some (call, useFlashloan)) sent calls ∧
      TakesEach contract view ext calls books last ∧ ∀ token, last.held token = books.held token + predicted ev sent token := by
  induction sent generalizing books with
  | nil => exact ⟨[], books, .nil, rfl, fun _ => rfl⟩
  | cons e rest ih =>
    obtain ⟨hApart, hRestApart⟩ := List.pairwise_cons.mp hDisjoint
    obtain ⟨⟨route, hFirst⟩, hRest⟩ := List.forall_mem_cons.mp hTake
    simp only [List.map_cons, List.sum_cons] at hRoom
    have hHere := hRoom route.anchor
    obtain ⟨call, useFlashloan, venues, hCall, hOff, hTakes⟩ :=
      h.takes hHops hMarket hDeals hFunds hManager hQuiet hFirst (by omega) forceFlashloan
    have hPools : poolsOf ev e = (route.hops.map Robinarb.Hop.pool).toFinset := by
      rw [poolsOf, RouteStore.hopPools, hFirst.stored]
      rfl
    have hNow : ∀ token, (books.earned route.anchor e.opp.grossProfit.toNat venues).held token =
        if token = route.anchor then books.held token + e.opp.grossProfit.toNat else books.held token := fun _ => rfl
    have hMore : ∀ token, books.held token ≤ (books.earned route.anchor e.opp.grossProfit.toNat venues).held token := by
      intro token
      rw [hNow]
      split <;> omega
    have hNext : ∀ other ∈ rest, ∃ route', Takeable M keccak sqrt ev fresh fills own (read other)
        (books.earned route.anchor e.opp.grossProfit.toNat venues) other route' := by
      intro other hOther
      obtain ⟨route', hReady⟩ := hRest other hOther
      refine ⟨route', { hReady with
        fresh := fun hop hHop => ?_
        own := hReady.own.trans (hMore route'.anchor) }⟩
      apply hOff _ _ _ (hReady.fresh hop hHop)
      intro hUsed
      have hMine : hop.pool ∈ poolsOf ev other := by
        rw [poolsOf, RouteStore.hopPools, hReady.stored, List.mem_toFinset]
        exact List.mem_map_of_mem hHop
      rw [← List.mem_toFinset, ← hPools] at hUsed
      exact Finset.disjoint_left.mp (hApart other hOther) hUsed hMine
    have hRestRoom : ∀ token, (books.earned route.anchor e.opp.grossProfit.toNat venues).held token +
        (rest.map fun e => e.opp.grossOut.toNat).sum < 2 ^ 256 := by
      intro token
      obtain ⟨minIn, maxIn, hOpp⟩ := hFirst.sized
      obtain ⟨-, hGain, hProfit, -⟩ := optimize_eq hOpp
      have hToken := hRoom token
      rw [hNow]
      split <;> omega
    obtain ⟨calls, last, hCalls, hEach, hHeld⟩ := @ih (books.earned route.anchor e.opp.grossProfit.toNat venues) hRestApart
      (hQuiet.earned _ _ _) hNext hRestRoom
    refine ⟨call :: calls, last, .cons ⟨useFlashloan, hCall⟩ hCalls, ⟨_, hTakes, hEach⟩, fun token => ?_⟩
    rw [hHeld, predicted_cons hFirst.stored]
    rfl

/-- The transactions of whatever one turn sends can be taken one after another: no trade of
one moves a price that another was sized at. Together they bring the sum of the predicted
profits, of each anchor in its own, whatever else the contract had. -/
theorem turn_earns_predictions (h : Started keyHash b rpc found liq sources ev)
    (hHops : ev.cfg.maxHops ≤ 65536)
    (hMarket : ∀ pool ∈ ev.engine.metas, pool.dex ≠ .uniV4 → Listed market contract pool)
    (hDeals : ∀ read v4Keys, DealsAtQuotes M keccak ev.engine read market v4Keys fresh fills)
    (hFunds : Funds market contract view ext) (hManager : POOL_MANAGER ≠ contract) {round : Round}
    {pass : Pass} (hTurn : ev.turn M keccak sqrt round = some pass) (hQuiet : books.Quiet)
    (hReady : ∀ e ∈ pass.sent, ∀ route, ev.store.route e.opp.routeId = some route →
      Ready M keccak ev fresh fills own (round.view e.opp.routeId).tier2 books e route)
    (hRoom : ∀ token, books.held token + (pass.sent.map fun e => e.opp.grossOut.toNat).sum < 2 ^ 256)
    (forceFlashloan : Bool) :
    ∃ calls last, List.Forall₂ (fun e call => ∃ useFlashloan, encode ev.engine ev.store e.opp.routeId e.opp.amountIn
        (own e) forceFlashloan = some (call, useFlashloan)) pass.sent calls ∧
      TakesEach contract view ext calls books last ∧
      ∀ token, last.held token = books.held token + predicted ev pass.sent token := by
  obtain ⟨-, hOutcome⟩ := turn_outcome h.configured hTurn
  have hTake : ∀ e ∈ pass.sent, ∃ route,
      Takeable M keccak sqrt ev fresh fills own (round.view e.opp.routeId).tier2 books e route := by
    intro e hMem
    obtain ⟨route, prod, hSurvives, -, anchor, -, hSized, -⟩ := (hOutcome.vetted e hMem).leads
    exact ⟨route, { hReady e hMem route hSurvives.stored with
      stored := hSurvives.stored
      sized := ⟨_, _, hSized⟩ }⟩
  exact h.takesEach hHops hMarket hDeals hFunds hManager (fun e => (round.view e.opp.routeId).tier2) forceFlashloan
    hOutcome.disjoint hQuiet hTake hRoom

end Taken

section Sample

open Bootstrap

def otherToken : Address := 0xc0ffee254729296a45a3885639AC7E10F9d54979#160

def twinTokens (pair : Address) : Address × Address :=
  if pair = 7#160 ∨ pair = 8#160 then (weth, nativeKey.currency1) else (weth, otherToken)

/-- Two pairs for each of two tokens. -/
def twinFound : List DiscoveredPool :=
  [7#160, 8#160, 9#160, 10#160].map fun pair => sampleFound pair (twinTokens pair).1 (twinTokens pair).2

def twinRegs : List (PoolRegistration Nat) := (sampleBootstrap.hydrate nativeChain twinFound).getD []

def twinEngine : Engine := (Engine.new (twinRegs.map PoolRegistration.pool)).getD ⟨[], []⟩

/-- The first pair of each token gives more of it for WETH than the second. -/
def twinReserves (pair : Address) : BitVec 112 × BitVec 112 :=
  if pair = 7#160 then (BitVec.ofNat 112 (10 ^ 18), BitVec.ofNat 112 (2 * 10 ^ 18))
  else if pair = 9#160 then (BitVec.ofNat 112 (2 * 10 ^ 18), BitVec.ofNat 112 (3 * 10 ^ 18))
  else (BitVec.ofNat 112 (3 * 10 ^ 18), BitVec.ofNat 112 (3 * 10 ^ 18))

def twinState : ChainState where
  memo key := if key.2 = 8#256 then
    some (BitVec.ofNat 256 ((twinReserves key.1).1.toNat + (twinReserves key.1).2.toNat * 2 ^ 112)) else none
  tickCache _ := none
  plans := [7#160, 8#160, 9#160, 10#160].map fun pair => some (.v2Packed pair 8#256)

def twinBooks : Books Pairs := { pairBooks with venues := ⟨twinReserves, 0#160, 0#160, 0#256⟩ }

def tradedSources : PriceSources ℚ := ⟨fun _ => some 3000, fun _ => none⟩

def tradedGas : GasConfig ℚ := ⟨0, 0, 1, 1⟩

/-- Trades from 0.001 to 100 WETH that bring 0.001 at least. -/
def tradedAnchors : List (TradingAnchor ℚ) := [⟨⟨weth, 18#8⟩, 1 / 1000, 100, some 1000000000000000#256⟩]

def tradedConfig : RoutingConfig ℚ := ⟨⟨3, 100, 6⟩, 1000, 10, 5⟩

def tradedEvaluator : Evaluator ℚ :=
  (assemble twinEngine (fun idx => 10 - idx) twinEngine.byAddress tradedSources tradedGas tradedConfig tradedAnchors).getD
    ⟨⟨[], []⟩, ⟨[], []⟩, tradedGas, tradedConfig, [], fun _ => none⟩

/-- Two batches in one pass, at a tenth of a gwei. -/
def tradedRound : Round where
  first := ⟨⟨1, [0]⟩, 0⟩
  queued := [⟨⟨2, [3]⟩, 5⟩]
  received := 1000
  sorted := 2000
  view _ := ⟨twinState, twinState, ⟨100000000#64, 1000#64, 0#64⟩⟩
  accepts _ := true

def tradedPass : Pass := (tradedEvaluator.turn referenceMath (fun _ => 0#256) rootFloor tradedRound).getD ⟨.zero, [], true⟩

def tradedRun : Pass := (tradedEvaluator.run referenceMath (fun _ => 0#256) rootFloor [tradedRound]).getD ⟨.zero, [], true⟩

def tradedFirst : Evaluated :=
  ⟨⟨0, 247019144148088496#256, 348289810348561243#256, 101270666200472747#256⟩, 101230166191128747#128, 360000#64,
    40500009344000#128, 0#128, 2, 0⟩

def tradedSecond : Evaluated :=
  ⟨⟨2, 222068947731943232#256, 271161871415534251#256, 49092923683591019#256⟩, 49052423674247019#128, 360000#64,
    40500009344000#128, 0#128, 2, 0⟩

theorem twin_evaluated : ((sampleBootstrap : Bootstrap Nat).hydrate nativeChain twinFound).isSome ∧
    (Engine.new (twinRegs.map PoolRegistration.pool)).isSome ∧
    twinEngine.metas.map (fun pool => (pool.idx, pool.dex, pool.feeBps, pool.address)) =
      [(0, .uniV2Fork, 30#32, 7#160), (1, .uniV2Fork, 30#32, 8#160), (2, .uniV2Fork, 30#32, 9#160),
        (3, .uniV2Fork, 30#32, 10#160)] ∧
    (∀ pool ∈ twinEngine.metas, pool.feeBps = 30#32 ∧ twinTokens pool.address = (pool.token0, pool.token1) ∧
      pool.address ≠ executorAddress ∧ pool.address ≠ POOL_MANAGER) ∧
    twinReserves 7#160 = packedReserves (twinState.read 7#160 8#256) ∧
    twinReserves 8#160 = packedReserves (twinState.read 8#160 8#256) ∧
    twinReserves 9#160 = packedReserves (twinState.read 9#160 8#256) ∧
    twinReserves 10#160 = packedReserves (twinState.read 10#160 8#256) := by
  decide +kernel

theorem traded_evaluated :
    (assemble twinEngine (fun idx => 10 - idx) twinEngine.byAddress tradedSources tradedGas tradedConfig tradedAnchors).isSome ∧
    (tradedEvaluator.turn referenceMath (fun _ => 0#256) rootFloor tradedRound).isSome ∧
    (tradedEvaluator.run referenceMath (fun _ => 0#256) rootFloor [tradedRound]).isSome ∧
    tradedPass.sent = [tradedFirst, tradedSecond] ∧ tradedRun.sent = [tradedFirst, tradedSecond] ∧
    tradedEvaluator.store.routes.length < 2 ^ 32 ∧
    (∀ route ∈ tradedEvaluator.store.routes, ∀ hop ∈ route.hops, hop.pool < 4) ∧
    (tradedEvaluator.store.route 0).bind tradedEvaluator.hopKinds = some [.v2, .v2] ∧
    predicted tradedEvaluator [tradedFirst, tradedSecond] weth = 101270666200472747 + 49092923683591019 := by
  decide +kernel

theorem traded_configured : (minPriorityFee tradedGas ≤ maxPriorityFee tradedGas ∧ (maxPriorityFee tradedGas).toNat < 2 ^ 64) ∧
    (∀ anchor ∈ tradedAnchors, anchor.minProfit.isSome) ∧ ∀ anchor ∈ tradedAnchors, anchor.minTrade ≤ anchor.maxTrade := by
  decide +kernel

theorem twins_hydrated : sampleBootstrap.hydrate nativeChain twinFound = some twinRegs :=
  eq_some_of_getD twinRegs.eq_1 twin_evaluated.1

theorem twins_registered : Engine.new (twinRegs.map PoolRegistration.pool) = some twinEngine :=
  eq_some_of_getD twinEngine.eq_1 twin_evaluated.2.1

theorem traded_assembled : assemble twinEngine (fun idx => 10 - idx) twinEngine.byAddress tradedSources tradedGas tradedConfig
    tradedAnchors = some tradedEvaluator :=
  eq_some_of_getD tradedEvaluator.eq_1 traded_evaluated.1

theorem traded_turn : tradedEvaluator.turn referenceMath (fun _ => 0#256) rootFloor tradedRound = some tradedPass :=
  eq_some_of_getD tradedPass.eq_1 traded_evaluated.2.1

theorem traded_run : tradedEvaluator.run referenceMath (fun _ => 0#256) rootFloor [tradedRound] = some tradedRun :=
  eq_some_of_getD tradedRun.eq_1 traded_evaluated.2.2.1

theorem traded_parts : tradedEvaluator.engine = twinEngine ∧ tradedEvaluator.gas = tradedGas ∧
    tradedEvaluator.cfg = tradedConfig ∧ tradedEvaluator.anchors = tradedAnchors := by
  obtain ⟨routes, prices, -, -, hBuilt⟩ := assemble_eq traded_assembled
  exact ⟨congrArg Evaluator.engine hBuilt, congrArg Evaluator.gas hBuilt, congrArg Evaluator.cfg hBuilt,
    congrArg Evaluator.anchors hBuilt⟩

theorem traded_started : Started nativeKeyHash (Bootstrap.sampleBootstrap : Bootstrap Nat) nativeChain twinFound
    (fun idx => 10 - idx) tradedSources tradedEvaluator := by
  obtain ⟨hEngine, hGas, hConfig, hAnchors⟩ := traded_parts
  obtain ⟨-, -, -, -, -, hCount, -⟩ := traded_evaluated
  obtain ⟨⟨hTips, -⟩, hMin, hSizes⟩ := traded_configured
  refine ⟨fun p hMem hDex => ?_, ⟨twinRegs, twins_hydrated, ?_⟩, ⟨twinEngine.byAddress, ?_, ?_⟩, hCount, ?_⟩
  · obtain ⟨pair, -, rfl⟩ := List.mem_map.mp hMem
    cases hDex
  · rw [hEngine]
    exact twins_registered
  · rw [hEngine]
  · rw [hEngine, hGas, hConfig, hAnchors]
    exact traded_assembled
  · rw [hGas, hAnchors]
    exact ⟨hTips, hMin, hSizes⟩

theorem twins_fresh {idx : Nat} (h : idx < 4) :
    StillAsRead twinEngine twinState (pairsMarket twinTokens) twinBooks.venues idx := by
  obtain ⟨-, -, hMetas, -, hFirst, hSecond, hThird, hFourth⟩ := twin_evaluated
  match idx, h with
  | 0, _ => exact stillAsRead_of (hMetas ▸ rfl) rfl hFirst
  | 1, _ => exact stillAsRead_of (hMetas ▸ rfl) rfl hSecond
  | 2, _ => exact stillAsRead_of (hMetas ▸ rfl) rfl hThird
  | 3, _ => exact stillAsRead_of (hMetas ▸ rfl) rfl hFourth

theorem twins_halfFull (pair : Address) : (pairReserves (pairsMarket twinTokens) twinBooks.venues pair).1.toNat < 2 ^ 111 ∧
    (pairReserves (pairsMarket twinTokens) twinBooks.venues pair).2.toNat < 2 ^ 111 := by
  unfold pairReserves pairsMarket twinBooks twinReserves
  dsimp only
  split
  · decide
  · split <;> decide

theorem traded_ready : ∀ e ∈ tradedPass.sent, ∀ route, tradedEvaluator.store.route e.opp.routeId = some route →
    Ready referenceMath (fun _ => 0#256) tradedEvaluator (fun read => StillAsRead twinEngine read (pairsMarket twinTokens))
      (fun read hop amountIn _ => HasRoom twinEngine read hop amountIn) (fun _ => 0#256)
      (tradedRound.view e.opp.routeId).tier2 twinBooks e route := by
  obtain ⟨-, -, -, hSent, -, -, hRoutes, -⟩ := traded_evaluated
  intro e hMem route hRoute
  have hPools := hRoutes route (List.mem_of_getElem? hRoute)
  have hSmall : e.opp.amountIn.toNat < 2 ^ 111 := by
    rw [hSent] at hMem
    obtain rfl | hSecond := List.mem_cons.mp hMem
    · decide
    · rw [List.mem_singleton.mp hSecond]
      decide
  have hFresh : ∀ hop ∈ route.hops, StillAsRead twinEngine twinState (pairsMarket twinTokens) twinBooks.venues hop.pool :=
    fun hop hHop => twins_fresh (hPools hop hHop)
  refine ⟨by omega, hFresh, ?_, Nat.zero_le _⟩
  rw [traded_parts.1]
  exact fits_of_reserves twins_halfFull hFresh hSmall

theorem twins_packed : OverPackedPairs tradedEvaluator tradedRound := by
  obtain ⟨-, -, -, -, -, -, hRoutes, -⟩ := traded_evaluated
  intro id route hRoute hop hHop
  obtain ⟨pool, hKnown⟩ := twins_fresh (hRoutes route (List.mem_of_getElem? hRoute) hop hHop)
  obtain ⟨addr, slot, hPlan, -⟩ := hKnown.reserves
  exact ⟨pool, addr, slot, traded_parts.1 ▸ hKnown.registered, hPlan, hKnown.fee⟩

/-- A run of one turn sends the best route of each token, both of them vetted. However many
such turns there are, none panics. -/
theorem traded_sends_vetted : (∀ n, (tradedEvaluator.run referenceMath (fun _ => 0#256) rootFloor
      (List.replicate n tradedRound)).isSome) ∧ ∃ pass, tradedEvaluator.run referenceMath (fun _ => 0#256) rootFloor [tradedRound] = some pass ∧
    pass.sent = [tradedFirst, tradedSecond] ∧ Counts 5 1 pass ∧
    Vetted referenceMath (fun _ => 0#256) rootFloor tradedEvaluator tradedRound tradedFirst ∧
    Vetted referenceMath (fun _ => 0#256) rootFloor tradedEvaluator tradedRound tradedSecond := by
  refine ⟨fun n => (run_sends_vetted traded_started _).2.1 fun round hRound => ?_, ?_⟩
  · rw [List.eq_of_mem_replicate hRound]
    exact twins_packed
  obtain ⟨-, -, -, -, hSent, -⟩ := traded_evaluated
  obtain ⟨hCounts, turns, hPrefix, -, hTurns, hOutcomes⟩ :=
    (run_sends_vetted traded_started [tradedRound]).2.2 tradedRun traded_run
  rw [traded_parts.2.2.1] at hCounts
  have hVetted : ∀ e ∈ tradedRun.sent, Vetted referenceMath (fun _ => 0#256) rootFloor tradedEvaluator tradedRound e := by
    intro e hMem
    rw [hTurns, List.mem_flatMap] at hMem
    obtain ⟨t, hTurn, hHere⟩ := hMem
    have hRound := List.mem_singleton.mp (hPrefix.subset (List.mem_map_of_mem (f := Prod.fst) hTurn))
    exact hRound ▸ (hOutcomes t hTurn).2.1.vetted e hHere
  rw [hSent] at hVetted
  obtain ⟨hFirst, hRest⟩ := List.forall_mem_cons.mp hVetted
  exact ⟨tradedRun, traded_run, hSent, hCounts, hFirst, hRest tradedSecond List.mem_cons_self⟩

/-- The first opportunity pays for all of its gas at a base fee that has grown by an eighth. -/
theorem traded_covers_cost : ∃ anchor rate minProfit, tradedEvaluator.prices anchor.token = some rate ∧
    anchor.minProfit = some minProfit ∧
    ((360000 * 112500000 + 584 * 16 * 1000 : Nat) : ℚ) * kept ℚ (5 + anchor.decimals.toNat) + worth anchor rate minProfit.toNat <
      worth anchor rate (101270666200472747 + 1) := by
  have hModerate : Moderate tradedEvaluator.gas := by
    rw [traded_parts.2.1]
    exact ⟨traded_configured.1.2, le_rfl, show (1 : ℚ) ≤ ((2 ^ 16 : Nat) : ℚ) by norm_num⟩
  have hHops : tradedEvaluator.cfg.maxHops ≤ 65536 := by
    rw [traded_parts.2.2.1]
    decide
  have hPlausible : Plausible tradedSources := by
    intro token usd hUsd
    have hPrice : usd = 3000 := by
      unfold fetchUsdPrice at hUsd
      split at hUsd
      · exact (Option.some.inj hUsd).symm
      · obtain ⟨coin, -, hNone⟩ := Option.bind_eq_some_iff.mp hUsd
        cases hNone
    rw [hPrice]
    constructor <;> norm_num
  obtain ⟨-, -, -, -, hSame, -, -, hPairs, -⟩ := traded_evaluated
  have hSent : tradedFirst ∈ tradedRun.sent := by
    rw [hSame]
    exact List.mem_cons_self
  obtain ⟨round, hRound, route, anchor, rate, kinds, minProfit, hRoute, -, -, hRate, hKinds, hMin, hCovers⟩ :=
    sent_covers_cost traded_started hModerate hHops hPlausible traded_run hSent
  obtain rfl := List.mem_singleton.mp hRound
  have hTwo : kinds = [.v2, .v2] := by
    rw [show tradedEvaluator.store.route 0 = some route from hRoute, Option.bind_some, hKinds] at hPairs
    exact Option.some.inj hPairs
  have hLength : route.hops.length = 2 := by
    rw [← PartialMaps.length_of_mapM hKinds, hTwo]
    rfl
  have hCost := hCovers 360000 112500000 (by decide) (by decide)
  have hCalldata : l1Fee (tradedRound.view tradedFirst.opp.routeId).gas (calldataLen route kinds) = 584 * 16 * 1000 := by
    rw [calldataLen, hLength, hTwo]
    rfl
  rw [hCalldata] at hCost
  exact ⟨anchor, rate, minProfit, hRate, hMin, hCost⟩

/-- Both opportunities of the turn, taken one after the other on a loan. -/
theorem traded_earns : ∃ first second last,
    (∃ useFlashloan, encode tradedEvaluator.engine tradedEvaluator.store 0 247019144148088496#256 0#256 false =
      some (first, useFlashloan)) ∧
    (∃ useFlashloan, encode tradedEvaluator.engine tradedEvaluator.store 2 222068947731943232#256 0#256 false =
      some (second, useFlashloan)) ∧
    TakesEach executorAddress id (lendingCalls (pairsMarket twinTokens) executorAddress) [first, second] twinBooks last ∧
      last.held weth = 101270666200472747 + 49092923683591019 := by
  obtain ⟨-, -, -, hSent, -, -, -, -, hPredicted⟩ := traded_evaluated
  have hHops : tradedEvaluator.cfg.maxHops ≤ 65536 := by
    rw [traded_parts.2.2.1]
    decide
  have hMarket : ∀ pool ∈ tradedEvaluator.engine.metas, pool.dex ≠ .uniV4 →
      Listed (pairsMarket twinTokens) executorAddress pool := by
    rw [traded_parts.1]
    intro pool hPool _
    obtain ⟨-, hTokens, hContract, hManager⟩ := twin_evaluated.2.2.2.1 pool hPool
    have hReal : (twinTokens pool.address).1 ≠ zeroAddress ∧ (twinTokens pool.address).2 ≠ zeroAddress := by
      unfold twinTokens
      split <;> decide
    exact ⟨hTokens, hContract, hManager, hReal.1, hReal.2⟩
  have hDeals : ∀ read v4Keys, DealsAtQuotes referenceMath (fun _ => 0#256) tradedEvaluator.engine read (pairsMarket twinTokens)
      v4Keys (fun read => StillAsRead twinEngine read (pairsMarket twinTokens))
      fun read hop amountIn _ => HasRoom twinEngine read hop amountIn := by
    rw [traded_parts.1]
    exact fun read v4Keys => pairs_dealAtQuotes (Engine.new_addresses_nodup twins_registered)
      (pairsMarket_keepProduct fun pool hPool => (twin_evaluated.2.2.2.1 pool hPool).1) v4Keys
  have hRoom : ∀ token, twinBooks.held token + (tradedPass.sent.map fun e => e.opp.grossOut.toNat).sum < 2 ^ 256 := by
    rw [hSent]
    intro token
    change 0 + (348289810348561243 + (271161871415534251 + 0)) < 2 ^ 256
    norm_num
  obtain ⟨calls, last, hCalls, hEach, hHeld⟩ := turn_earns_predictions traded_started hHops hMarket hDeals lendingCalls_funds
    (by decide) traded_turn ⟨rfl, fun _ => rfl, rfl, rfl⟩ traded_ready hRoom false
  have hBoth := hHeld weth
  rw [hSent, hPredicted] at hBoth
  rw [hSent] at hCalls
  obtain _ | ⟨hFirst, _ | ⟨hSecond, ⟨⟩⟩⟩ := hCalls
  exact ⟨_, _, last, hFirst, hSecond, hEach, hBoth.trans (Nat.zero_add _)⟩

end Sample

end Robinarb
