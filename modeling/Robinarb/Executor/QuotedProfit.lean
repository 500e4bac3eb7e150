import Robinarb.Contracts.FundedRun
import Robinarb.Executor.RouteCalldata
import Robinarb.Math.ReferenceMath
import Robinarb.Routing.Returns
import Mathlib.Data.Rat.Floor

/-! # The profit that was quoted

From the opportunity the optimizer returns to the balance the contract ends with. The
venues are taken to deal at their quotes as long as nothing has traded with them since
the quoted state was read; for packed pairs that follows from the product they check.
-/

namespace Robinarb

open ArbExecutor

section Entries

variable {engine : Engine} {v4Keys : List V4Key}

/-- An entry of the calldata with its fee, which is the pool's own unless it is the index of a key. -/
structure EncodesPool (engine : Engine) (v4Keys : List V4Key) (hop : Robinarb.Hop) (entry : ArbExecutor.Hop) : Prop
    extends Encodes engine v4Keys hop entry where
  fee : ∀ pool, engine.metas[hop.pool]? = some pool → pool.dex ≠ .uniV4 → entry.feeBps = pool.feeBps.setWidth 16

theorem encodeHop_fee {pushed more : List V4Key} {hop : Robinarb.Hop} {entry : ArbExecutor.Hop}
    (hEncode : encodeHop engine pushed hop = some (entry, more)) {pool : PoolMeta}
    (hPool : engine.metas[hop.pool]? = some pool) (hDex : pool.dex ≠ .uniV4) :
    entry.feeBps = pool.feeBps.setWidth 16 := by
  rw [encodeHop, hPool, Option.bind_eq_bind, Option.bind_some] at hEncode
  dsimp only at hEncode
  rw [if_neg (fun hKind => hDex (hopKind_eq_v4.mp hKind))] at hEncode
  cases hEncode
  rfl

theorem encodeHops_pools {hops : List Robinarb.Hop} {entries : List ArbExecutor.Hop}
    (hEntries : List.Forall₂ (Encodes engine v4Keys) hops entries) {pushed more : List V4Key}
    (hEncode : encodeHops engine pushed hops = some (entries, more)) :
    List.Forall₂ (EncodesPool engine v4Keys) hops entries := by
  induction hEntries generalizing pushed with
  | nil => exact .nil
  | cons hEncodes _ ih =>
    obtain ⟨⟨first, next⟩, hFirst, hRest⟩ := Option.bind_eq_some_iff.mp hEncode
    obtain ⟨⟨others, last⟩, hOthers, hDone⟩ := Option.bind_eq_some_iff.mp hRest
    cases hDone
    exact .cons ⟨hEncodes, fun pool hPool hDex => encodeHop_fee hFirst hPool hDex⟩ (ih hOthers)

end Entries

section Quotes

variable {ε V : Type} (M : SwapMath ε) (keccak : Keccak) (engine : Engine) (s : ChainState) (market : Market V)
  (v4Keys : List V4Key)

/-- A venue that has not traded since the state was read fills at its quote, and a trade
with it is none with another, whatever state that was read from. `fills` is what else a
swap needs to go through. -/
def DealsAtQuotes (fresh : ChainState → V → Nat → Prop) (fills : ChainState → Robinarb.Hop → U256 → U256 → Prop) : Prop :=
  ∀ (m : V) (hop : Robinarb.Hop) (entry : ArbExecutor.Hop) (pool : PoolMeta) (amount out : U256),
    fresh s m hop.pool → EncodesPool engine v4Keys hop entry → engine.metaOf hop.pool = some pool →
    quote M keccak s pool amount hop.zeroForOne = some out → out ≠ 0#256 → fills s hop amount out →
    ∃ m', filledDeal market v4Keys m entry amount = some (out, m') ∧
      ∀ read idx, idx ≠ hop.pool → fresh read m idx → fresh read m' idx

/-- Every swap of the quoted chain goes through. -/
def FillsAlong (fills : Robinarb.Hop → U256 → U256 → Prop) : List Robinarb.Hop → U256 → Prop
  | [], _ => True
  | hop :: rest, amount => ∀ pool out, engine.metaOf hop.pool = some pool →
      quote M keccak s pool amount hop.zeroForOne = some out → fills hop amount out ∧ FillsAlong fills rest out

variable {M keccak engine s market v4Keys} {fresh : ChainState → V → Nat → Prop}
  {fills : ChainState → Robinarb.Hop → U256 → U256 → Prop}

/-- Pools that no earlier hop has traded with deal what `quote_route` quotes, and the pools
off the route stay as they are. -/
theorem quoteHops_deals (hDeals : DealsAtQuotes M keccak engine s market v4Keys fresh fills) {hops : List Robinarb.Hop}
    {entries : List ArbExecutor.Hop} (hEntries : List.Forall₂ (EncodesPool engine v4Keys) hops entries)
    (hPools : (hops.map Robinarb.Hop.pool).Nodup) {m : V} (hFresh : ∀ hop ∈ hops, fresh s m hop.pool) {amount out : U256}
    (hQuote : quoteHops M keccak engine s hops amount = some (some out))
    (hFills : FillsAlong M keccak engine s (fills s) hops amount) (held : Address → Nat) :
    ∃ m' funds, routeDeals market v4Keys ⟨amount, m, held⟩ entries = some ⟨out, m', funds⟩ ∧
      ∀ read idx, idx ∉ hops.map Robinarb.Hop.pool → fresh read m idx → fresh read m' idx := by
  induction hEntries generalizing m amount held with
  | nil =>
    cases hQuote
    exact ⟨m, held, rfl, fun _ _ _ hHere => hHere⟩
  | @cons hop entry rest entries hEncodes _ ih =>
    obtain ⟨pool, hPool, hRest⟩ := Option.bind_eq_some_iff.mp hQuote
    obtain ⟨next, hNext, hTail⟩ := Option.bind_eq_some_iff.mp hRest
    split at hTail
    · cases hTail
    next hPositive =>
      obtain ⟨hHere, hLater⟩ := hFills pool next hPool hNext
      obtain ⟨hNot, hNodup⟩ := List.nodup_cons.mp hPools
      obtain ⟨m₁, hDeal, hOthers⟩ := hDeals _ _ _ _ _ _ (hFresh hop List.mem_cons_self) hEncodes hPool hNext hPositive hHere
      have hStill : ∀ other ∈ rest, fresh s m₁ other.pool := by
        intro other hOther
        apply hOthers
        · intro hSame
          exact hNot (hSame ▸ List.mem_map_of_mem hOther)
        · exact hFresh other (List.mem_cons_of_mem _ hOther)
      obtain ⟨m', funds, hRun, hOff⟩ := ih hNodup hStill hTail hLater
        (exchanged held (entry.tokens market.tokens v4Keys).1 amount (entry.tokens market.tokens v4Keys).2 next)
      refine ⟨m', funds, DealChain.run_cons.mpr ⟨_, DealChain.deal_eq_some.mpr ⟨hDeal, rfl⟩, hRun⟩, fun read idx hIdx hRead => ?_⟩
      rw [List.map_cons, List.mem_cons, not_or] at hIdx
      exact hOff read idx hIdx.2 (hOthers read idx hIdx.1 hRead)

end Quotes

section Tokens

variable {V : Type} {engine : Engine} {market : Market V} {v4Keys : List V4Key}

/-- The pool contract trades the tokens that were discovered, and is a party of its own. -/
structure Listed (market : Market V) (contract : Address) (pool : PoolMeta) : Prop where
  tokens : market.tokens pool.address = (pool.token0, pool.token1)
  apart : market.Apart contract pool.address

theorem hopKind_inPool {dex : DexTag} (hDex : dex ≠ .uniV4) {entry : ArbExecutor.Hop} (hKind : entry.kind = hopKind dex) :
    entry.InPool := by
  unfold ArbExecutor.Hop.InPool
  rw [hKind]
  cases dex with
  | uniV4 => exact absurd rfl hDex
  | _ => decide

theorem directed_of_sides {α : Type} {zeroForOne : Bool} {x y tokenIn next : α}
    (hSides : zeroForOne = true ∧ tokenIn = x ∧ next = y ∨ zeroForOne = false ∧ tokenIn = y ∧ next = x) :
    directed zeroForOne (x, y) = (tokenIn, next) := by
  obtain ⟨rfl, rfl, rfl⟩ | ⟨rfl, rfl, rfl⟩ := hSides <;> rfl

variable {F : Type} {keyHash : KeyHash} {b : Bootstrap F} {rpc : BootstrapRpc} {found : List DiscoveredPool}
  {regs : List (PoolRegistration F)}

/-- An entry goes between the tokens of the hop it stands for. -/
theorem Encodes.tokens (hKeys : ∀ p ∈ found, p.dex = .uniV4 → ∃ key, p.FromKey keyHash key)
    (hHydrate : b.hydrate rpc found = some regs)
    (hEngine : Engine.new (regs.map PoolRegistration.pool) = some engine) {contract : Address}
    (hMarket : ∀ pool ∈ engine.metas, pool.dex ≠ .uniV4 → Listed market contract pool) {hop : Robinarb.Hop}
    {entry : ArbExecutor.Hop} (hEncodes : Encodes engine v4Keys hop entry) {pool : PoolMeta}
    (hPool : engine.metas[hop.pool]? = some pool) {next : Address}
    (hSides : hop.zeroForOne = true ∧ hop.tokenIn = pool.token0 ∧ next = pool.token1 ∨
      hop.zeroForOne = false ∧ hop.tokenIn = pool.token1 ∧ next = pool.token0) :
    entry.tokens market.tokens v4Keys = (hop.tokenIn, next) := by
  by_cases hDex : pool.dex = .uniV4
  · obtain ⟨key, hToken0, hToken1, -, hV4⟩ := hydrated_v4 hKeys hHydrate hEngine hPool hDex
    have hAt := hEncodes.key _ (v4KeyOf_eq hPool hDex hV4)
    have hThree : entry.kind = 3#8 := by rw [hEncodes.kind pool hPool, hDex]; rfl
    have hSecond : asToken key.currency1 = key.currency1 := if_neg key.currency1_ne
    rw [hToken0, hToken1] at hSides
    rw [tokens_of_v4 (not_inPool_of_kind hThree), currencies_of_key (not_inPool_of_kind hThree) hAt, hEncodes.zeroForOne]
    obtain ⟨hDir, hIn, hOut⟩ | ⟨hDir, hIn, hOut⟩ := hSides
    · rw [hDir, hIn, hOut]
      exact Prod.ext rfl hSecond
    · rw [hDir, hIn, hOut]
      exact Prod.ext hSecond rfl
  · have hLists := hMarket pool (List.mem_of_getElem? hPool) hDex
    rw [tokens_of_inPool (hopKind_inPool hDex (hEncodes.kind pool hPool)), hEncodes.zeroForOne,
      hEncodes.address pool hPool hDex, hLists.tokens]
    exact directed_of_sides hSides

/-- The calldata of a cycle goes around the tokens of the cycle. -/
theorem closedCycle_of_trail {entries : List ArbExecutor.Hop} {hops : List Robinarb.Hop} {anchor : Address}
    (hLength : entries.length = hops.length)
    (hTokens : ∀ i hop entry, hops[i]? = some hop → entries[i]? = some entry →
      entry.tokens market.tokens v4Keys = (hop.tokenIn, (hops[i + 1]?.map Robinarb.Hop.tokenIn).getD anchor))
    (hStart : ∀ hop ∈ hops.head?, hop.tokenIn = anchor) : ClosedCycle market.tokens v4Keys anchor entries where
  connected := by
    refine List.isChain_iff_getElem.mpr fun i hi => ?_
    have hHere := hTokens i hops[i] entries[i] (List.getElem?_eq_getElem (by omega)) (List.getElem?_eq_getElem (by omega))
    have hNext := hTokens (i + 1) hops[i + 1] entries[i + 1] (List.getElem?_eq_getElem (by omega))
      (List.getElem?_eq_getElem (by omega))
    rw [hHere, hNext, List.getElem?_eq_getElem (by omega)]
    rfl
  starts := by
    intro entry hFirst
    rw [Option.mem_def, List.head?_eq_getElem?] at hFirst
    obtain ⟨hPos, -⟩ := List.getElem?_eq_some_iff.mp hFirst
    have hHop : hops[0]? = some hops[0] := List.getElem?_eq_getElem (by omega)
    rw [hTokens 0 _ entry hHop hFirst]
    exact hStart _ (by rw [Option.mem_def, List.head?_eq_getElem?, hHop])
  ends := by
    intro entry hLast
    rw [Option.mem_def, List.getLast?_eq_getElem?] at hLast
    obtain ⟨hPos, -⟩ := List.getElem?_eq_some_iff.mp hLast
    have hHop : hops[entries.length - 1]? = some hops[entries.length - 1] := List.getElem?_eq_getElem (by omega)
    rw [hTokens _ _ entry hHop hLast, List.getElem?_eq_none (by omega)]
    rfl

end Tokens

section Executed

variable {F K ε V E L : Type} [Field K] [LinearOrder K] [FloorSemiring K] {keyHash : KeyHash} {b : Bootstrap F}
  {rpc : BootstrapRpc} {found : List DiscoveredPool} {regs : List (PoolRegistration F)} {engine : Engine}
  {M : SwapMath ε} {keccak : Keccak} {s : ChainState} {market : Market V} {contract : Address} {view : E → Books V}

theorem optimize_eq {sqrt : K → K} {route : Route} {minIn maxIn : K} {opp : Optimizer.Opportunity}
    (hOpp : optimize M keccak sqrt engine s route minIn maxIn = some (some opp)) :
    quoteHops M keccak engine s route.hops opp.amountIn = some (some opp.grossOut) ∧
      opp.amountIn.toNat < opp.grossOut.toNat ∧
      opp.grossProfit.toNat = opp.grossOut.toNat - opp.amountIn.toNat ∧ opp.routeId = route.id := by
  obtain ⟨size, -, hRest⟩ := Option.bind_eq_some_iff.mp hOpp
  cases size with
  | none => cases hRest
  | some x =>
    dsimp only at hRest
    split at hRest
    · cases hRest
    obtain ⟨quoted, hQuote, hTail⟩ := Option.bind_eq_some_iff.mp hRest
    cases quoted with
    | none => cases hTail
    | some grossOut =>
      dsimp only at hTail
      split at hTail
      · cases hTail
      next hProfit =>
        cases hTail
        rw [BitVec.not_le, BitVec.lt_def] at hProfit
        refine ⟨hQuote, hProfit, ?_, rfl⟩
        rw [BitVec.toNat_sub_of_le (BitVec.le_def.mpr hProfit.le)]

/-- The calldata of a route, as the contract and the market see it. -/
structure EncodedRoute (engine : Engine) (market : Market V) (contract : Address) (route : Route) (v4Keys : List V4Key)
    (entries : List ArbExecutor.Hop) : Prop where
  encodes : List.Forall₂ (EncodesPool engine v4Keys) route.hops entries
  closed : ClosedCycle market.tokens v4Keys route.anchor entries
  nonempty : entries ≠ []
  pools : (route.hops.map Robinarb.Hop.pool).Nodup
  apart : ∀ entry ∈ entries, entry.InPool → market.Apart contract entry.pool
  inRange : ∀ entry ∈ entries, ¬ entry.InPool → entry.feeBps.toNat < v4Keys.length

theorem EncodedRoute.hops_ne_nil {route : Route} {v4Keys : List V4Key} {entries : List ArbExecutor.Hop}
    (hEncoded : EncodedRoute engine market contract route v4Keys entries) : route.hops ≠ [] := by
  intro hNil
  have hEncodes := hEncoded.encodes
  rw [hNil] at hEncodes
  exact hEncoded.nonempty (List.forall₂_nil_left_iff.mp hEncodes)

/-- Every built route of a bootstrapped registry is encoded. -/
theorem builtRoute_encoded [LinearOrder L]
    (hKeys : ∀ p ∈ found, p.dex = .uniV4 → ∃ key, p.FromKey keyHash key) (hHydrate : b.hydrate rpc found = some regs)
    (hEngine : Engine.new (regs.map PoolRegistration.pool) = some engine) {poolAddresses : List (Address × Nat)}
    (hOrder : poolAddresses.Perm engine.byAddress) {liq : Nat → L} {cfg : GraphConfig} {anchors : List Address}
    {routes : List Route} (hRoutes : buildRoutes engine liq poolAddresses cfg anchors = some routes) {id : Nat}
    {route : Route} (hRoute : routes[id]? = some route) (hLength : route.hops.length ≤ 65536)
    (hMarket : ∀ pool ∈ engine.metas, pool.dex ≠ .uniV4 → Listed market contract pool)
    (amountIn ownBalance : U256) (forceFlashloan : Bool) :
    ∃ entries v4Keys, EncodedRoute engine market contract route v4Keys entries ∧
      encode engine (RouteStore.build routes engine.metas.length) id amountIn ownBalance forceFlashloan =
        some (.executeArb entries v4Keys route.anchor amountIn 0#256 (forceFlashloan || decide (ownBalance < amountIn)),
          forceFlashloan || decide (ownBalance < amountIn)) := by
  rw [← Bootstrap.hydrate_reindex hHydrate] at hEngine
  obtain ⟨adj, hValid, hCycles⟩ := buildRoutes_cycle hEngine hOrder hRoutes
  rw [Bootstrap.hydrate_reindex hHydrate] at hEngine
  obtain ⟨-, hCycle⟩ := hCycles route (List.mem_of_getElem? hRoute)
  have hEncodable : ∀ hop ∈ route.hops, Encodable engine hop := by
    intro hop hHop
    obtain ⟨pool, hPool, -⟩ := hCycle.trail.pools hValid hop hHop
    exact hydrated_encodable hKeys hHydrate hEngine hPool
  obtain ⟨entries, hEncode, hEntries⟩ := encodeHops_spec [] hEncodable (by simpa using hLength)
  rw [List.nil_append] at hEncode hEntries
  refine ⟨entries, route.hops.filterMap (v4KeyOf engine), ?_, ?_⟩
  · refine ⟨encodeHops_pools hEntries hEncode, ?_, ?_, hCycle.pools, fun entry hMem hPool => ?_, fun entry hMem hPool => ?_⟩
    · refine closedCycle_of_trail hEntries.length_eq.symm (fun i hop entry hHop hEntry => ?_) fun hop hFirst => ?_
      · obtain ⟨pool, hPool, hSides⟩ := (hCycle.trail.joins hHop).pool hValid
        obtain ⟨other, hOther, hEncodes⟩ := ListFilters.forall₂_getElem? hEntries hHop
        obtain rfl := Option.some.inj (hOther.symm.trans hEntry)
        exact hEncodes.tokens hKeys hHydrate hEngine hMarket hPool hSides
      · obtain ⟨rest, hCons⟩ := List.head?_eq_some_iff.mp hFirst
        have hTrail := hCycle.trail
        rw [hCons] at hTrail
        exact hTrail.tokenIn_eq
    · intro hNil
      have hTwo := hCycle.atLeast
      rw [hEntries.length_eq, hNil] at hTwo
      exact absurd hTwo (by decide)
    · obtain ⟨i, hi⟩ := List.mem_iff_getElem?.mp hMem
      obtain ⟨hop, hHop, hEncodes⟩ := ListFilters.forall₂_getElem? hEntries.flip hi
      obtain ⟨pool, hMeta, -⟩ := hCycle.trail.pools hValid hop (List.mem_of_getElem? hHop)
      have hDex : pool.dex ≠ .uniV4 := by
        intro hDex
        rw [ArbExecutor.Hop.InPool, hEncodes.kind pool hMeta, hDex] at hPool
        exact absurd hPool (by decide)
      rw [hEncodes.address pool hMeta hDex]
      exact (hMarket pool (List.mem_of_getElem? hMeta) hDex).apart
    · obtain ⟨i, hi⟩ := List.mem_iff_getElem?.mp hMem
      obtain ⟨hop, hHop, hEncodes⟩ := ListFilters.forall₂_getElem? hEntries.flip hi
      obtain ⟨pool, hMeta, hKey⟩ := hEncodable hop (List.mem_of_getElem? hHop)
      have hDex : pool.dex = .uniV4 := by
        by_contra hDex
        exact hPool (hopKind_inPool hDex (hEncodes.kind pool hMeta))
      obtain ⟨key, hSomeKey⟩ := Option.isSome_iff_exists.mp (hKey hDex)
      exact (List.getElem?_eq_some_iff.mp (hEncodes.key key hSomeKey)).1
  · rw [encode, RouteStore.route, RouteStore.build, hRoute, Option.bind_eq_bind, Option.bind_some, hEncode]
    rfl

/-- The encoded route, sent to the contract, brings what it was quoted to bring. -/
theorem EncodedRoute.takes {route : Route} {v4Keys : List V4Key} {entries : List ArbExecutor.Hop}
    (hEncoded : EncodedRoute engine market contract route v4Keys entries) {fresh : ChainState → V → Nat → Prop}
    {fills : ChainState → Robinarb.Hop → U256 → U256 → Prop}
    (hDeals : DealsAtQuotes M keccak engine s market v4Keys fresh fills)
    {books : Books V} (hFresh : ∀ hop ∈ route.hops, fresh s books.venues hop.pool) {amountIn grossOut : U256}
    (hQuote : quoteHops M keccak engine s route.hops amountIn = some (some grossOut))
    (hGain : amountIn.toNat < grossOut.toNat) (hSmall : amountIn.toNat < 2 ^ 127)
    (hFills : FillsAlong M keccak engine s (fills s) route.hops amountIn) {ext : Handler E}
    (hFunds : Funds market contract view ext) (hManager : POOL_MANAGER ≠ contract) (hQuiet : books.Quiet)
    {ownBalance : U256} (hOwn : ownBalance.toNat ≤ books.held route.anchor)
    (hRoom : books.held route.anchor + grossOut.toNat < 2 ^ 256) (forceFlashloan : Bool) :
    ∃ venues, (∀ read idx, idx ∉ route.hops.map Robinarb.Hop.pool → fresh read books.venues idx → fresh read venues idx) ∧
      ∀ (w : World) (sender : Address), w.executors sender = true → ∃ w', Takes view w books (dispatch contract ext sender
        (.executeArb entries v4Keys route.anchor amountIn 0#256 (forceFlashloan || decide (ownBalance < amountIn)))) [] w'
          (books.earned route.anchor (grossOut.toNat - amountIn.toNat) venues) := by
  obtain ⟨m', funds, hRun, hOff⟩ := quoteHops_deals hDeals hEncoded.encodes hEncoded.pools hFresh hQuote hFills
    (credit books.held route.anchor amountIn.toNat)
  have hFilled : FilledRoute market contract v4Keys
      { books with held := credit books.held route.anchor amountIn.toNat } entries amountIn ⟨grossOut, m', funds⟩ := by
    refine ⟨hEncoded.apart, hEncoded.inRange, hEncoded.closed.connected, hSmall, fun entry hFirst => ?_, hRun⟩
    rw [hEncoded.closed.starts entry hFirst]
    dsimp only
    rw [credit_self]
    exact Nat.le_add_left _ _
  have hCovered : (forceFlashloan || decide (ownBalance < amountIn)) = false → amountIn.toNat ≤ books.held route.anchor := by
    intro hSelf
    have hOwned := of_decide_eq_false (Bool.or_eq_false_iff.mp hSelf).2
    rw [BitVec.not_lt, BitVec.le_def] at hOwned
    exact hOwned.trans hOwn
  have hBar : amountIn.toNat + (0#256).toNat ≤ grossOut.toNat := hGain.le
  refine ⟨m', hOff, fun w sender hSender => ?_⟩
  obtain ⟨w', hTakes⟩ := executeArb_takes hFunds hManager hQuiet hEncoded.closed hEncoded.nonempty rfl hFilled hBar hRoom _
    hCovered hSender
  exact ⟨w', hTakes.bind (Takes.pure [])⟩

/-- Over a bootstrapped registry: what `optimize` returns for a built route is encoded, and
the call the sender makes of it goes through on venues that deal at their quotes. In both
funding modes the contract has the predicted profit of the anchor on top of what it had,
and as much as before of every other token. -/
theorem executeArb_earns_quote [LinearOrder L]
    (hKeys : ∀ p ∈ found, p.dex = .uniV4 → ∃ key, p.FromKey keyHash key) (hHydrate : b.hydrate rpc found = some regs)
    (hEngine : Engine.new (regs.map PoolRegistration.pool) = some engine) {poolAddresses : List (Address × Nat)}
    (hOrder : poolAddresses.Perm engine.byAddress) {liq : Nat → L} {cfg : GraphConfig} {anchors : List Address}
    {routes : List Route} (hRoutes : buildRoutes engine liq poolAddresses cfg anchors = some routes) {id : Nat}
    {route : Route} (hRoute : routes[id]? = some route) (hLength : route.hops.length ≤ 65536) {sqrt : K → K}
    {minIn maxIn : K} {opp : Optimizer.Opportunity}
    (hOpp : optimize M keccak sqrt engine s route minIn maxIn = some (some opp)) (hSmall : opp.amountIn.toNat < 2 ^ 127)
    (hMarket : ∀ pool ∈ engine.metas, pool.dex ≠ .uniV4 → Listed market contract pool)
    {fresh : ChainState → V → Nat → Prop} {fills : ChainState → Robinarb.Hop → U256 → U256 → Prop}
    (hDeals : ∀ v4Keys, DealsAtQuotes M keccak engine s market v4Keys fresh fills) {books : Books V}
    (hFresh : ∀ hop ∈ route.hops, fresh s books.venues hop.pool)
    (hFills : FillsAlong M keccak engine s (fills s) route.hops opp.amountIn) {ext : Handler E}
    (hFunds : Funds market contract view ext) (hManager : POOL_MANAGER ≠ contract) (hQuiet : books.Quiet)
    {ownBalance : U256} (hOwn : ownBalance.toNat ≤ books.held route.anchor)
    (hRoom : books.held route.anchor + opp.grossOut.toNat < 2 ^ 256) (forceFlashloan : Bool) {w : World}
    {sender : Address} (hSender : w.executors sender = true) :
    ∃ call useFlashloan w' venues, encode engine (RouteStore.build routes engine.metas.length) id opp.amountIn
          ownBalance forceFlashloan = some (call, useFlashloan) ∧
      Takes view w books (dispatch contract ext sender call) [] w'
        (books.earned route.anchor opp.grossProfit.toNat venues) := by
  obtain ⟨hQuote, hGain, hProfit, -⟩ := optimize_eq hOpp
  obtain ⟨entries, v4Keys, hEncoded, hCall⟩ := builtRoute_encoded hKeys hHydrate hEngine hOrder hRoutes hRoute hLength
    hMarket opp.amountIn ownBalance forceFlashloan
  obtain ⟨venues, -, hTakes⟩ := hEncoded.takes (hDeals v4Keys) hFresh hQuote hGain hSmall hFills hFunds hManager hQuiet
    hOwn hRoom forceFlashloan
  obtain ⟨w', hTakes⟩ := hTakes w sender hSender
  rw [hProfit]
  exact ⟨_, _, w', venues, hCall, hTakes⟩

end Executed

section Pairs

variable {ε V : Type} {M : SwapMath ε} {keccak : Keccak} {engine : Engine} {s : ChainState} {market : Market V}

def pairReserves (market : Market V) (m : V) (pair : Address) : BitVec 112 × BitVec 112 :=
  ((market.reserves m pair).1, (market.reserves m pair).2.1)

/-- A pair that was paid gives what keeps its product at its fee, as long as its reserve
word has room for the input, and no other pair changes. -/
def PairsKeepProduct (market : Market V) (engine : Engine) : Prop :=
  ∀ (m : V) (pool : PoolMeta) (h : ArbExecutor.Hop) (amountIn out : U256), pool ∈ engine.metas →
    pool.dex = .uniV2Fork → h.pool = pool.address →
    let r := directed h.zeroForOne (pairReserves market m pool.address)
    0 < out.toNat → out.toNat < r.2.toNat → r.1.toNat + amountIn.toNat < 2 ^ 112 →
    V2.KeepsProduct r.1.toNat r.2.toNat pool.feeBps.toNat amountIn.toNat out.toNat →
    ∃ m', pairDeal market m h amountIn out = some (out, m') ∧
      ∀ other ≠ pool.address, pairReserves market m' other = pairReserves market m other

/-- A pair of the registry whose reserves are those of the word that its quotes read. -/
structure PairAsRead (engine : Engine) (s : ChainState) (market : Market V) (m : V) (idx : Nat) (pool : PoolMeta) : Prop where
  registered : engine.metaOf idx = some pool
  fork : pool.dex = .uniV2Fork
  fee : pool.feeBps.toNat ≤ 10000
  reserves : ∃ addr slot, s.plan pool.idx = some (.v2Packed addr slot) ∧
    pairReserves market m pool.address = packedReserves (s.read addr slot)

def StillAsRead (engine : Engine) (s : ChainState) (market : Market V) (m : V) (idx : Nat) : Prop :=
  ∃ pool, PairAsRead engine s market m idx pool

/-- The input fits into the reserve word on top of what is there. -/
def HasRoom (engine : Engine) (s : ChainState) (hop : Robinarb.Hop) (amountIn : U256) : Prop :=
  ∀ pool addr slot, engine.metaOf hop.pool = some pool → s.plan pool.idx = some (.v2Packed addr slot) →
    (orderedReserves (s.read addr slot) hop.zeroForOne).1.toNat + amountIn.toNat < 2 ^ 112

theorem quote_packed_positive {pool : PoolMeta} {addr : Address} {slot amountIn out : U256} {zeroForOne : Bool}
    (hPlan : s.plan pool.idx = some (.v2Packed addr slot)) (hQuote : quote M keccak s pool amountIn zeroForOne = some out)
    (hOut : out ≠ 0#256) : (packedReserves (s.read addr slot)).1 ≠ 0#112 ∧
      (packedReserves (s.read addr slot)).2 ≠ 0#112 ∧ amountIn ≠ 0#256 := by
  unfold quote at hQuote
  rw [hPlan] at hQuote
  dsimp only at hQuote
  rw [decodeV2Packed_eq] at hQuote
  dsimp only at hQuote
  split at hQuote
  · exact absurd (Option.some.inj hQuote).symm hOut
  next hReserves =>
    refine ⟨fun hZero => hReserves (.inl ?_), fun hZero => hReserves (.inr ?_), ?_⟩
    · rw [hZero]
      rfl
    · rw [hZero]
      rfl
    · rintro rfl
      rw [V2.getAmountOut, if_pos (.inl rfl)] at hQuote
      exact hOut (Option.some.inj hQuote).symm

/-- Pairs that keep their product deal at the quotes of their packed word. -/
theorem pairs_dealAtQuotes (hNodup : (engine.metas.map PoolMeta.address).Nodup)
    (hPairs : PairsKeepProduct market engine) (v4Keys : List V4Key) :
    DealsAtQuotes M keccak engine s market v4Keys (fun read => StillAsRead engine read market)
      fun read hop amountIn _ => HasRoom engine read hop amountIn := by
  rintro m hop entry pool amountIn out ⟨known, hRead⟩ hEncodes hPool hQuote hOut hRoom
  obtain rfl := Option.some.inj (hRead.registered.symm.trans hPool)
  obtain ⟨addr, slot, hPlan, hReserves⟩ := hRead.reserves
  obtain ⟨h0, h1, hAmount⟩ := quote_packed_positive hPlan hQuote hOut
  have hFits := hRoom known addr slot hPool hPlan
  have hSmall : amountIn.toNat < 2 ^ 128 := by omega
  have hNotV4 : known.dex ≠ .uniV4 := by
    rw [hRead.fork]
    decide
  have hOrdered : directed entry.zeroForOne (pairReserves market m known.address) =
      orderedReserves (s.read addr slot) hop.zeroForOne := by rw [hEncodes.zeroForOne, hReserves, orderedReserves]
  have hFormula := @quote_packed_eq ε M keccak s known amountIn addr slot hPlan hop.zeroForOne hRead.fee h0 h1 hAmount
    hSmall
  have hOutEq := Option.some.inj (hQuote.symm.trans hFormula)
  obtain ⟨hBelow, hKeeps⟩ := v2Out_keeps (s.read addr slot) hop.zeroForOne hRead.fee h0 h1 amountIn
  rw [← hOutEq] at hBelow hKeeps
  have hPositive : 0 < out.toNat := Nat.pos_of_ne_zero fun hZero => hOut (BitVec.eq_of_toNat_eq hZero)
  obtain ⟨m', hDeal, hOthers⟩ := hPairs m known entry amountIn out (List.mem_of_getElem? hPool) hRead.fork
    (hEncodes.address known hPool hNotV4) hPositive (by rw [hOrdered]; exact hBelow) (by rw [hOrdered]; exact hFits)
    (by rw [hOrdered]; exact hKeeps)
  have hKind : entry.kind = 0#8 := by rw [hEncodes.kind known hPool, hRead.fork]; rfl
  have hValue : v2Out (directed entry.zeroForOne (pairReserves market m known.address)) entry.feeBps amountIn = out := by
    rw [hOrdered, hEncodes.fee known hPool hNotV4]
    exact hOutEq.symm
  refine ⟨m', ?_, fun read idx hOtherIdx => ?_⟩
  · have hHop : hopDeal market v4Keys m entry amountIn = some (out, m') := by
      rw [hopDeal, if_pos hKind, hEncodes.address known hPool hNotV4]
      refine Eq.trans ?_ hDeal
      refine congrArg (pairDeal market m entry amountIn) (Eq.trans ?_ hValue)
      cases entry.zeroForOne <;> rfl
    have hBound := (directed entry.zeroForOne (pairReserves market m known.address)).2.isLt
    rw [hOrdered] at hBound
    rw [filledDeal, hHop, Option.filter_some, if_pos (by simp only [decide_eq_true_eq]; omega)]
  · rintro ⟨pool, hStill⟩
    refine ⟨pool, hStill.registered, hStill.fork, hStill.fee, ?_⟩
    have hApart : pool.address ≠ known.address := by
      intro hSame
      have hPoolAt : (engine.metas.map PoolMeta.address)[idx]? = some pool.address := by
        rw [List.getElem?_map, show engine.metas[idx]? = some pool from hStill.registered]
        rfl
      have hKnownAt : (engine.metas.map PoolMeta.address)[hop.pool]? = some known.address := by
        rw [List.getElem?_map, show engine.metas[hop.pool]? = some known from hPool]
        rfl
      obtain ⟨hIdx, -⟩ := List.getElem?_eq_some_iff.mp hPoolAt
      rw [hSame, ← hKnownAt] at hPoolAt
      exact hOtherIdx ((List.getElem?_inj hIdx hNodup).mp hPoolAt)
    obtain ⟨addr', slot', hPlan', hReserves'⟩ := hStill.reserves
    exact ⟨addr', slot', hPlan', (hOthers pool.address hApart).trans hReserves'⟩

/-- Where no reserve fills half of its word, a route has room for whatever it trades. -/
theorem fits_of_reserves {m : V} (hHalf : ∀ pair, (pairReserves market m pair).1.toNat < 2 ^ 111 ∧
      (pairReserves market m pair).2.toNat < 2 ^ 111) {hops : List Robinarb.Hop}
    (hRead : ∀ hop ∈ hops, StillAsRead engine s market m hop.pool) {amountIn : U256} (hSmall : amountIn.toNat < 2 ^ 111) :
    FillsAlong M keccak engine s (fun hop amountIn _ => HasRoom engine s hop amountIn) hops amountIn := by
  induction hops generalizing amountIn with
  | nil => trivial
  | cons hop rest ih =>
    obtain ⟨⟨known, hKnown⟩, hRest⟩ := List.forall_mem_cons.mp hRead
    obtain ⟨addr, slot, hPlan, hReserves⟩ := hKnown.reserves
    have hOrdered : (orderedReserves (s.read addr slot) hop.zeroForOne).1.toNat < 2 ^ 111 ∧
        (orderedReserves (s.read addr slot) hop.zeroForOne).2.toNat < 2 ^ 111 := by
      obtain ⟨hFirst, hSecond⟩ := hHalf known.address
      rw [hReserves] at hFirst hSecond
      unfold orderedReserves
      cases hop.zeroForOne with
      | true => exact ⟨hFirst, hSecond⟩
      | false => exact ⟨hSecond, hFirst⟩
    intro pool out hPool hQuote
    obtain rfl := Option.some.inj (hKnown.registered.symm.trans hPool)
    constructor
    · intro other addr' slot' hOther hSame
      obtain rfl := Option.some.inj (hPool.symm.trans hOther)
      cases hPlan.symm.trans hSame
      omega
    · obtain ⟨quoted, hQuoted, hBound⟩ := @quote_packed_returns ε M keccak s known addr slot amountIn hPlan hKnown.fee
        (by omega) hop.zeroForOne
      obtain rfl := Option.some.inj (hQuote.symm.trans hQuoted)
      exact ih hRest (by omega)

section Routes

variable {F K E L : Type} [Field K] [LinearOrder K] [FloorSemiring K] {keyHash : KeyHash} {b : Bootstrap F}
  {rpc : BootstrapRpc} {found : List DiscoveredPool} {regs : List (PoolRegistration F)} {contract : Address}
  {view : E → Books V}

/-- For a route of packed pairs nothing is assumed of quotes: pairs that check their product
at the registered fee pay the predicted profit, as long as their reserves are those of the
words that were read and no input overflows a reserve. -/
theorem executeArb_earns_pair_quote [LinearOrder L]
    (hKeys : ∀ p ∈ found, p.dex = .uniV4 → ∃ key, p.FromKey keyHash key) (hHydrate : b.hydrate rpc found = some regs)
    (hEngine : Engine.new (regs.map PoolRegistration.pool) = some engine) {poolAddresses : List (Address × Nat)}
    (hOrder : poolAddresses.Perm engine.byAddress) {liq : Nat → L} {cfg : GraphConfig} {anchors : List Address}
    {routes : List Route} (hRoutes : buildRoutes engine liq poolAddresses cfg anchors = some routes) {id : Nat}
    {route : Route} (hRoute : routes[id]? = some route) (hLength : route.hops.length ≤ 65536) {sqrt : K → K}
    {minIn maxIn : K} {opp : Optimizer.Opportunity}
    (hOpp : optimize M keccak sqrt engine s route minIn maxIn = some (some opp))
    (hMarket : ∀ pool ∈ engine.metas, pool.dex ≠ .uniV4 → Listed market contract pool)
    (hPairs : PairsKeepProduct market engine) {books : Books V}
    (hRead : ∀ hop ∈ route.hops, StillAsRead engine s market books.venues hop.pool)
    (hFits : FillsAlong M keccak engine s (fun hop amountIn _ => HasRoom engine s hop amountIn) route.hops opp.amountIn)
    {ext : Handler E} (hFunds : Funds market contract view ext) (hManager : POOL_MANAGER ≠ contract)
    (hQuiet : books.Quiet) {ownBalance : U256} (hOwn : ownBalance.toNat ≤ books.held route.anchor)
    (hRoom : books.held route.anchor + opp.grossOut.toNat < 2 ^ 256) (forceFlashloan : Bool) {w : World}
    {sender : Address} (hSender : w.executors sender = true) :
    ∃ call useFlashloan w' venues, encode engine (RouteStore.build routes engine.metas.length) id opp.amountIn
          ownBalance forceFlashloan = some (call, useFlashloan) ∧
      Takes view w books (dispatch contract ext sender call) [] w'
        (books.earned route.anchor opp.grossProfit.toNat venues) := by
  obtain ⟨hQuote, hGain, hProfit, -⟩ := optimize_eq hOpp
  obtain ⟨entries, v4Keys, hEncoded, hCall⟩ := builtRoute_encoded hKeys hHydrate hEngine hOrder hRoutes hRoute hLength
    hMarket opp.amountIn ownBalance forceFlashloan
  have hSmall : opp.amountIn.toNat < 2 ^ 127 := by
    obtain ⟨first, rest, hHops⟩ := List.exists_cons_of_ne_nil hEncoded.hops_ne_nil
    rw [hHops] at hFits hQuote hRead
    obtain ⟨pool, hPool, hRest⟩ := Option.bind_eq_some_iff.mp hQuote
    obtain ⟨out, hOut, -⟩ := Option.bind_eq_some_iff.mp hRest
    obtain ⟨known, hKnown⟩ := hRead first List.mem_cons_self
    obtain ⟨addr, slot, hPlan, -⟩ := hKnown.reserves
    have hHere := (hFits pool out hPool hOut).1 known addr slot hKnown.registered hPlan
    omega
  obtain ⟨venues, -, hTakes⟩ := hEncoded.takes (pairs_dealAtQuotes (Engine.new_addresses_nodup hEngine) hPairs v4Keys)
    hRead hQuote hGain hSmall hFits hFunds hManager hQuiet hOwn hRoom forceFlashloan
  obtain ⟨w', hTakes⟩ := hTakes w sender hSender
  rw [hProfit]
  exact ⟨_, _, w', venues, hCall, hTakes⟩

end Routes

section Sample

open Bootstrap

/-- Reserves of pairs, and the payment made last: its token, to whom, how much. -/
structure Pairs where
  reserves : Address → BitVec 112 × BitVec 112
  payment : Address × Address × U256

def Pairs.traded (m : Pairs) (pair : Address) (zeroForOne : Bool) (amountIn out : U256) : Pairs :=
  let r := directed zeroForOne (m.reserves pair)
  let after := directed zeroForOne (r.1 + amountIn.setWidth 112, r.2 - out.setWidth 112)
  { m with reserves := fun other => if other = pair then after else m.reserves other }

/-- Pairs that check their product at 30 basis points and take nothing that overflows a reserve. -/
def pairsMarket (tokens : Address → Address × Address) : Market Pairs where
  tokens := tokens
  reserves m pair := ((m.reserves pair).1, (m.reserves pair).2, 0#32)
  amountOut _ _ _ _ := 0#256
  paid m token recipient amount := { m with payment := (token, recipient, amount) }
  pairSwap m pair amount0Out amount1Out :=
    let zeroForOne := decide (amount0Out = 0#256)
    let r := directed zeroForOne (m.reserves pair)
    let out := if zeroForOne then amount1Out else amount0Out
    let (token, recipient, amountIn) := m.payment
    if token = (directed zeroForOne (tokens pair)).1 ∧ recipient = pair ∧ 0 < out.toNat ∧ out.toNat < r.2.toNat ∧
        r.1.toNat + amountIn.toNat < 2 ^ 112 ∧
        r.1.toNat * r.2.toNat * 10000 ≤ (r.1.toNat * 10000 + amountIn.toNat * (10000 - 30)) * (r.2.toNat - out.toNat) then
      some (m.traded pair zeroForOne amountIn out)
    else none
  v3Swap _ _ _ _ := none
  v4Swap _ _ _ _ := none

theorem pairsMarket_keepProduct {tokens : Address → Address × Address}
    (hFees : ∀ pool ∈ engine.metas, pool.feeBps = 30#32) : PairsKeepProduct (pairsMarket tokens) engine := by
  intro m pool h amountIn out hPool _ hAddress r hPositive hBelow hFits hKeeps
  rw [V2.KeepsProduct, hFees pool hPool] at hKeeps
  have hDir : decide ((directed h.zeroForOne (0#256, out)).1 = 0#256) = h.zeroForOne := by
    cases h.zeroForOne with
    | true => rfl
    | false =>
      refine decide_eq_false fun hZero => ?_
      rw [show out = 0#256 from hZero] at hPositive
      exact absurd hPositive (by decide)
  have hAsked : (if h.zeroForOne = true then (directed h.zeroForOne (0#256, out)).2
      else (directed h.zeroForOne (0#256, out)).1) = out := by cases h.zeroForOne <;> rfl
  let m' : Pairs := { m with payment := ((directed h.zeroForOne (tokens pool.address)).1, pool.address, amountIn) }
  refine ⟨m'.traded pool.address h.zeroForOne amountIn out, ?_, fun other hOther => ?_⟩
  · unfold pairDeal pairsMarket
    dsimp only
    rw [hDir, hAsked, hAddress, if_pos ⟨rfl, rfl, hPositive, hBelow, hFits, hKeeps⟩]
    rfl
  · have hKept : (m'.traded pool.address h.zeroForOne amountIn out).reserves other = m.reserves other := if_neg hOther
    exact Prod.ext (congrArg Prod.fst hKept) (congrArg Prod.snd hKept)

def pairTokens (_ : Address) : Address × Address := (weth, nativeKey.currency1)

def pairFound : List DiscoveredPool :=
  [sampleFound 7#160 weth nativeKey.currency1, sampleFound 8#160 weth nativeKey.currency1]

def pairRegs : List (PoolRegistration Nat) := (sampleBootstrap.hydrate nativeChain pairFound).getD []

def tradedEngine : Engine := (Engine.new (pairRegs.map PoolRegistration.pool)).getD ⟨[], []⟩

def pairRoutes : List Route :=
  (buildRoutes tradedEngine (fun idx => 10 - idx) tradedEngine.byAddress ⟨3, 100, 6⟩ [weth]).getD []

def tradedRoute : Route := ⟨0, weth, [⟨0, true, weth⟩, ⟨1, false, nativeKey.currency1⟩]⟩

/-- The first pair gives two for one, the second one for one. -/
def pairState : ChainState where
  memo key := if key = (7#160, 8#256) then some (BitVec.ofNat 256 (100000 + 200000 * 2 ^ 112))
    else if key = (8#160, 8#256) then some (BitVec.ofNat 256 (300000 + 300000 * 2 ^ 112)) else none
  tickCache _ := none
  plans := [some (.v2Packed 7#160 8#256), some (.v2Packed 8#160 8#256)]

/-- The contract has nothing, and nobody has traded. -/
def pairBooks : Books Pairs where
  held _ := 0
  delta _ := 0
  unlocked := false
  synced := zeroAddress
  received := 0
  venues := ⟨fun pair => if pair = 7#160 then (100000#112, 200000#112) else (300000#112, 300000#112), 0#160, 0#160, 0#256⟩

def pairSavings : Books Pairs := { pairBooks with held := fun token => if token = weth then 50000 else 0 }

def executingWorld : World := { restingWorld with executors := fun account => account == 0xE0A#160 }

/-- The floor of a root, a binary digit a turn. -/
def rootDigits : Nat → Nat → Nat
  | 0, _ => 0
  | turns + 1, n =>
    let r := 2 * rootDigits turns (n / 4)
    if (r + 1) * (r + 1) ≤ n then r + 1 else r

def rootFloor (x : ℚ) : ℚ := rootDigits 128 ⌊x⌋₊

def pairOpportunity : Optimizer.Opportunity := ⟨0, 24701#256, 34827#256, 10126#256⟩

theorem pairs_evaluated : ((sampleBootstrap : Bootstrap Nat).hydrate nativeChain pairFound).isSome ∧
    (Engine.new (pairRegs.map PoolRegistration.pool)).isSome ∧
    (buildRoutes tradedEngine (fun idx => 10 - idx) tradedEngine.byAddress ⟨3, 100, 6⟩ [weth]).isSome ∧
    pairRoutes[0]? = some tradedRoute ∧
    optimize referenceMath (fun _ => 0#256) rootFloor tradedEngine pairState tradedRoute 1 1000000 =
      some (some pairOpportunity) := by
  decide +kernel

theorem pairs_known : (∀ pool ∈ tradedEngine.metas, pool.feeBps = 30#32) ∧
    (∀ pool ∈ tradedEngine.metas, (weth, nativeKey.currency1) = (pool.token0, pool.token1) ∧
      pool.address ≠ executorAddress ∧ pool.address ≠ POOL_MANAGER) ∧
    tradedEngine.metas.map (fun pool => (pool.idx, pool.dex, pool.feeBps, pool.address)) =
      [(0, .uniV2Fork, 30#32, 7#160), (1, .uniV2Fork, 30#32, 8#160)] ∧
    packedReserves (pairState.read 7#160 8#256) = (100000#112, 200000#112) ∧
    packedReserves (pairState.read 8#160 8#256) = (300000#112, 300000#112) := by
  decide +kernel

theorem pairs_hydrated : sampleBootstrap.hydrate nativeChain pairFound = some pairRegs :=
  eq_some_of_getD pairRegs.eq_1 pairs_evaluated.1

theorem pairs_registered : Engine.new (pairRegs.map PoolRegistration.pool) = some tradedEngine :=
  eq_some_of_getD tradedEngine.eq_1 pairs_evaluated.2.1

theorem pairs_routed : buildRoutes tradedEngine (fun idx => 10 - idx) tradedEngine.byAddress ⟨3, 100, 6⟩ [weth] = some pairRoutes :=
  eq_some_of_getD pairRoutes.eq_1 pairs_evaluated.2.2.1

theorem stillAsRead_of {engine : Engine} {s : ChainState} {market : Market V} {m : V} {idx : Nat} {pair : Address} {slot : U256}
    (hMeta : (engine.metas.map fun pool => (pool.idx, pool.dex, pool.feeBps, pool.address))[idx]? =
      some (idx, .uniV2Fork, 30#32, pair))
    (hPlan : s.plan idx = some (.v2Packed pair slot))
    (hReserves : pairReserves market m pair = packedReserves (s.read pair slot)) : StillAsRead engine s market m idx := by
  rw [List.getElem?_map] at hMeta
  obtain ⟨pool, hPool, hSame⟩ := Option.map_eq_some_iff.mp hMeta
  simp only [Prod.mk.injEq] at hSame
  obtain ⟨hIdx, hDex, hFee, hAddress⟩ := hSame
  refine ⟨pool, hPool, hDex, by rw [hFee]; decide, pair, slot, by rw [hIdx, hPlan], by rw [hAddress, hReserves]⟩

theorem pairs_fresh : ∀ hop ∈ tradedRoute.hops,
    StillAsRead tradedEngine pairState (pairsMarket pairTokens) pairBooks.venues hop.pool := by
  obtain ⟨-, -, hMetas, hFirst, hSecond⟩ := pairs_known
  rintro hop (_ | ⟨_, _ | ⟨_, hNil⟩⟩)
  · exact stillAsRead_of (hMetas ▸ rfl) rfl hFirst.symm
  · exact stillAsRead_of (hMetas ▸ rfl) rfl hSecond.symm
  · cases hNil

theorem pairs_fit : FillsAlong referenceMath (fun _ => 0#256) tradedEngine pairState
    (fun hop amountIn _ => HasRoom tradedEngine pairState hop amountIn) tradedRoute.hops pairOpportunity.amountIn := by
  apply fits_of_reserves _ pairs_fresh (by decide)
  intro pair
  unfold pairReserves pairsMarket pairBooks
  dsimp only
  split <;> decide

theorem pairs_listed : ∀ pool ∈ tradedEngine.metas, pool.dex ≠ .uniV4 →
    Listed (pairsMarket pairTokens) executorAddress pool := by
  intro pool hPool _
  obtain ⟨hTokens, hContract, hManager⟩ := pairs_known.2.1 pool hPool
  exact ⟨hTokens, hContract, hManager, show weth ≠ zeroAddress by decide, show nativeKey.currency1 ≠ zeroAddress by decide⟩

theorem pairFound_keys : ∀ p ∈ pairFound, p.dex = .uniV4 → ∃ key, p.FromKey nativeKeyHash key := by
  rintro p (_ | ⟨_, _ | ⟨_, hNil⟩⟩) hDex
  · cases hDex
  · cases hDex
  · cases hNil

/-- A loan of 24701 buys 34827. -/
theorem pairs_earn_on_loan : ∃ call useFlashloan w' venues,
    encode tradedEngine (RouteStore.build pairRoutes tradedEngine.metas.length) 0 24701#256 0#256 false =
        some (call, useFlashloan) ∧
      Takes id executingWorld pairBooks
        (dispatch executorAddress (lendingCalls (pairsMarket pairTokens) executorAddress) 0xE0A#160 call) [] w'
        (pairBooks.earned weth 10126 venues) :=
  executeArb_earns_pair_quote pairFound_keys pairs_hydrated pairs_registered (.refl _) pairs_routed
    pairs_evaluated.2.2.2.1 (by decide) pairs_evaluated.2.2.2.2 pairs_listed (pairsMarket_keepProduct pairs_known.1) pairs_fresh
    pairs_fit lendingCalls_funds (by decide) ⟨rfl, fun _ => rfl, rfl, rfl⟩
    (show (0#256).toNat ≤ 0 by decide) (by decide) false rfl

/-- And so does what the contract has. -/
theorem pairs_earn_on_own : ∃ call useFlashloan w' venues,
    encode tradedEngine (RouteStore.build pairRoutes tradedEngine.metas.length) 0 24701#256 50000#256 false =
        some (call, useFlashloan) ∧
      Takes id executingWorld pairSavings
        (dispatch executorAddress (lendingCalls (pairsMarket pairTokens) executorAddress) 0xE0A#160 call) [] w'
        (pairSavings.earned weth 10126 venues) :=
  executeArb_earns_quote pairFound_keys pairs_hydrated pairs_registered (.refl _) pairs_routed
    pairs_evaluated.2.2.2.1 (by decide) pairs_evaluated.2.2.2.2 (by decide) pairs_listed
    (pairs_dealAtQuotes (Engine.new_addresses_nodup pairs_registered) (pairsMarket_keepProduct pairs_known.1))
    (show ∀ hop ∈ tradedRoute.hops, StillAsRead _ _ _ pairSavings.venues hop.pool from pairs_fresh) pairs_fit
    lendingCalls_funds (by decide) ⟨rfl, fun _ => rfl, rfl, rfl⟩
    (show (50000#256).toNat ≤ 50000 by decide) (by decide) false rfl

end Sample

end Pairs

end Robinarb
