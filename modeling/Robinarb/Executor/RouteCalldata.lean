import Robinarb.Executor.Encoder
import Robinarb.Ingest.HostileAnswers
import Robinarb.Routing.Routes
import Robinarb.State.SlotPlans

/-! # The route that was quoted

From discovery to the contract: an entry of the calldata trades against the pool whose
storage the quote of its hop reads, in the hop's direction, between the hop's tokens.
Routing knows native ETH as WETH; the V4 keys carry the raw currencies.
-/

namespace Robinarb

open ArbExecutor

def normalized (currency : Address) : Address := if currency = zeroAddress then weth else currency

/-- At this entry a turn of the contract's loop is one swap, and goes on behind it. -/
def DispatchesTo (entry : ArbExecutor.Hop) (swap : ∀ {E : Type}, Address → Handler E → ArbExecutor.Hop → U256 → Exec E U256) :
    Prop :=
  ∀ (E : Type) (self : Address) (ext : Handler E) (hops : List ArbExecutor.Hop) (v4Keys : List V4Key) (n i : Nat)
    (amount : U256), hops[i]? = some entry →
    runHopsFrom self ext hops v4Keys (n + 1) i amount =
      (do runHopsFrom self ext hops v4Keys n (i + 1) (← swap self ext entry amount))

/-- At this entry a turn of the contract's loop is a V4 segment. -/
def DispatchesToSegment (entry : ArbExecutor.Hop) : Prop :=
  ∀ (E : Type) (self : Address) (ext : Handler E) (hops : List ArbExecutor.Hop) (v4Keys : List V4Key) (n i : Nat)
    (amount : U256), hops[i]? = some entry →
    runHopsFrom self ext hops v4Keys (n + 1) i amount = (do
      let j ← segmentEnd hops v4Keys hops.length (i + 1)
      runHopsFrom self ext hops v4Keys n j (← _runV4Segment ext hops v4Keys i j amount))

/-- What the calldata says of a V4 hop: the key that hashes to the quoted pool id, and its currencies. -/
structure V4Calldata (keyHash : KeyHash) (keccak : Keccak) (plan : Option SlotPlan) (v4Keys : List V4Key) (hop : Robinarb.Hop)
    (next : Address) (v4 : V4Meta) (entry : ArbExecutor.Hop) : Prop where
  kind : entry.kind = 3#8
  segment : DispatchesToSegment entry
  key : v4Keys[entry.feeBps.toNat]? = some ⟨v4.currency0, v4.currency1, v4.feePips, v4.tickSpacing⟩
  hashes : V4Meta.poolIdOf keyHash v4.currency0 v4.currency1 v4.feePips v4.tickSpacing = v4.poolId
  quoted : plan = some (.cl (v4Plan keccak v4.poolId))
  input : ∃ currency, normalized currency = hop.tokenIn ∧
    ∀ E : Type, (_v4InCurrency entry v4Keys : Exec E Address) = pure currency
  output : ∃ currency, normalized currency = next ∧
    ∀ E : Type, (_v4OutCurrency entry v4Keys : Exec E Address) = pure currency

/-- What the calldata says of a hop that hands on the token `next`. -/
structure HopCalldata (keyHash : KeyHash) (keccak : Keccak) (plan : Option SlotPlan) (v4Keys : List V4Key)
    (hop : Robinarb.Hop) (next : Address) (pool : PoolMeta) (entry : ArbExecutor.Hop) : Prop where
  zeroForOne : entry.zeroForOne = hop.zeroForOne
  address : pool.dex ≠ .uniV4 → entry.pool = pool.address
  constantProduct : pool.dex.isV2Family = true → DispatchesTo entry _swapV2
  stable : pool.dex = .aeroStable → DispatchesTo entry _swapAero
  concentrated : pool.dex.isV3Family = true ∨ pool.dex.isAlgebra = true → DispatchesTo entry _swapV3
  v4 : pool.dex = .uniV4 → ∃ v4, pool.v4 = some v4 ∧ V4Calldata keyHash keccak plan v4Keys hop next v4 entry

section Dispatch

variable {entry : ArbExecutor.Hop}

theorem dispatchesTo_swapV2 (h : entry.kind = 0#8) : DispatchesTo entry _swapV2 := by
  intro E self ext hops v4Keys n i amount hEntry
  rw [runHopsFrom, hEntry]
  simp only [h, if_true]

theorem dispatchesTo_swapAero (h : entry.kind = 1#8) : DispatchesTo entry _swapAero := by
  intro E self ext hops v4Keys n i amount hEntry
  rw [runHopsFrom, hEntry]
  simp only [h, if_true, if_neg (show ¬1#8 = 0#8 by decide)]

theorem dispatchesTo_swapV3 (h : entry.kind = 2#8 ∨ entry.kind = 4#8) : DispatchesTo entry _swapV3 := by
  intro E self ext hops v4Keys n i amount hEntry
  have hOthers : ¬entry.kind = 0#8 ∧ ¬entry.kind = 1#8 := by
    obtain h | h := h <;> rw [h] <;> decide
  rw [runHopsFrom, hEntry]
  simp only [if_neg hOthers.1, if_neg hOthers.2, if_pos h]

theorem dispatchesToSegment (h : entry.kind = 3#8) : DispatchesToSegment entry := by
  intro E self ext hops v4Keys n i amount hEntry
  rw [runHopsFrom, hEntry]
  simp only [h, if_neg (show ¬3#8 = 0#8 by decide), if_neg (show ¬3#8 = 1#8 by decide),
    if_neg (show ¬(3#8 = 2#8 ∨ 3#8 = 4#8) by decide)]

end Dispatch

section Hydrated

variable {F : Type} {keyHash : KeyHash} {b : Bootstrap F} {rpc : BootstrapRpc} {found : List DiscoveredPool}
  {regs : List (PoolRegistration F)} {engine : Engine}

theorem hydrated_v4 (hKeys : ∀ p ∈ found, p.dex = .uniV4 → ∃ key, p.FromKey keyHash key)
    (hHydrate : b.hydrate rpc found = some regs)
    (hEngine : Engine.new (regs.map PoolRegistration.pool) = some engine) {i : Nat} {pool : PoolMeta}
    (hPool : engine.metas[i]? = some pool) (hDex : pool.dex = .uniV4) :
    ∃ key : PoolKey, pool.token0 = normalized key.currency0 ∧ pool.token1 = key.currency1 ∧
      pool.token0 ≠ pool.token1 ∧
      pool.v4 = some ⟨V4Meta.poolIdOf keyHash key.currency0 key.currency1 key.fee key.tickSpacing, key.currency0,
        key.currency1, key.fee, key.tickSpacing⟩ := by
  have hMem := List.mem_of_getElem? hPool
  rw [(Engine.new_eq hEngine).1] at hMem
  obtain ⟨reg, hReg, rfl⟩ := List.mem_map.mp hMem
  obtain ⟨p, hp, hOf, hV4⟩ := Bootstrap.hydrate_of hHydrate hReg
  have hDiscovered : p.dex = .uniV4 := hOf.dex.symm.trans hDex
  obtain ⟨key, hKey⟩ := hKeys p hp hDiscovered
  obtain ⟨hToken0, hToken1, hne, hMeta⟩ := hKey.eq
  refine ⟨key, ?_, ?_, ?_, ?_⟩
  · rw [hOf.token0, hToken0]
    rfl
  · rw [hOf.token1, hToken1]
  · rw [hOf.token0, hOf.token1]
    exact hne
  · rw [hV4 hDiscovered, hMeta]

theorem v4KeyOf_eq {hop : Robinarb.Hop} {pool : PoolMeta} (hPool : engine.metas[hop.pool]? = some pool)
    (hDex : pool.dex = .uniV4) {id : B256} {key : PoolKey}
    (hV4 : pool.v4 = some ⟨id, key.currency0, key.currency1, key.fee, key.tickSpacing⟩) :
    v4KeyOf engine hop = some ⟨key.currency0, key.currency1, key.fee, key.tickSpacing⟩ := by
  rw [v4KeyOf, hPool, Option.bind_eq_bind, Option.bind_some, if_pos hDex, hV4, Option.bind_some, encodeKey,
    if_pos ⟨key.feeRange, key.spacingRange⟩]

theorem normalized_of_pos {currency : Address} (h : currency ≠ zeroAddress) : normalized currency = currency := if_neg h

theorem PoolKey.currency1_ne (key : PoolKey) : key.currency1 ≠ zeroAddress := by
  intro hNative
  have hOrdered := key.ordered
  rw [hNative, BitVec.lt_def] at hOrdered
  exact absurd hOrdered (Nat.not_lt_zero _)

theorem v4InCurrency_eq {entry : ArbExecutor.Hop} {v4Keys : List V4Key} {key : V4Key}
    (h : v4Keys[entry.feeBps.toNat]? = some key) (E : Type) :
    (_v4InCurrency entry v4Keys : Exec E Address) = pure (if entry.zeroForOne then key.currency0 else key.currency1) := by
  rw [_v4InCurrency, index, h]
  rfl

theorem v4OutCurrency_eq {entry : ArbExecutor.Hop} {v4Keys : List V4Key} {key : V4Key}
    (h : v4Keys[entry.feeBps.toNat]? = some key) (E : Type) :
    (_v4OutCurrency entry v4Keys : Exec E Address) = pure (if entry.zeroForOne then key.currency1 else key.currency0) := by
  rw [_v4OutCurrency, index, h]
  rfl

/-- One entry of the encoding, read with the registry it was encoded from. -/
theorem Encodes.calldata (hKeys : ∀ p ∈ found, p.dex = .uniV4 → ∃ key, p.FromKey keyHash key)
    (hHydrate : b.hydrate rpc found = some regs)
    (hEngine : Engine.new (regs.map PoolRegistration.pool) = some engine) {v4Keys : List V4Key} {hop : Robinarb.Hop}
    {entry : ArbExecutor.Hop} (hEncodes : Encodes engine v4Keys hop entry) {pool : PoolMeta}
    (hPool : engine.metas[hop.pool]? = some pool) {next : Address}
    (hSides : hop.zeroForOne = true ∧ hop.tokenIn = pool.token0 ∧ next = pool.token1 ∨
      hop.zeroForOne = false ∧ hop.tokenIn = pool.token1 ∧ next = pool.token0) (keccak : Keccak)
    (layouts : DexTag → Option SlotLayout) (feeWordTrusted : Address → U64 → Nat → Option Bool) :
    HopCalldata keyHash keccak (slotPlan keccak layouts feeWordTrusted pool) v4Keys hop next pool entry := by
  have hKind := hEncodes.kind pool hPool
  refine ⟨hEncodes.zeroForOne, hEncodes.address pool hPool, fun hDex => ?_, fun hDex => ?_, fun hDex => ?_, fun hDex => ?_⟩
  · apply dispatchesTo_swapV2
    rw [hKind]
    cases hTag : pool.dex <;> simp [hTag, DexTag.isV2Family] at hDex <;> rfl
  · apply dispatchesTo_swapAero
    rw [hKind, hDex]
    rfl
  · apply dispatchesTo_swapV3
    rw [hKind]
    cases hTag : pool.dex <;> simp [hTag, DexTag.isV3Family, DexTag.isAlgebra] at hDex <;> simp [hopKind]
  · have hThree : entry.kind = 3#8 := by rw [hKind, hDex]; rfl
    obtain ⟨key, hToken0, hToken1, -, hV4⟩ := hydrated_v4 hKeys hHydrate hEngine hPool hDex
    have hAt := hEncodes.key _ (v4KeyOf_eq hPool hDex hV4)
    have hSecond := normalized_of_pos key.currency1_ne
    refine ⟨_, hV4, hThree, dispatchesToSegment hThree, hAt, rfl, by rw [slotPlan, hV4],
      ⟨_, ?_, v4InCurrency_eq hAt⟩, ⟨_, ?_, v4OutCurrency_eq hAt⟩⟩
    · rw [hEncodes.zeroForOne]
      obtain ⟨hDir, hIn, -⟩ | ⟨hDir, hIn, -⟩ := hSides
      · rw [hDir, hIn, hToken0]
        rfl
      · rw [hDir, hIn, hToken1]
        exact hSecond
    · rw [hEncodes.zeroForOne]
      obtain ⟨hDir, -, hOut⟩ | ⟨hDir, -, hOut⟩ := hSides
      · rw [hDir, hOut, hToken1]
        exact hSecond
      · rw [hDir, hOut, hToken0]
        rfl

theorem hydrated_encodable (hKeys : ∀ p ∈ found, p.dex = .uniV4 → ∃ key, p.FromKey keyHash key)
    (hHydrate : b.hydrate rpc found = some regs)
    (hEngine : Engine.new (regs.map PoolRegistration.pool) = some engine) {hop : Robinarb.Hop} {pool : PoolMeta}
    (hPool : engine.metas[hop.pool]? = some pool) : Encodable engine hop := by
  refine ⟨pool, hPool, fun hDex => ?_⟩
  obtain ⟨key, -, -, -, hV4⟩ := hydrated_v4 hKeys hHydrate hEngine hPool hDex
  rw [v4KeyOf_eq hPool hDex hV4]
  rfl

def isV4Hop (engine : Engine) (hop : Robinarb.Hop) : Bool := (engine.metas[hop.pool]?).any fun pool => pool.dex.isV4

theorem v4KeyOf_isSome (hKeys : ∀ p ∈ found, p.dex = .uniV4 → ∃ key, p.FromKey keyHash key)
    (hHydrate : b.hydrate rpc found = some regs)
    (hEngine : Engine.new (regs.map PoolRegistration.pool) = some engine) (hop : Robinarb.Hop) :
    (v4KeyOf engine hop).isSome = isV4Hop engine hop := by
  cases hPool : engine.metas[hop.pool]? with
  | none => simp [v4KeyOf, isV4Hop, hPool]
  | some pool =>
    by_cases hDex : pool.dex = .uniV4
    · obtain ⟨key, -, -, -, hV4⟩ := hydrated_v4 hKeys hHydrate hEngine hPool hDex
      rw [v4KeyOf_eq hPool hDex hV4, isV4Hop, hPool, Option.any_some, hDex]
      rfl
    · have hNot : pool.dex.isV4 = false := by
        cases hTag : pool.dex <;> simp_all [DexTag.isV4]
      simp [v4KeyOf, isV4Hop, hPool, hDex, hNot]

/-- The calldata of a built route: an entry for every hop in its order, a key for every V4
hop, and each entry trades against the pool and between the tokens that were quoted. -/
theorem encode_executes_quoted_route {L : Type} [LinearOrder L]
    (hKeys : ∀ p ∈ found, p.dex = .uniV4 → ∃ key, p.FromKey keyHash key)
    (hHydrate : b.hydrate rpc found = some regs)
    (hEngine : Engine.new (regs.map PoolRegistration.pool) = some engine) {poolAddresses : List (Address × Nat)}
    (hOrder : poolAddresses.Perm engine.byAddress) {liq : Nat → L} {cfg : GraphConfig} {anchors : List Address}
    {routes : List Route} (hRoutes : buildRoutes engine liq poolAddresses cfg anchors = some routes) {id : Nat}
    {route : Route} (hRoute : routes[id]? = some route) (hLength : route.hops.length ≤ 65536) (keccak : Keccak)
    (layouts : DexTag → Option SlotLayout) (feeWordTrusted : Address → U64 → Nat → Option Bool)
    (amountIn ownBalance : U256) (forceFlashloan : Bool) :
    ∃ entries v4Keys useFlashloan,
      encode engine (RouteStore.build routes engine.metas.length) id amountIn ownBalance forceFlashloan =
        some (.executeArb entries v4Keys route.anchor amountIn 0#256 useFlashloan, useFlashloan) ∧
      entries.length = route.hops.length ∧ v4Keys.length = route.hops.countP (isV4Hop engine) ∧
      ∀ i hop, route.hops[i]? = some hop → ∃ pool entry, engine.metas[hop.pool]? = some pool ∧
        entries[i]? = some entry ∧
        HopCalldata keyHash keccak (buildSlotPlans keccak layouts feeWordTrusted engine)[hop.pool]?.join v4Keys hop
          ((route.hops[i + 1]?.map Hop.tokenIn).getD route.anchor) pool entry := by
  rw [← Bootstrap.hydrate_reindex hHydrate] at hEngine
  obtain ⟨adj, hValid, hCycles⟩ := buildRoutes_cycle hEngine hOrder hRoutes
  rw [Bootstrap.hydrate_reindex hHydrate] at hEngine
  obtain ⟨-, hCycle⟩ := hCycles route (List.mem_of_getElem? hRoute)
  have hEncodable : ∀ hop ∈ route.hops, Encodable engine hop := by
    intro hop hHop
    obtain ⟨pool, hPool, -⟩ := hCycle.trail.pools hValid hop hHop
    exact hydrated_encodable hKeys hHydrate hEngine hPool
  obtain ⟨entries, hEncode, hEntries⟩ := encodeHops_spec [] hEncodable (by simpa using hLength)
  rw [List.nil_append] at hEncode hEntries
  refine ⟨entries, route.hops.filterMap (v4KeyOf engine), forceFlashloan || decide (ownBalance < amountIn), ?_, hEntries.length_eq.symm,
    ?_, fun i hop hHop => ?_⟩
  · rw [encode, RouteStore.route, RouteStore.build, hRoute, Option.bind_eq_bind, Option.bind_some, hEncode]
    rfl
  · rw [List.length_filterMap_eq_countP]
    apply List.countP_congr
    intro hop _
    rw [v4KeyOf_isSome hKeys hHydrate hEngine]
  · obtain ⟨pool, hPool, hSides⟩ := (hCycle.trail.joins hHop).pool hValid
    obtain ⟨entry, hEntry, hEncodes⟩ := ListFilters.forall₂_getElem? hEntries hHop
    refine ⟨pool, entry, hPool, hEntry, ?_⟩
    rw [buildSlotPlans, List.getElem?_map, hPool, Option.map_some, Option.join_some]
    exact hEncodes.calldata hKeys hHydrate hEngine hPool hSides keccak layouts feeWordTrusted

end Hydrated

section Sample

open Bootstrap

/-- A pool of native ETH, and what its key hashes to. -/
def nativeKey : PoolKey :=
  ⟨0#160, 0xa66e4d253fa6b5e8b919c7d15a93598454a76dfb#160, 100#32, 1, 0#160, by decide, by decide, by decide⟩

def nativeKeyHash : KeyHash := fun _ => 0x8509d16ca1776b6d82a6ecaf1f4cc342736abaadfcb6146c48968940a1e8bb76#256

def nativePool : DiscoveredPool where
  address := V4Meta.syntheticAddress (nativeKey.id nativeKeyHash)
  dex := .uniV4
  factory := univ4PoolManager
  token0 := weth
  token1 := nativeKey.currency1
  feePips := some 100#32
  tickSpacing := some 1
  feeBps := none
  poolId := some (nativeKey.id nativeKeyHash)
  currency0Raw := some 0#160
  v4Complete := fun _ => ⟨rfl, rfl, rfl, rfl⟩

def wordBytes (n : Nat) : List U8 := (List.range 32).map fun i => BitVec.ofNat 8 (n >>> (8 * (31 - i)))

/-- The V4 pool is at price one, everything else answers one. -/
def nativeChain : BootstrapRpc where
  aggregate3 calls := calls.map fun call =>
    match call.calldata with
    | .getSlot0 _ => ⟨true, wordBytes (2 ^ 96) ++ wordBytes 0 ++ wordBytes 0 ++ wordBytes 100⟩
    | _ => ⟨true, wordBytes 1 ++ wordBytes 1 ++ wordBytes 1⟩
  probeToken _ _ _ := some false

/-- The native pool and a pair of the same tokens. -/
def nativeFound : List DiscoveredPool := [nativePool, sampleFound 7#160 weth nativeKey.currency1]

def nativeRegs : List (PoolRegistration Nat) := (sampleBootstrap.hydrate nativeChain nativeFound).getD []

def nativeEngine : Engine := (Engine.new (nativeRegs.map PoolRegistration.pool)).getD ⟨[], []⟩

def nativeRoutes : List Route :=
  (buildRoutes nativeEngine (fun idx => 10 - idx) nativeEngine.byAddress ⟨3, 100, 6⟩ [weth]).getD []

theorem eq_some_of_getD {α : Type} {x : Option α} {a other : α} (ha : a = x.getD other) (h : x.isSome) : x = some a := by
  obtain ⟨found, rfl⟩ := Option.isSome_iff_exists.mp h
  exact congrArg some ha.symm

/-- Out over the pair and back through the native pool: two entries and one key. -/
theorem nativeRoute_calldata : ∃ entries v4Keys useFlashloan,
    encode nativeEngine (RouteStore.build nativeRoutes nativeEngine.metas.length) 0 1000#256 0#256 false =
        some (.executeArb entries v4Keys weth 1000#256 0#256 useFlashloan, useFlashloan) ∧
      entries.length = 2 ∧ v4Keys.length = 1 := by
  have hKeys : ∀ p ∈ nativeFound, p.dex = .uniV4 → ∃ key, p.FromKey nativeKeyHash key := by
    rintro p (_ | ⟨_, _ | ⟨_, hNil⟩⟩) hDex
    · exact ⟨nativeKey, univ4PoolManager, rfl⟩
    · cases hDex
    · cases hNil
  have hHydrate : sampleBootstrap.hydrate nativeChain nativeFound = some nativeRegs :=
    eq_some_of_getD nativeRegs.eq_1 (by decide +kernel)
  have hEngine : Engine.new (nativeRegs.map PoolRegistration.pool) = some nativeEngine :=
    eq_some_of_getD nativeEngine.eq_1 (by decide +kernel)
  have hRoutes : buildRoutes nativeEngine (fun idx => 10 - idx) nativeEngine.byAddress ⟨3, 100, 6⟩ [weth] =
      some nativeRoutes := eq_some_of_getD nativeRoutes.eq_1 (by decide +kernel)
  have hRoute : nativeRoutes[0]? =
      some ⟨0, weth, [⟨0, true, weth⟩, ⟨1, false, nativeKey.currency1⟩]⟩ := by
    decide +kernel
  obtain ⟨entries, v4Keys, useFlashloan, hEncode, hEntries, hV4Keys, -⟩ :=
    encode_executes_quoted_route hKeys hHydrate hEngine (.refl _) hRoutes hRoute (by decide)
      (fun _ => 0x042747031e528d908de8f3b3b6c2470fbdec7d8bdfa60527341b60b81ef69442#256) (fun _ => none) (fun _ _ _ => none) 1000#256 0#256 false
  refine ⟨entries, v4Keys, useFlashloan, hEncode, hEntries, ?_⟩
  rw [hV4Keys]
  decide +kernel

end Sample

end Robinarb
