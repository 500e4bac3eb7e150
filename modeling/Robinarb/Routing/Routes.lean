import Robinarb.Routing.Enumeration

/-! # The routes of an engine

The enumeration over the capped graph of a bootstrapped registry: every route is a
cycle, none comes twice, and below the limit none is missing. The limit itself is
kept exactly when the cycle that reaches it leaves no closing edge behind.
-/

namespace Robinarb

open Overrun

variable {L : Type}

section Definitions

variable (adj : Adjacency L) (anchor : Address)

/-- The cycle that reaches the limit, if there is one, has no closing edge left
behind it at an intermediate token. -/
def FitsLimit (cfg : GraphConfig) : Prop :=
  cfg.maxRoutes = 0 ∨ ∀ hops, (cycles adj anchor cfg.maxHops)[cfg.maxRoutes - 1]? = some hops →
    ¬LateFrom adj anchor [] hops

/-- What the routes of one anchor should be. -/
structure RoutesCorrect (engine : Engine) (cfg : GraphConfig) (routes : List Route) : Prop where
  sound : ∀ route ∈ routes, route.anchor = anchor ∧ Cycle adj anchor cfg.maxHops route.hops ∧
    ∀ hop ∈ route.hops, ∃ pool, engine.metas[hop.pool]? = some pool ∧
      (hop.tokenIn = pool.token0 ∨ hop.tokenIn = pool.token1) ∧
      (hop.zeroForOne = true ↔ hop.tokenIn = pool.token0)
  limited : routes.length ≤ cfg.maxRoutes
  complete : routes.length < cfg.maxRoutes → ∀ hops, Cycle adj anchor cfg.maxHops hops →
    (routes.map Route.hops).count hops = 1

end Definitions

variable {adj : Adjacency L} {engine : Engine} {anchor : Address} {cfg : GraphConfig}

theorem anchorRoutes_limited (hValid : adj.Valid engine) (anchor : Address) (hPos : cfg.maxRoutes ≠ 0) :
    Limited (LateFrom adj anchor []) cfg.maxRoutes (cycles adj anchor cfg.maxHops)
        ((anchorRoutes adj cfg anchor).map Route.hops) ∧
      ∀ route ∈ anchorRoutes adj cfg anchor, route.anchor = anchor := by
  have hBalanced : Balanced anchor cfg.maxHops cfg.maxHops anchor ⟨[], [], [anchor], [], 0⟩ :=
    ⟨List.mem_singleton_self _, List.mem_singleton_self _, fun _ => rfl, Nat.zero_add _, rfl⟩
  obtain ⟨found, hFound, hLimited⟩ := dfs_limited hValid hBalanced (Nat.pos_of_ne_zero hPos)
  unfold anchorRoutes
  rw [hFound]
  refine ⟨?_, DfsState.emitAll_anchor _ _ _ nofun⟩
  rw [DfsState.emitAll_hops]
  simpa [cycles] using hLimited

theorem Trail.pools (hValid : adj.Valid engine) {hops : List Hop} {a b : Address} (h : Trail adj hops a b) :
    ∀ hop ∈ hops, ∃ pool, engine.metas[hop.pool]? = some pool ∧
      (hop.tokenIn = pool.token0 ∨ hop.tokenIn = pool.token1) ∧
      (hop.zeroForOne = true ↔ hop.tokenIn = pool.token0) := by
  induction hops generalizing a with
  | nil => exact nofun
  | cons first rest ih =>
    obtain ⟨_, next, ⟨edge, hEdge, hHop, hNext⟩, hRest⟩ := h
    intro hop hMem
    obtain rfl | hMem := List.mem_cons.mp hMem
    · obtain ⟨pool, hPool, hToken0, hToken1⟩ := hValid.pools _ edge hEdge
      have hIdx : edge.pool = hop.pool := congrArg Hop.pool hHop
      have hDir : decide (edge.token0 = hop.tokenIn) = hop.zeroForOne := congrArg Hop.zeroForOne hHop
      refine ⟨pool, hIdx ▸ hPool, ?_, ?_⟩
      · unfold Edge.nextToken at hNext
        split at hNext
        · rename_i hFirst
          exact .inl (hFirst.symm.trans hToken0)
        · split at hNext
          · rename_i hSecond
            exact .inr (hSecond.symm.trans hToken1)
          · cases hNext
      · rw [← hDir, decide_eq_true_eq, hToken0, eq_comm]
    · exact ih hRest hop hMem

/-- What a hop leads to is the input of the hop behind it, or the end of the trail. -/
theorem Trail.joins {hops : List Hop} {a b : Address} (h : Trail adj hops a b) {i : Nat} {hop : Hop}
    (hHop : hops[i]? = some hop) : Joins adj hop ((hops[i + 1]?.map Hop.tokenIn).getD b) := by
  induction hops generalizing a i with
  | nil => cases hHop
  | cons first rest ih =>
    obtain ⟨-, next, hJoins, hRest⟩ := h
    cases i with
    | zero =>
      obtain rfl := Option.some.inj hHop
      cases rest with
      | nil =>
        rw [show next = b from hRest] at hJoins
        exact hJoins
      | cons second rest =>
        rw [← hRest.tokenIn_eq] at hJoins
        exact hJoins
    | succ i => exact ih hRest hHop

theorem Joins.pool (hValid : adj.Valid engine) {hop : Hop} {next : Address} (h : Joins adj hop next) :
    ∃ pool, engine.metas[hop.pool]? = some pool ∧
      (hop.zeroForOne = true ∧ hop.tokenIn = pool.token0 ∧ next = pool.token1 ∨
        hop.zeroForOne = false ∧ hop.tokenIn = pool.token1 ∧ next = pool.token0) := by
  obtain ⟨edge, hEdge, hHop, hNext⟩ := h
  obtain ⟨pool, hPool, hToken0, hToken1⟩ := hValid.pools _ edge hEdge
  have hIdx : edge.pool = hop.pool := congrArg Hop.pool hHop
  have hDir : decide (edge.token0 = hop.tokenIn) = hop.zeroForOne := congrArg Hop.zeroForOne hHop
  refine ⟨pool, hIdx ▸ hPool, ?_⟩
  rw [← hDir, ← hToken0, ← hToken1]
  unfold Edge.nextToken at hNext
  split at hNext
  · rename_i hFirst
    exact .inl ⟨decide_eq_true hFirst, hFirst.symm, (Option.some.inj hNext).symm⟩
  · rename_i hFirst
    split at hNext
    · rename_i hSecond
      exact .inr ⟨decide_eq_false hFirst, hSecond.symm, (Option.some.inj hNext).symm⟩
    · cases hNext

/-- Whatever the limit, every route is a cycle of its anchor over registered pools. -/
theorem anchorRoutes_sound (hValid : adj.Valid engine) :
    ∀ route ∈ anchorRoutes adj cfg anchor, route.anchor = anchor ∧ Cycle adj anchor cfg.maxHops route.hops ∧
      ∀ hop ∈ route.hops, ∃ pool, engine.metas[hop.pool]? = some pool ∧
        (hop.tokenIn = pool.token0 ∨ hop.tokenIn = pool.token1) ∧
        (hop.zeroForOne = true ↔ hop.tokenIn = pool.token0) := by
  intro route hMem
  by_cases hZero : cfg.maxRoutes = 0
  · rw [anchorRoutes, dfs_full (by rw [hZero]; exact Nat.zero_le _)] at hMem
    cases hMem
  · obtain ⟨hLimited, hAnchor⟩ := anchorRoutes_limited hValid anchor hZero
    have hCycle := mem_cycles.mp (hLimited.sublist.subset (List.mem_map_of_mem hMem))
    exact ⟨hAnchor route hMem, hCycle, hCycle.trail.pools hValid⟩

/-- The routes of one anchor are correct exactly when the limit is kept. -/
theorem anchorRoutes_correct_iff (hValid : adj.Valid engine) :
    RoutesCorrect adj anchor engine cfg (anchorRoutes adj cfg anchor) ↔ FitsLimit adj anchor cfg := by
  by_cases hZero : cfg.maxRoutes = 0
  · have hNone : anchorRoutes adj cfg anchor = [] := by
      rw [anchorRoutes, dfs_full (by rw [hZero]; exact Nat.zero_le _)]
    refine iff_of_true ?_ (.inl hZero)
    rw [hNone]
    exact ⟨nofun, Nat.zero_le _, fun hBelow => absurd hBelow (by omega)⟩
  · obtain ⟨hLimited, -⟩ := anchorRoutes_limited hValid anchor hZero
    have hLength := hLimited.length_le_iff
    rw [List.length_map] at hLength
    rw [FitsLimit, or_iff_right hZero, ← hLength]
    refine ⟨fun h => h.limited, fun h => ⟨anchorRoutes_sound hValid, h, fun hBelow hops hCycle => ?_⟩⟩
    rw [hLimited.eq_of_lt (by simpa using hBelow)]
    exact List.count_eq_one_of_mem (cycles_nodup hValid _) (mem_cycles.mpr hCycle)

/-- `build_routes` over a bootstrapped registry, in any iteration order of its address
map: the routes of each anchor are sound, complete, free of duplicates and within
the limit if and only if the cycle that reaches the limit leaves no closing edge
behind it. -/
theorem buildRoutes_correct_iff [LinearOrder L] {registrations : List PoolMeta}
    (hEngine : Engine.new (Engine.reindex registrations) = some engine) (liq : Nat → L)
    {poolAddresses : List (Address × Nat)} (hOrder : poolAddresses.Perm engine.byAddress) (cfg : GraphConfig)
    (anchors : List Address) :
    ∃ adj, Adjacency.build engine liq poolAddresses = some adj ∧
      buildRoutes engine liq poolAddresses cfg anchors =
        some (renumber (anchors.flatMap (anchorRoutes (adj.capped cfg.pairFanout) cfg))) ∧
      ∀ anchor, RoutesCorrect (adj.capped cfg.pairFanout) anchor engine cfg
          (anchorRoutes (adj.capped cfg.pairFanout) cfg anchor) ↔
        FitsLimit (adj.capped cfg.pairFanout) anchor cfg := by
  obtain ⟨adj, hBuild, hValid⟩ := Adjacency.build_valid hEngine liq hOrder
  refine ⟨adj, hBuild, ?_, fun anchor => anchorRoutes_correct_iff (hValid.capped cfg.pairFanout)⟩
  rw [buildRoutes, hBuild]
  rfl

theorem buildRoutes_cycle [LinearOrder L] {registrations : List PoolMeta}
    (hEngine : Engine.new (Engine.reindex registrations) = some engine) {liq : Nat → L}
    {poolAddresses : List (Address × Nat)} (hOrder : poolAddresses.Perm engine.byAddress) {anchors : List Address}
    {routes : List Route} (hRoutes : buildRoutes engine liq poolAddresses cfg anchors = some routes) :
    ∃ adj : Adjacency L, adj.Valid engine ∧
      ∀ route ∈ routes, route.anchor ∈ anchors ∧ Cycle adj route.anchor cfg.maxHops route.hops := by
  obtain ⟨adj, hAdj, hValid⟩ := Adjacency.build_valid hEngine liq hOrder
  obtain ⟨adj', hAdj', hRenumber⟩ := Option.bind_eq_some_iff.mp hRoutes
  obtain rfl := Option.some.inj (hAdj.symm.trans hAdj')
  obtain rfl := Option.some.inj hRenumber
  refine ⟨adj.capped cfg.pairFanout, hValid.capped cfg.pairFanout, fun route hMem => ?_⟩
  obtain ⟨i, hi, rfl⟩ := List.mem_mapIdx.mp hMem
  obtain ⟨anchor, hAnchor, hSearch⟩ := List.mem_flatMap.mp (List.getElem_mem hi)
  obtain ⟨hOf, hCycle, -⟩ := anchorRoutes_sound (hValid.capped cfg.pairFanout) _ hSearch
  dsimp only
  rw [hOf]
  exact ⟨hAnchor, hCycle⟩

section Sample

def sampleEdge (address token0 token1 : Address) : PoolMeta where
  idx := 0
  address := address
  dex := .uniV2Fork
  token0 := token0
  token1 := token1
  dec0 := 18#8
  dec1 := 18#8
  feeBps := 30#32
  feePips := 0#32
  tickSpacing := 0
  v4 := none

/-- Token 1 is the anchor: a triangle 1-2-3 and a second pool 2-1. -/
def samplePools : List PoolMeta :=
  [sampleEdge 101#160 1#160 2#160, sampleEdge 102#160 2#160 3#160, sampleEdge 103#160 1#160 3#160,
    sampleEdge 104#160 1#160 2#160]

def sampleGraph : Engine where
  metas := Engine.reindex samplePools
  byAddress := [(101#160, 0), (102#160, 1), (103#160, 2), (104#160, 3)]

/-- The pools in order of falling liquidity. -/
def sampleLiq (idx : Nat) : Nat := 10 - idx

theorem sampleGraph_routes_correct_iff :
    ∃ adj, Adjacency.build sampleGraph sampleLiq sampleGraph.byAddress = some adj ∧
      buildRoutes sampleGraph sampleLiq sampleGraph.byAddress ⟨3, 100000, 6⟩ [1#160] =
        some (renumber ([1#160].flatMap (anchorRoutes (adj.capped 6) ⟨3, 100000, 6⟩))) ∧
      ∀ anchor, RoutesCorrect (adj.capped 6) anchor sampleGraph ⟨3, 100000, 6⟩
          (anchorRoutes (adj.capped 6) ⟨3, 100000, 6⟩ anchor) ↔
        FitsLimit (adj.capped 6) anchor ⟨3, 100000, 6⟩ :=
  buildRoutes_correct_iff (show Engine.new (Engine.reindex samplePools) = some sampleGraph from rfl) sampleLiq
    (.refl _) ⟨3, 100000, 6⟩ [1#160]

/-- With a limit of one the sample gets two routes: the triangle, and the way back
over the second pool that the search closes when it returns to token 2. -/
theorem buildRoutes_exceeds_limit : ¬∀ (registrations : List PoolMeta) (engine : Engine) (liq : Nat → Nat)
    (cfg : GraphConfig) (anchor : Address), Engine.new (Engine.reindex registrations) = some engine →
    ∃ adj, Adjacency.build engine liq engine.byAddress = some adj ∧
      RoutesCorrect (adj.capped cfg.pairFanout) anchor engine cfg
        (anchorRoutes (adj.capped cfg.pairFanout) cfg anchor) := by
  intro h
  obtain ⟨adj, hBuild, hCorrect⟩ := h samplePools sampleGraph sampleLiq ⟨3, 1, 6⟩ 1#160 rfl
  have hTwo : (Adjacency.build sampleGraph sampleLiq sampleGraph.byAddress).map
      (fun adj => (anchorRoutes (adj.capped 6) ⟨3, 1, 6⟩ 1#160).length) = some 2 := by
    decide +kernel
  rw [hBuild, Option.map_some, Option.some.injEq] at hTwo
  have hLimit := hCorrect.limited
  rw [hTwo] at hLimit
  exact absurd hLimit (by decide)

end Sample

end Robinarb
