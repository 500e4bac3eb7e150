import Robinarb.Library.AdjacentDedup
import Robinarb.Routing.Routes
import Robinarb.Routing.Store

/-! # Candidate selection

From the changed pools of a batch to the routes the evaluator prices: the reverse
index with ids as wide as the code stores them, the sorted and deduplicated
candidate list, and the lookups made for each candidate.
-/

namespace Robinarb

structure AnchorConfig where
  token : Address
  decimals : U8

/-- One entry of the evaluator's map; it replaces an earlier one of its token. -/
def insertAnchor (byToken : Address → Option AnchorConfig) (anchor : AnchorConfig) : Address → Option AnchorConfig :=
  Function.update byToken anchor.token (some anchor)

def anchorByToken (anchors : List AnchorConfig) : Address → Option AnchorConfig :=
  anchors.foldl insertAnchor fun _ => none

/-- `build_routes` with the ids in 32 bits. -/
def numberedRoutes {L : Type} [LinearOrder L] (engine : Engine) (liq : Nat → L) (poolAddresses : List (Address × Nat))
    (cfg : GraphConfig) (anchors : List AnchorConfig) : Option (List Route) :=
  (buildRoutes engine liq poolAddresses cfg (anchors.map AnchorConfig.token)).map fun routes =>
    routes.map fun route => { route with id := route.id % 2 ^ 32 }

namespace RouteStore

/-- The candidate routes of a batch. The pools come in the order of a hash set. -/
def candidateIds (store : RouteStore) (pools : List Nat) : List Nat :=
  ((pools.flatMap store.routesForPool).insertionSort (· ≤ ·)).destutter (· ≠ ·)

section Index

variable {routes : List Route} {poolCount pool : Nat}

theorem indexHop_getD {id : Nat} {hop : Hop} {byPool : List (List Nat)} (hPool : pool < byPool.length) :
    (indexHop id byPool hop)[pool]?.getD [] = byPool[pool]?.getD [] ++ if hop.pool = pool then [id] else [] := by
  rw [indexHop, List.getElem?_modify, List.getElem?_eq_getElem hPool]
  by_cases hHere : hop.pool = pool
  · simp [hHere]
  · simp [hHere]

theorem indexHops_getD {id : Nat} {hops : List Hop} (hNodup : (hops.map Hop.pool).Nodup) {byPool : List (List Nat)}
    (hPool : pool < byPool.length) :
    (hops.foldl (indexHop id) byPool)[pool]?.getD [] =
      byPool[pool]?.getD [] ++ if pool ∈ hops.map Hop.pool then [id] else [] := by
  induction hops generalizing byPool with
  | nil => simp
  | cons hop rest ih =>
    rw [List.map_cons, List.nodup_cons] at hNodup
    obtain ⟨hNot, hRest⟩ := hNodup
    have hLength : pool < (indexHop id byPool hop).length := by
      rwa [indexHop, List.length_modify]
    rw [List.foldl_cons, ih hRest hLength, indexHop_getD hPool, List.append_assoc]
    by_cases hHere : hop.pool = pool
    · rw [if_pos hHere, if_neg (hHere ▸ hNot)]
      simp [hHere]
    · rw [if_neg hHere]
      simp [Ne.symm hHere]

/-- The entry of a pool, as a list: the ids of the routes through it, in their order. -/
theorem routesForPool_eq (hNodup : ∀ route ∈ routes, (route.hops.map Hop.pool).Nodup) (hPool : pool < poolCount) :
    (build routes poolCount).routesForPool pool =
      (routes.filter fun route => pool ∈ route.hops.map Hop.pool).map Route.id := by
  have hIndex : ∀ byPool : List (List Nat), pool < byPool.length →
      (routes.foldl (fun byPool route => route.hops.foldl (indexHop route.id) byPool) byPool)[pool]?.getD [] =
        byPool[pool]?.getD [] ++ (routes.filter fun route => pool ∈ route.hops.map Hop.pool).map Route.id := by
    induction routes with
    | nil => exact fun _ _ => (List.append_nil _).symm
    | cons route rest ih =>
      intro byPool hLt
      have hLength : pool < (route.hops.foldl (indexHop route.id) byPool).length := by
        rwa [length_indexHops]
      rw [List.foldl_cons, ih (fun other hMem => hNodup other (List.mem_cons_of_mem _ hMem)) _ hLength,
        indexHops_getD (hNodup route List.mem_cons_self) hLt, List.append_assoc, List.filter_cons]
      congr 1
      by_cases hUses : pool ∈ route.hops.map Hop.pool
      · rw [if_pos hUses, if_pos (decide_eq_true hUses), List.map_cons, List.singleton_append]
      · rw [if_neg hUses, if_neg (by rwa [decide_eq_true_eq]), List.nil_append]
  rw [routesForPool, build, hIndex _ (by rwa [List.length_replicate]), List.getElem?_replicate, if_pos hPool]
  rfl

theorem routesForPool_pairwise (hNodup : ∀ route ∈ routes, (route.hops.map Hop.pool).Nodup)
    (hIds : routes.map Route.id = List.range routes.length) :
    ((build routes poolCount).routesForPool pool).Pairwise (· < ·) := by
  by_cases hPool : pool < poolCount
  · rw [routesForPool_eq hNodup hPool]
    apply List.Pairwise.sublist (List.filter_sublist.map Route.id)
    rw [hIds]
    exact List.pairwise_lt_range
  · have hEmpty : (build routes poolCount).routesForPool pool = [] := by
      apply List.eq_nil_iff_forall_not_mem.mpr
      exact fun id hMem => hPool (mem_routesForPool.mp hMem).1
    rw [hEmpty]
    exact List.Pairwise.nil

end Index

theorem mem_candidateIds {store : RouteStore} {pools : List Nat} {id : Nat} :
    id ∈ store.candidateIds pools ↔ ∃ pool ∈ pools, id ∈ store.routesForPool pool := by
  rw [candidateIds, AdjacentDedup.mem_destutter_ne, List.mem_insertionSort, List.mem_flatMap]

theorem candidateIds_pairwise (store : RouteStore) (pools : List Nat) :
    (store.candidateIds pools).Pairwise (· < ·) := by
  apply AdjacentDedup.pairwise_destutter_ne
  exact List.pairwise_insertionSort (· ≤ ·) _

end RouteStore

theorem insertAnchors_isSome {anchors : List AnchorConfig} {byToken : Address → Option AnchorConfig} {token : Address}
    (hKnown : token ∈ anchors.map AnchorConfig.token ∨ ∃ anchor, byToken token = some anchor ∧ anchor.token = token) :
    ∃ anchor, anchors.foldl insertAnchor byToken token = some anchor ∧
      (anchor ∈ anchors ∨ byToken token = some anchor) ∧ anchor.token = token := by
  induction anchors generalizing byToken with
  | nil =>
    obtain ⟨anchor, hFound, hToken⟩ := hKnown.resolve_left List.not_mem_nil
    exact ⟨anchor, hFound, .inr hFound, hToken⟩
  | cons first rest ih =>
    rw [List.foldl_cons]
    by_cases hFirst : first.token = token
    · subst hFirst
      have hHere : insertAnchor byToken first first.token = some first := Function.update_self ..
      obtain ⟨anchor, hFound, hFrom, hToken⟩ := @ih (insertAnchor byToken first) (.inr ⟨first, hHere, rfl⟩)
      refine ⟨anchor, hFound, .inl ?_, hToken⟩
      obtain hRest | hFirst := hFrom
      · exact List.mem_cons_of_mem first hRest
      · rw [← Option.some.inj (hHere.symm.trans hFirst)]
        exact List.mem_cons_self
    · have hSame : insertAnchor byToken first token = byToken token := Function.update_of_ne (Ne.symm hFirst) ..
      rw [List.map_cons, List.mem_cons, or_iff_right (Ne.symm hFirst), ← hSame] at hKnown
      obtain ⟨anchor, hFound, hFrom, hToken⟩ := ih hKnown
      rw [hSame] at hFrom
      exact ⟨anchor, hFound, hFrom.imp_left (List.mem_cons_of_mem first), hToken⟩

theorem anchorByToken_isSome {anchors : List AnchorConfig} {token : Address}
    (hMem : token ∈ anchors.map AnchorConfig.token) : ∃ anchor, anchorByToken anchors token = some anchor ∧
      anchor ∈ anchors ∧ anchor.token = token := by
  obtain ⟨anchor, hFound, hFrom, hToken⟩ := insertAnchors_isSome (.inl hMem)
  exact ⟨anchor, hFound, hFrom.resolve_right nofun, hToken⟩

/-- What the search hands to the store. -/
structure RouteTable (engine : Engine) (anchors : List AnchorConfig) (routes : List Route) : Prop where
  ids : routes.map Route.id = List.range routes.length
  anchored : ∀ route ∈ routes, route.anchor ∈ anchors.map AnchorConfig.token
  distinct : ∀ route ∈ routes, (route.hops.map Hop.pool).Nodup
  registered : ∀ route ∈ routes, ∀ hop ∈ route.hops, ∃ pool, engine.metas[hop.pool]? = some pool

section Search

variable {L : Type} [LinearOrder L] {engine : Engine} {routes : List Route} {liq : Nat → L}
  {poolAddresses : List (Address × Nat)} {cfg : GraphConfig} {anchors : List AnchorConfig}

theorem renumber_ids (routes : List Route) : (renumber routes).map Route.id = List.range (renumber routes).length := by
  apply List.ext_getElem
  · simp
  · intro i hi _
    simp [renumber]

theorem numberedRoutes_eq (h : numberedRoutes engine liq poolAddresses cfg anchors = some routes)
    (hCount : routes.length < 2 ^ 32) :
    buildRoutes engine liq poolAddresses cfg (anchors.map AnchorConfig.token) = some routes := by
  obtain ⟨wide, hWide, rfl⟩ := Option.map_eq_some_iff.mp h
  rw [List.length_map] at hCount
  rw [hWide, Option.some.injEq]
  obtain ⟨adj, -, hRenumber⟩ := Option.bind_eq_some_iff.mp hWide
  have hIds : wide.map Route.id = List.range wide.length := by
    rw [← Option.some.inj hRenumber]
    exact renumber_ids _
  have hSame : ∀ route ∈ wide, { route with id := route.id % 2 ^ 32 } = route := by
    intro route hMem
    have hId : route.id ∈ wide.map Route.id := List.mem_map_of_mem hMem
    rw [hIds, List.mem_range] at hId
    rw [Nat.mod_eq_of_lt (hId.trans hCount)]
  rw [List.map_congr_left hSame, List.map_id']

theorem numberedRoutes_table {registrations : List PoolMeta}
    (hEngine : Engine.new (Engine.reindex registrations) = some engine)
    (hOrder : poolAddresses.Perm engine.byAddress)
    (hRoutes : numberedRoutes engine liq poolAddresses cfg anchors = some routes) (hCount : routes.length < 2 ^ 32) :
    RouteTable engine anchors routes := by
  have hBuilt := numberedRoutes_eq hRoutes hCount
  obtain ⟨adj, hValid, hSound⟩ := buildRoutes_cycle hEngine hOrder hBuilt
  constructor
  · obtain ⟨_, -, hRenumber⟩ := Option.bind_eq_some_iff.mp hBuilt
    obtain rfl := Option.some.inj hRenumber
    exact renumber_ids _
  · exact fun route hMem => (hSound route hMem).1
  · exact fun route hMem => (hSound route hMem).2.pools
  · intro route hMem hop hHop
    obtain ⟨pool, hPool, -⟩ := (hSound route hMem).2.trail.pools hValid hop hHop
    exact ⟨pool, hPool⟩

end Search

namespace RouteTable

variable {engine : Engine} {anchors : List AnchorConfig} {routes : List Route}

theorem id_eq (h : RouteTable engine anchors routes) {id : Nat} {route : Route} (hRoute : routes[id]? = some route) :
    route.id = id := by
  obtain ⟨hLt, rfl⟩ := List.getElem?_eq_some_iff.mp hRoute
  have hId : (routes.map Route.id)[id]? = (List.range routes.length)[id]? := by rw [h.ids]
  rw [List.getElem?_map, List.getElem?_eq_getElem hLt, List.getElem?_range hLt] at hId
  exact Option.some.inj hId

theorem mem_routesForPool (h : RouteTable engine anchors routes) {pool id : Nat} :
    id ∈ (RouteStore.build routes engine.metas.length).routesForPool pool ↔
      ∃ route, routes[id]? = some route ∧ ∃ hop ∈ route.hops, hop.pool = pool := by
  rw [RouteStore.mem_routesForPool]
  constructor
  · rintro ⟨-, route, hMem, rfl, hHop⟩
    obtain ⟨i, hi⟩ := List.mem_iff_getElem?.mp hMem
    refine ⟨route, ?_, hHop⟩
    rw [h.id_eq hi, hi]
  · rintro ⟨route, hRoute, hop, hHop, rfl⟩
    have hMem := List.mem_of_getElem? hRoute
    obtain ⟨pool, hPool⟩ := h.registered route hMem hop hHop
    exact ⟨(List.getElem?_eq_some_iff.mp hPool).1, route, hMem, h.id_eq hRoute, hop, hHop, rfl⟩

theorem mem_candidateIds (h : RouteTable engine anchors routes) {pools : List Nat} {id : Nat} :
    id ∈ (RouteStore.build routes engine.metas.length).candidateIds pools ↔
      ∃ route, routes[id]? = some route ∧ ∃ hop ∈ route.hops, hop.pool ∈ pools := by
  rw [RouteStore.mem_candidateIds]
  constructor
  · rintro ⟨pool, hPool, hMem⟩
    obtain ⟨route, hRoute, hop, hHop, rfl⟩ := h.mem_routesForPool.mp hMem
    exact ⟨route, hRoute, hop, hHop, hPool⟩
  · rintro ⟨route, hRoute, hop, hHop, hPool⟩
    exact ⟨hop.pool, hPool, h.mem_routesForPool.mpr ⟨route, hRoute, hop, hHop, rfl⟩⟩

theorem lookups (h : RouteTable engine anchors routes) {route : Route} (hMem : route ∈ routes) :
    (∃ anchor ∈ anchors, anchorByToken anchors route.anchor = some anchor ∧ anchor.token = route.anchor) ∧
      ∀ hop ∈ route.hops, ∃ pool, engine.metas[hop.pool]? = some pool := by
  obtain ⟨anchor, hFound, hConfigured, hToken⟩ := anchorByToken_isSome (h.anchored route hMem)
  exact ⟨⟨anchor, hConfigured, hFound, hToken⟩, h.registered route hMem⟩

end RouteTable

/-- What the evaluator relies on, for any anchors and any iteration order of the
address map. -/
theorem routeStore_exact {L : Type} [LinearOrder L] {registrations : List PoolMeta} {engine : Engine}
    (hEngine : Engine.new (Engine.reindex registrations) = some engine) (liq : Nat → L)
    {poolAddresses : List (Address × Nat)} (hOrder : poolAddresses.Perm engine.byAddress) (cfg : GraphConfig)
    (anchors : List AnchorConfig) {routes : List Route}
    (hRoutes : numberedRoutes engine liq poolAddresses cfg anchors = some routes) (hCount : routes.length < 2 ^ 32)
    {store : RouteStore} (hStore : store = RouteStore.build routes engine.metas.length) :
    (∀ id < routes.length, ∃ route, store.route id = some route ∧ route.id = id) ∧
    (∀ pool, (store.routesForPool pool).Pairwise (· < ·) ∧ ∀ id, id ∈ store.routesForPool pool ↔
      ∃ route, store.route id = some route ∧ ∃ hop ∈ route.hops, hop.pool = pool) ∧
    ∀ pools, (store.candidateIds pools).Pairwise (· < ·) ∧
      (∀ id, id ∈ store.candidateIds pools ↔
        ∃ route, store.route id = some route ∧ ∃ hop ∈ route.hops, hop.pool ∈ pools) ∧
      ∀ id ∈ store.candidateIds pools, ∃ route, store.route id = some route ∧
        (∃ anchor ∈ anchors, anchorByToken anchors route.anchor = some anchor ∧ anchor.token = route.anchor) ∧
        ∀ hop ∈ route.hops, ∃ pool, engine.metas[hop.pool]? = some pool := by
  have hTable := numberedRoutes_table hEngine hOrder hRoutes hCount
  subst hStore
  refine ⟨?_, ?_, ?_⟩
  · intro id hId
    have hRoute := List.getElem?_eq_getElem hId
    exact ⟨routes[id], hRoute, hTable.id_eq hRoute⟩
  · intro pool
    exact ⟨RouteStore.routesForPool_pairwise hTable.distinct hTable.ids, fun id => hTable.mem_routesForPool⟩
  · intro pools
    refine ⟨RouteStore.candidateIds_pairwise _ pools, fun id => hTable.mem_candidateIds, ?_⟩
    intro id hMem
    obtain ⟨route, hRoute, -⟩ := hTable.mem_candidateIds.mp hMem
    exact ⟨route, hRoute, hTable.lookups (List.mem_of_getElem? hRoute)⟩

section Sample

/-- Two anchors of the sample graph, 1 and 3. -/
def sampleAnchors : List AnchorConfig := [⟨1#160, 18#8⟩, ⟨3#160, 6#8⟩]

def sampleRoutes : List Route :=
  (numberedRoutes sampleGraph sampleLiq sampleGraph.byAddress ⟨3, 100000, 6⟩ sampleAnchors).getD []

example : sampleRoutes.map Route.id = List.range 10 := by decide +kernel

theorem sampleRoutes_exact :
    (∀ pool, ((RouteStore.build sampleRoutes 4).routesForPool pool).Pairwise (· < ·)) ∧
      ∀ id, id ∈ (RouteStore.build sampleRoutes 4).candidateIds [3, 0] ↔
        ∃ route, sampleRoutes[id]? = some route ∧ ∃ hop ∈ route.hops, hop.pool ∈ [3, 0] := by
  have hRoutes : numberedRoutes sampleGraph sampleLiq sampleGraph.byAddress ⟨3, 100000, 6⟩ sampleAnchors =
      some sampleRoutes := by
    decide +kernel
  obtain ⟨-, hPools, hCandidates⟩ := routeStore_exact
    (show Engine.new (Engine.reindex samplePools) = some sampleGraph from rfl) sampleLiq (.refl _) ⟨3, 100000, 6⟩
    sampleAnchors hRoutes (by decide +kernel) rfl
  exact ⟨fun pool => (hPools pool).1, (hCandidates [3, 0]).2.1⟩

end Sample

end Robinarb
