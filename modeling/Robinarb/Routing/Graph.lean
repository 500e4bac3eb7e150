import Robinarb.Engine.Engine
import Mathlib.Data.List.Sort

/-! # The token graph and its cycle enumeration

`build_routes`: adjacency lists with a fan-out cap, and one depth-first search for
each anchor over three stacks that the recursion shares. The liquidity proxy is a
floating-point ranking, so it is a parameter with values in a linear order; the
iteration order of the address map is a parameter too.
-/

namespace Robinarb

/-- One swap leg: which pool, and the input-token side. -/
structure Hop where
  pool : Nat
  zeroForOne : Bool
  tokenIn : Address
  deriving DecidableEq

structure Route where
  id : Nat
  anchor : Address
  hops : List Hop
  deriving DecidableEq

structure Edge (L : Type) where
  pool : Nat
  token0 : Address
  token1 : Address
  liq : L

structure GraphConfig where
  maxHops : Nat
  maxRoutes : Nat
  pairFanout : Nat

/-- Token to edges; `none` is a token without an entry. -/
abbrev Adjacency (L : Type) := Address → Option (List (Edge L))

namespace Adjacency

variable {L : Type}

def edgesAt (adj : Adjacency L) (token : Address) : List (Edge L) := (adj token).getD []

/-- `entry(token).or_default().push(edge)`. -/
def push (adj : Adjacency L) (token : Address) (edge : Edge L) : Adjacency L :=
  fun other => if other = token then some (adj.edgesAt token ++ [edge]) else adj other

/-- One pool of the address map; `none` is an index panic. -/
def addPool (engine : Engine) (liq : Nat → L) (adj : Adjacency L) (idx : Nat) : Option (Adjacency L) := do
  let pool ← engine.metas[idx]?
  let edge : Edge L := ⟨idx, pool.token0, pool.token1, liq idx⟩
  return (adj.push pool.token0 edge).push pool.token1 edge

def build (engine : Engine) (liq : Nat → L) (poolAddresses : List (Address × Nat)) : Option (Adjacency L) :=
  poolAddresses.foldlM (fun adj entry => addPool engine liq adj entry.2) fun _ => none

/-- `cfg.pair_fanout * 8`, a product of machine words that wraps. -/
def edgeCap (pairFanout : Nat) : Nat := pairFanout * 8 % 2 ^ 64

/-- The fan-out cap: stable sort by liquidity, largest first, then a cut. -/
def capEdges [LinearOrder L] (pairFanout : Nat) (edges : List (Edge L)) : List (Edge L) :=
  (edges.insertionSort fun a b => b.liq ≤ a.liq).take (edgeCap pairFanout)

def capped [LinearOrder L] (adj : Adjacency L) (pairFanout : Nat) : Adjacency L :=
  fun token => (adj token).map (capEdges pairFanout)

end Adjacency

namespace Edge

variable {L : Type}

def nextToken (edge : Edge L) (current : Address) : Option Address :=
  if edge.token0 = current then some edge.token1
  else if edge.token1 = current then some edge.token0
  else none

def hop (edge : Edge L) (current : Address) : Hop := ⟨edge.pool, decide (edge.token0 = current), current⟩

end Edge

/-- The variables `dfs` shares across its recursion. Stacks grow at the end. -/
structure DfsState where
  path : List Hop
  usedPools : List Nat
  visitedTokens : List Address
  routes : List Route
  nextId : Nat

namespace DfsState

def push (s : DfsState) (hop : Hop) (token : Address) : DfsState :=
  { s with
    path := s.path ++ [hop]
    usedPools := s.usedPools ++ [hop.pool]
    visitedTokens := s.visitedTokens ++ [token] }

def pop (s : DfsState) : DfsState :=
  { s with
    path := s.path.dropLast
    usedPools := s.usedPools.dropLast
    visitedTokens := s.visitedTokens.dropLast }

/-- A closing hop: onto the path, the path into a route, and off again. -/
def close (s : DfsState) (start : Address) (hop : Hop) : DfsState :=
  let path := s.path ++ [hop]
  { s with
    path := path.dropLast
    routes := s.routes ++ [⟨s.nextId, start, path⟩]
    nextId := s.nextId + 1 }

end DfsState

section Search

variable {L : Type} (adj : Adjacency L) (start : Address) (maxHops maxRoutes : Nat)

/-- The loop over the edges of a node, with the recursive call as a parameter. A
state that is returned without a further turn is an early return. -/
def edgeLoop (recurse : Address → DfsState → DfsState) (current : Address) (depth : Nat) :
    List (Edge L) → DfsState → DfsState
  | [], s => s
  | edge :: rest, s =>
    if edge.pool ∈ s.usedPools then
      edgeLoop recurse current depth rest s
    else
      match edge.nextToken current with
      | none => edgeLoop recurse current depth rest s
      | some nextToken =>
        if nextToken = start then
          if 2 ≤ depth + 1 then
            let closed := s.close start (edge.hop current)
            if maxRoutes ≤ closed.routes.length then closed else edgeLoop recurse current depth rest closed
          else
            edgeLoop recurse current depth rest s
        else if nextToken ∈ s.visitedTokens then
          edgeLoop recurse current depth rest s
        else
          edgeLoop recurse current depth rest (recurse nextToken (s.push (edge.hop current) nextToken)).pop

/-- `dfs`. The first argument is the number of hops the path may still grow by, so
at zero the depth limit returns. -/
def dfs : Nat → Address → DfsState → DfsState
  | 0, _, s => s
  | n + 1, current, s =>
    if maxRoutes ≤ s.routes.length then s
    else if maxHops ≤ s.path.length then s
    else
      match adj current with
      | none => s
      | some edges => edgeLoop start maxRoutes (dfs n) current s.path.length edges s

/-- The search of one anchor, from the empty path. -/
def anchorRoutes (cfg : GraphConfig) (anchor : Address) : List Route :=
  (dfs adj anchor cfg.maxHops cfg.maxRoutes cfg.maxHops anchor ⟨[], [], [anchor], [], 0⟩).routes

end Search

/-- One flat id space across all anchors. -/
def renumber (routes : List Route) : List Route := routes.mapIdx fun i route => { route with id := i }

def buildRoutes {L : Type} [LinearOrder L] (engine : Engine) (liq : Nat → L) (poolAddresses : List (Address × Nat))
    (cfg : GraphConfig) (anchors : List Address) : Option (List Route) := do
  let adj ← Adjacency.build engine liq poolAddresses
  return renumber (anchors.flatMap (anchorRoutes (adj.capped cfg.pairFanout) cfg))

/-- What every adjacency list of the graph keeps: its edges are pools with their own
tokens, one of them the list's, and no pool is listed twice but a self-loop. -/
structure Adjacency.Valid {L : Type} (engine : Engine) (adj : Adjacency L) : Prop where
  pools : ∀ token, ∀ edge ∈ adj.edgesAt token, ∃ pool, engine.metas[edge.pool]? = some pool ∧
    edge.token0 = pool.token0 ∧ edge.token1 = pool.token1
  distinct : ∀ token, (adj.edgesAt token).Pairwise fun e f =>
    e.pool = f.pool → e.token0 = e.token1 ∧ f.token0 = f.token1

section Valid

variable {L : Type} {engine : Engine} {liq : Nat → L} {adj : Adjacency L}

theorem Adjacency.edgesAt_push (adj : Adjacency L) (token other : Address) (edge : Edge L) :
    (adj.push token edge).edgesAt other = adj.edgesAt other ++ if other = token then [edge] else [] := by
  by_cases hToken : other = token
  · simp [edgesAt, push, hToken]
  · simp [edgesAt, push, hToken]

theorem Adjacency.Valid.addPool (h : adj.Valid engine) (liq : Nat → L) {idx : Nat} {pool : PoolMeta}
    (hPool : engine.metas[idx]? = some pool) (hFresh : ∀ token, ∀ edge ∈ adj.edgesAt token, edge.pool ≠ idx) :
    ∃ next, Adjacency.addPool engine liq adj idx = some next ∧ next.Valid engine ∧
      ∀ token, ∀ edge ∈ next.edgesAt token, edge ∈ adj.edgesAt token ∨ edge.pool = idx := by
  refine ⟨_, by rw [Adjacency.addPool, hPool]; rfl, ⟨?_, ?_⟩, ?_⟩
  · intro token edge hMem
    simp only [edgesAt_push, List.mem_append] at hMem
    obtain (hMem | hMem) | hMem := hMem
    · exact h.pools token edge hMem
    · obtain ⟨_, rfl⟩ : _ ∧ edge = _ := by simpa using hMem
      exact ⟨pool, hPool, rfl, rfl⟩
    · obtain ⟨_, rfl⟩ : _ ∧ edge = _ := by simpa using hMem
      exact ⟨pool, hPool, rfl, rfl⟩
  · intro token
    simp only [edgesAt_push, List.append_assoc]
    refine List.pairwise_append.mpr ⟨h.distinct token, ?_, ?_⟩
    · rcases eq_or_ne token pool.token0 with hFirst | hFirst <;>
        obtain hSecond | hSecond := eq_or_ne token pool.token1
      · simp [if_pos hSecond, hFirst.symm.trans hSecond]
      · simp [if_pos hFirst, if_neg hSecond]
      · simp [if_neg hFirst, if_pos hSecond]
      · simp [if_neg hFirst, if_neg hSecond]
    · intro e he f hf hEq
      refine absurd ?_ (hFresh token e he)
      rw [hEq]
      obtain hf | hf := List.mem_append.mp hf
      · obtain ⟨_, rfl⟩ : _ ∧ f = _ := by simpa using hf
        rfl
      · obtain ⟨_, rfl⟩ : _ ∧ f = _ := by simpa using hf
        rfl
  · intro token edge hMem
    simp only [edgesAt_push, List.mem_append] at hMem
    obtain (hMem | hMem) | hMem := hMem
    · exact .inl hMem
    · obtain ⟨_, rfl⟩ : _ ∧ edge = _ := by simpa using hMem
      exact .inr rfl
    · obtain ⟨_, rfl⟩ : _ ∧ edge = _ := by simpa using hMem
      exact .inr rfl

theorem Adjacency.Valid.foldlM {entries : List (Address × Nat)} (h : adj.Valid engine)
    (hRange : ∀ entry ∈ entries, entry.2 < engine.metas.length) (hNodup : (entries.map Prod.snd).Nodup)
    (hFresh : ∀ token, ∀ edge ∈ adj.edgesAt token, edge.pool ∉ entries.map Prod.snd) :
    ∃ final, entries.foldlM (fun adj entry => Adjacency.addPool engine liq adj entry.2) adj = some final ∧
      final.Valid engine := by
  induction entries generalizing adj with
  | nil => exact ⟨adj, rfl, h⟩
  | cons entry rest ih =>
    rw [List.map_cons] at hNodup hFresh
    obtain ⟨hNot, hRest⟩ := List.nodup_cons.mp hNodup
    have hPool := List.getElem?_eq_getElem (hRange entry List.mem_cons_self)
    obtain ⟨next, hNext, hValid, hMem⟩ := h.addPool liq hPool
      fun token edge hEdge hEq => hFresh token edge hEdge (hEq ▸ List.mem_cons_self)
    obtain ⟨final, hFinal, hDone⟩ := ih hValid (fun e he => hRange e (List.mem_cons_of_mem _ he)) hRest (by
      intro token edge hEdge
      obtain hOld | hNew := hMem token edge hEdge
      · exact fun hIn => hFresh token edge hOld (List.mem_cons_of_mem _ hIn)
      · rwa [hNew])
    refine ⟨final, ?_, hDone⟩
    rw [List.foldlM_cons, hNext]
    exact hFinal

/-- The graph of a bootstrapped registry, in any order of its address map. -/
theorem Adjacency.build_valid {registrations : List PoolMeta}
    (hEngine : Engine.new (Engine.reindex registrations) = some engine) (liq : Nat → L) {poolAddresses : List (Address × Nat)}
    (hOrder : poolAddresses.Perm engine.byAddress) :
    ∃ adj : Adjacency L, Adjacency.build engine liq poolAddresses = some adj ∧ adj.Valid engine := by
  have hIdxs : (poolAddresses.map Prod.snd).Perm (List.range engine.metas.length) := by
    rw [← Engine.new_reindex_idxs hEngine]
    exact hOrder.map Prod.snd
  refine Adjacency.Valid.foldlM ⟨nofun, fun _ => List.Pairwise.nil⟩ ?_ (hIdxs.nodup_iff.mpr List.nodup_range) nofun
  intro entry hMem
  exact List.mem_range.mp (hIdxs.subset (List.mem_map_of_mem hMem))

theorem Adjacency.Valid.capped [LinearOrder L] (h : adj.Valid engine) (pairFanout : Nat) :
    (adj.capped pairFanout).Valid engine := by
  have hEdges : ∀ token, ∃ sorted, sorted.Perm (adj.edgesAt token) ∧
      ((adj.capped pairFanout).edgesAt token).Sublist sorted := by
    intro token
    cases hToken : adj token with
    | none => exact ⟨[], by simp [edgesAt, hToken], by simp [edgesAt, Adjacency.capped, hToken]⟩
    | some edges =>
      refine ⟨_, List.perm_insertionSort (fun a b => b.liq ≤ a.liq) (adj.edgesAt token), ?_⟩
      simp only [edgesAt, Adjacency.capped, hToken, Option.map_some, Option.getD_some]
      exact List.take_sublist _ _
  refine ⟨fun token edge hMem => ?_, fun token => ?_⟩
  · obtain ⟨sorted, hPerm, hSub⟩ := hEdges token
    exact h.pools token edge (hPerm.subset (hSub.subset hMem))
  · obtain ⟨sorted, hPerm, hSub⟩ := hEdges token
    refine ((hPerm.pairwise_iff fun {e f} hef hEq => ?_).mpr (h.distinct token)).sublist hSub
    exact (hef hEq.symm).symm

end Valid

end Robinarb
