import Robinarb.Library.RankedPrefix
import Robinarb.Routing.Routes

/-! # The fan-out cap

Which pools of a pair the cap on the edges of a token leaves to the search.
-/

namespace Robinarb

open RankedPrefix

section Cap

variable {L : Type}

/-- The edges that a pool of the registry adds at a token. -/
def edgesOf (engine : Engine) (liq : Nat → L) (token : Address) (idx : Nat) : List (Edge L) :=
  match engine.metas[idx]? with
  | none => []
  | some pool =>
    let edge : Edge L := ⟨idx, pool.token0, pool.token1, liq idx⟩
    (if token = pool.token0 then [edge] else []) ++ if token = pool.token1 then [edge] else []

def sidesOf (engine : Engine) (token : Address) (idx : Nat) : List Nat :=
  match engine.metas[idx]? with
  | none => []
  | some pool => (if token = pool.token0 then [idx] else []) ++ if token = pool.token1 then [idx] else []

/-- The pools at a token, one entry for each side. -/
def poolsAt (engine : Engine) (token : Address) : List Nat :=
  (List.range engine.metas.length).flatMap (sidesOf engine token)

def PoolMeta.Joins (pool : PoolMeta) (a b : Address) : Prop :=
  pool.token0 = a ∧ pool.token1 = b ∨ pool.token0 = b ∧ pool.token1 = a

instance (pool : PoolMeta) (a b : Address) : Decidable (pool.Joins a b) := inferInstanceAs (Decidable (_ ∨ _))

def joining (engine : Engine) (a b : Address) : List Nat :=
  (List.range engine.metas.length).filter fun idx => engine.metas[idx]?.any fun pool => pool.Joins a b

/-- The pools that the capped graph offers for a hop. -/
def hopsLeft [LinearOrder L] (adj : Adjacency L) (pairFanout : Nat) (a b : Address) : List Nat :=
  (((adj.capped pairFanout).edgesAt a).filter fun edge => edge.nextToken a = some b).map Edge.pool

theorem Adjacency.addPool_edgesAt {engine : Engine} {liq : Nat → L} {adj next : Adjacency L} {idx : Nat}
    (h : addPool engine liq adj idx = some next) (token : Address) :
    next.edgesAt token = adj.edgesAt token ++ edgesOf engine liq token idx := by
  obtain ⟨pool, hPool, hNext⟩ := Option.bind_eq_some_iff.mp h
  cases hNext
  rw [edgesAt_push, edgesAt_push, edgesOf, hPool, List.append_assoc]

theorem Adjacency.build_edgesAt {engine : Engine} {liq : Nat → L} {entries : List (Address × Nat)}
    {adj final : Adjacency L}
    (h : entries.foldlM (fun adj entry => addPool engine liq adj entry.2) adj = some final) (token : Address) :
    final.edgesAt token = adj.edgesAt token ++ (entries.map Prod.snd).flatMap (edgesOf engine liq token) := by
  induction entries generalizing adj with
  | nil =>
    cases h
    exact (List.append_nil _).symm
  | cons entry rest ih =>
    rw [List.foldlM_cons] at h
    obtain ⟨next, hNext, hRest⟩ := Option.bind_eq_some_iff.mp h
    rw [ih hRest, addPool_edgesAt hNext, List.map_cons, List.flatMap_cons, List.append_assoc]

variable {engine : Engine} {liq : Nat → L} {a b : Address}

theorem mem_edgesOf {idx : Nat} {edge : Edge L} : edge ∈ edgesOf engine liq a idx ↔
    ∃ pool, engine.metas[idx]? = some pool ∧ edge = ⟨idx, pool.token0, pool.token1, liq idx⟩ ∧
      (a = pool.token0 ∨ a = pool.token1) := by
  unfold edgesOf
  cases engine.metas[idx]? with
  | none => simp
  | some pool =>
    simp only [List.mem_append, Option.some.injEq, exists_eq_left']
    constructor
    · rintro (h | h)
      · obtain ⟨hToken, rfl⟩ : a = pool.token0 ∧ edge = _ := by simpa using h
        exact ⟨rfl, .inl hToken⟩
      · obtain ⟨hToken, rfl⟩ : a = pool.token1 ∧ edge = _ := by simpa using h
        exact ⟨rfl, .inr hToken⟩
    · rintro ⟨rfl, hToken | hToken⟩
      · left
        simp [hToken]
      · right
        simp [hToken]

theorem map_edgesOf_liq (idx : Nat) : (edgesOf engine liq a idx).map Edge.liq = (sidesOf engine a idx).map liq := by
  unfold edgesOf sidesOf
  cases engine.metas[idx]? with
  | none => rfl
  | some pool =>
    dsimp only
    split <;> split <;> rfl

theorem joins_iff_nextToken {idx : Nat} {pool : PoolMeta} (hDistinct : a ≠ b) :
    pool.Joins a b ↔ (⟨idx, pool.token0, pool.token1, liq idx⟩ : Edge L).nextToken a = some b := by
  unfold PoolMeta.Joins Edge.nextToken
  dsimp only
  by_cases h0 : pool.token0 = a
  · simp [h0, hDistinct]
  · by_cases h1 : pool.token1 = a
    · simp [h0, h1]
    · simp [h0, h1]

theorem mem_joining {idx : Nat} : idx ∈ joining engine a b ↔ ∃ pool, engine.metas[idx]? = some pool ∧ pool.Joins a b := by
  rw [joining, List.mem_filter, List.mem_range]
  constructor
  · rintro ⟨hLt, hJoins⟩
    rw [List.getElem?_eq_getElem hLt] at hJoins
    exact ⟨_, List.getElem?_eq_getElem hLt, by simpa using hJoins⟩
  · rintro ⟨pool, hPool, hJoins⟩
    exact ⟨(List.getElem?_eq_some_iff.mp hPool).1, by rw [hPool]; simpa using hJoins⟩

theorem mem_hopsLeft [LinearOrder L] {adj : Adjacency L} {pairFanout idx : Nat} :
    idx ∈ hopsLeft adj pairFanout a b ↔
      ∃ edge ∈ (ranked Edge.liq (adj.edgesAt a)).take (Adjacency.edgeCap pairFanout),
        edge.nextToken a = some b ∧ edge.pool = idx := by
  have hCapped : (adj.capped pairFanout).edgesAt a =
      (ranked Edge.liq (adj.edgesAt a)).take (Adjacency.edgeCap pairFanout) := by
    unfold Adjacency.edgesAt Adjacency.capped
    cases adj a with
    | none => simp [ranked]
    | some edges => rfl
  simp [hopsLeft, hCapped, and_assoc]

/-- The edges at a token, up to the order in which its pools come. -/
structure EdgesFrom (engine : Engine) (liq : Nat → L) (adj : Adjacency L) (token : Address) : Prop where
  perm : (adj.edgesAt token).Perm ((List.range engine.metas.length).flatMap (edgesOf engine liq token))

theorem EdgesFrom.mem {adj : Adjacency L} (h : EdgesFrom engine liq adj a) {edge : Edge L} :
    edge ∈ adj.edgesAt a ↔ ∃ idx pool, engine.metas[idx]? = some pool ∧
      edge = ⟨idx, pool.token0, pool.token1, liq idx⟩ ∧ (a = pool.token0 ∨ a = pool.token1) := by
  rw [h.perm.mem_iff, List.mem_flatMap]
  constructor
  · rintro ⟨idx, -, hEdge⟩
    exact ⟨idx, mem_edgesOf.mp hEdge⟩
  · rintro ⟨idx, pool, hPool, hEdge⟩
    exact ⟨idx, List.mem_range.mpr (List.getElem?_eq_some_iff.mp hPool).1, mem_edgesOf.mpr ⟨pool, hPool, hEdge⟩⟩

theorem EdgesFrom.ahead [LinearOrder L] {adj : Adjacency L} (h : EdgesFrom engine liq adj a) (edge : Edge L)
    (hLiq : edge.liq = liq edge.pool) : ahead Edge.liq (adj.edgesAt a) edge = ahead liq (poolsAt engine a) edge.pool := by
  rw [ahead_perm h.perm]
  apply ahead_congr _ hLiq
  rw [poolsAt, List.map_flatMap, List.map_flatMap]
  simp only [map_edgesOf_liq]

/-- A pool of a pair is left for a hop exactly when fewer than the cap are ahead of it at the
token, in whatever pairs. -/
theorem EdgesFrom.mem_hopsLeft_iff [LinearOrder L] {adj : Adjacency L} (h : EdgesFrom engine liq adj a)
    (hTies : ∀ i < engine.metas.length, ∀ j < engine.metas.length, liq i = liq j → i = j) (hDistinct : a ≠ b)
    {pairFanout idx : Nat} : idx ∈ hopsLeft adj pairFanout a b ↔
      idx ∈ joining engine a b ∧ RankedPrefix.ahead liq (poolsAt engine a) idx < Adjacency.edgeCap pairFanout := by
  have hTake : ∀ edge ∈ adj.edgesAt a, edge ∈ (ranked Edge.liq (adj.edgesAt a)).take (Adjacency.edgeCap pairFanout) ↔
      RankedPrefix.ahead liq (poolsAt engine a) edge.pool < Adjacency.edgeCap pairFanout := by
    intro edge hEdge
    obtain ⟨i, pool, hPool, rfl, -⟩ := h.mem.mp hEdge
    rw [mem_take_ranked_iff hEdge, h.ahead _ rfl]
    intro other hOther hTie
    obtain ⟨j, pool', hPool', rfl, -⟩ := h.mem.mp hOther
    obtain rfl := hTies j (List.getElem?_eq_some_iff.mp hPool').1 i (List.getElem?_eq_some_iff.mp hPool).1 hTie
    rw [hPool] at hPool'
    cases hPool'
    rfl
  rw [mem_hopsLeft, mem_joining]
  constructor
  · rintro ⟨edge, hKept, hNext, rfl⟩
    have hEdge : edge ∈ adj.edgesAt a := (ranked_perm Edge.liq _).mem_iff.mp (List.mem_of_mem_take hKept)
    have hAhead := (hTake edge hEdge).mp hKept
    obtain ⟨i, pool, hPool, rfl, -⟩ := h.mem.mp hEdge
    exact ⟨⟨pool, hPool, (joins_iff_nextToken hDistinct).mpr hNext⟩, hAhead⟩
  · rintro ⟨⟨pool, hPool, hJoins⟩, hAhead⟩
    have hToken : a = pool.token0 ∨ a = pool.token1 := by
      rcases hJoins with ⟨hFirst, -⟩ | ⟨-, hSecond⟩
      · exact .inl hFirst.symm
      · exact .inr hSecond.symm
    have hEdge : (⟨idx, pool.token0, pool.token1, liq idx⟩ : Edge L) ∈ adj.edgesAt a :=
      h.mem.mpr ⟨idx, pool, hPool, rfl, hToken⟩
    exact ⟨_, (hTake _ hEdge).mpr hAhead, (joins_iff_nextToken hDistinct).mp hJoins, rfl⟩

def mostLiquid [LinearOrder L] (liq : Nat → L) (pairFanout : Nat) (pools : List Nat) : List Nat :=
  (ranked liq pools).take (min pairFanout pools.length)

theorem mem_mostLiquid_iff [LinearOrder L]
    (hTies : ∀ i < engine.metas.length, ∀ j < engine.metas.length, liq i = liq j → i = j) {pairFanout idx : Nat} :
    idx ∈ mostLiquid liq pairFanout (joining engine a b) ↔
      idx ∈ joining engine a b ∧ ahead liq (joining engine a b) idx < pairFanout := by
  have hRange : ∀ i ∈ joining engine a b, i < engine.metas.length := fun i hi => List.mem_range.mp (List.mem_filter.mp hi).1
  constructor
  · intro hMost
    have hMem : idx ∈ joining engine a b := (ranked_perm liq _).mem_iff.mp (List.mem_of_mem_take hMost)
    have hAhead := (mem_take_ranked_iff hMem (fun j hj hTie => hTies j (hRange j hj) idx (hRange idx hMem) hTie) _).mp hMost
    exact ⟨hMem, Nat.lt_of_lt_of_le hAhead (Nat.min_le_left _ _)⟩
  · rintro ⟨hMem, hAhead⟩
    apply (mem_take_ranked_iff hMem (fun j hj hTie => hTies j (hRange j hj) idx (hRange idx hMem) hTie) _).mpr
    exact lt_min hAhead (ahead_lt_length hMem)

/-- The pools of a pair among the first edges at the token, over all its neighbours. -/
def leaders [LinearOrder L] (engine : Engine) (liq : Nat → L) (cap : Nat) (a b : Address) : List Nat :=
  (joining engine a b).filter fun idx => ahead liq (poolsAt engine a) idx < cap

theorem joining_nodup (engine : Engine) (a b : Address) : (joining engine a b).Nodup :=
  List.nodup_range.filter _

theorem mostLiquid_perm [LinearOrder L]
    (hTies : ∀ i < engine.metas.length, ∀ j < engine.metas.length, liq i = liq j → i = j) (pairFanout : Nat) :
    (mostLiquid liq pairFanout (joining engine a b)).Perm
      ((joining engine a b).filter fun idx => ahead liq (joining engine a b) idx < pairFanout) := by
  have hNodup : (mostLiquid liq pairFanout (joining engine a b)).Nodup :=
    ((ranked_perm liq _).nodup_iff.mpr (joining_nodup engine a b)).sublist (List.take_sublist _ _)
  apply (List.perm_ext_iff_of_nodup hNodup ((joining_nodup engine a b).filter _)).mpr
  intro idx
  rw [mem_mostLiquid_iff hTies, List.mem_filter, decide_eq_true_eq]

theorem length_mostLiquid [LinearOrder L] (liq : Nat → L) (pairFanout : Nat) (pools : List Nat) :
    (mostLiquid liq pairFanout pools).length = min pairFanout pools.length := by
  rw [mostLiquid, List.length_take, (ranked_perm liq pools).length_eq]
  omega

/-- The leaders of a pair are its most liquid pools as soon as they are as many. -/
theorem leaders_iff [LinearOrder L]
    (hTies : ∀ i < engine.metas.length, ∀ j < engine.metas.length, liq i = liq j → i = j) {cap pairFanout : Nat} :
    (∀ idx, idx ∈ leaders engine liq cap a b ↔ idx ∈ mostLiquid liq pairFanout (joining engine a b)) ↔
      (leaders engine liq cap a b).length = min pairFanout (joining engine a b).length := by
  rw [← length_mostLiquid liq, (mostLiquid_perm hTies pairFanout).length_eq]
  constructor
  · intro h
    refine ((List.perm_ext_iff_of_nodup ((joining_nodup engine a b).filter _) ((joining_nodup engine a b).filter _)).mpr ?_).length_eq
    intro idx
    rw [← (mostLiquid_perm hTies pairFanout).mem_iff]
    exact h idx
  · intro hLength idx
    have hUpper : ∀ (pools : List Nat) (cap : Nat), ∀ x ∈ joining engine a b, ∀ y ∈ joining engine a b, liq x ≤ liq y →
        ahead liq pools x < cap → ahead liq pools y < cap :=
      fun pools _ _ _ _ _ hLe hAhead => (ahead_anti hLe pools).trans_lt hAhead
    rw [(mostLiquid_perm hTies pairFanout).mem_iff, leaders, List.mem_filter, List.mem_filter, decide_eq_true_eq,
      decide_eq_true_eq]
    refine and_congr_right fun hMem => ⟨?_, ?_⟩
    · exact imp_of_length_le (hUpper _ _) (hUpper _ _) hLength.le hMem
    · exact imp_of_length_le (hUpper _ _) (hUpper _ _) hLength.ge hMem

/-- The pools left for the hops from one token to another are the most liquid of the pair,
as configured, if and only if just as many of the pair are among the first edges at the
token. -/
theorem hopsLeft_mostLiquid_iff [LinearOrder L] {registrations : List PoolMeta}
    (hEngine : Engine.new (Engine.reindex registrations) = some engine)
    (hTies : ∀ i < engine.metas.length, ∀ j < engine.metas.length, liq i = liq j → i = j)
    {poolAddresses : List (Address × Nat)} (hOrder : poolAddresses.Perm engine.byAddress) (pairFanout : Nat) :
    ∃ adj, Adjacency.build engine liq poolAddresses = some adj ∧ ∀ a b, a ≠ b →
      ((∀ idx, idx ∈ hopsLeft adj pairFanout a b ↔ idx ∈ mostLiquid liq pairFanout (joining engine a b)) ↔
        (leaders engine liq (Adjacency.edgeCap pairFanout) a b).length =
          min pairFanout (joining engine a b).length) := by
  obtain ⟨adj, hBuild, -⟩ := Adjacency.build_valid hEngine liq hOrder
  refine ⟨adj, hBuild, fun a b hDistinct => ?_⟩
  have hIdxs : (poolAddresses.map Prod.snd).Perm (List.range engine.metas.length) := by
    rw [← Engine.new_reindex_idxs hEngine]
    exact hOrder.map Prod.snd
  have hEdges : EdgesFrom engine liq adj a := by
    constructor
    rw [Adjacency.build_edgesAt hBuild]
    exact hIdxs.flatMap_right _
  have hLeft : ∀ idx, idx ∈ hopsLeft adj pairFanout a b ↔ idx ∈ leaders engine liq (Adjacency.edgeCap pairFanout) a b := by
    intro idx
    rw [hEdges.mem_hopsLeft_iff hTies hDistinct, leaders, List.mem_filter, decide_eq_true_eq]
  simp only [hLeft]
  exact leaders_iff hTies

end Cap

section Sample

/-- Token 1 with a pool to each of the tokens 2 to 10, and a second one to 10. -/
def hubPools : List PoolMeta :=
  [sampleEdge 101#160 1#160 2#160, sampleEdge 102#160 1#160 3#160, sampleEdge 103#160 1#160 4#160,
    sampleEdge 104#160 1#160 5#160, sampleEdge 105#160 1#160 6#160, sampleEdge 106#160 1#160 7#160,
    sampleEdge 107#160 1#160 8#160, sampleEdge 108#160 1#160 9#160, sampleEdge 109#160 1#160 10#160,
    sampleEdge 110#160 1#160 10#160]

def hubGraph : Engine where
  metas := Engine.reindex hubPools
  byAddress := [(101#160, 0), (102#160, 1), (103#160, 2), (104#160, 3), (105#160, 4), (106#160, 5), (107#160, 6),
    (108#160, 7), (109#160, 8), (110#160, 9)]

theorem hub_capped_iff : ∃ adj, Adjacency.build hubGraph Nat.succ hubGraph.byAddress = some adj ∧ ∀ a b, a ≠ b →
    ((∀ idx, idx ∈ hopsLeft adj 1 a b ↔ idx ∈ mostLiquid Nat.succ 1 (joining hubGraph a b)) ↔
      (leaders hubGraph Nat.succ (Adjacency.edgeCap 1) a b).length = min 1 (joining hubGraph a b).length) :=
  hopsLeft_mostLiquid_iff (show Engine.new (Engine.reindex hubPools) = some hubGraph from rfl)
    (fun _ _ _ _ => Nat.succ.inj) (.refl _) 1

/-- With a fan-out of one the only pool to token 2 is cut, and both pools to token 10 stay. -/
theorem hub_capped_by_token : Engine.new (Engine.reindex hubPools) = some hubGraph ∧
    (Adjacency.build hubGraph Nat.succ hubGraph.byAddress).map (fun adj =>
      (hopsLeft adj 1 1#160 2#160, hopsLeft adj 1 1#160 10#160)) = some ([], [9, 8]) ∧
    mostLiquid Nat.succ 1 (joining hubGraph 1#160 2#160) = [0] ∧
    mostLiquid Nat.succ 1 (joining hubGraph 1#160 10#160) = [9] ∧
    ¬∃ adj, Adjacency.build hubGraph Nat.succ hubGraph.byAddress = some adj ∧ ∀ a b, a ≠ b →
      ∀ idx, idx ∈ hopsLeft adj 1 a b ↔ idx ∈ mostLiquid Nat.succ 1 (joining hubGraph a b) := by
  have hLeft : (Adjacency.build hubGraph Nat.succ hubGraph.byAddress).map (fun adj =>
      (hopsLeft adj 1 1#160 2#160, hopsLeft adj 1 1#160 10#160)) = some ([], [9, 8]) := by
    decide +kernel
  have hOnly : mostLiquid Nat.succ 1 (joining hubGraph 1#160 2#160) = [0] := by decide +kernel
  refine ⟨rfl, hLeft, hOnly, by decide +kernel, ?_⟩
  rintro ⟨adj, hBuild, h⟩
  rw [hBuild, Option.map_some, Option.some.injEq, Prod.mk.injEq] at hLeft
  have hCut := (h 1#160 2#160 (by decide) 0).mpr (hOnly ▸ List.mem_singleton_self 0)
  rw [hLeft.1] at hCut
  cases hCut

end Sample

end Robinarb
