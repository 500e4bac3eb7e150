import Robinarb.Ingest.Backend

/-! # Discovered pools

What a factory scan records of a pool, and the policy for the V4 pools it accepts.
-/

namespace Robinarb

def weth : Address := 0x0Bd7D308f8E1639FAb988df18A8011f41EAcAD73#160
def univ4StateView : Address := 0xf3334192d15450cdd385c8b70e03f9a6bd9e673b#160
def univ4DynamicFeeFlag : U32 := 0x800000#32
def univ4MaxLpFee : U32 := 1000000#32

/-- `keccak256` of `abi.encode(PoolKey)`, five words. -/
abbrev KeyHash := BitVec 1280 → B256

namespace DexTag

def isV3Family : DexTag → Bool
  | .uniV3Fork | .pancakeV3 | .slipstream => true
  | _ => false

def isAlgebra : DexTag → Bool
  | .algebra => true
  | _ => false

def isV2Family : DexTag → Bool
  | .uniV2Fork | .aeroVolatile => true
  | _ => false

end DexTag

/-- The V4 fields are options: hydration expects them of V4 pools, which discovery sets. -/
structure DiscoveredPool where
  address : Address
  dex : DexTag
  factory : Address
  token0 : Address
  token1 : Address
  feePips : Option U32
  tickSpacing : Option Int
  feeBps : Option U32
  poolId : Option B256
  currency0Raw : Option Address
  v4Complete : dex = .uniV4 → poolId.isSome ∧ feePips.isSome ∧ tickSpacing.isSome ∧ currency0Raw.isSome

/-- What hydration makes of the V4 fields. -/
def DiscoveredPool.v4Meta (p : DiscoveredPool) : Option V4Meta := do
  return ⟨← p.poolId, ← p.currency0Raw, p.token1, ← p.feePips, ← p.tickSpacing⟩

/-- A key of the PoolManager, as its `Initialize` event carries it: the manager orders
the currencies, the fee is a `uint24` and the spacing an `int24`. -/
structure PoolKey where
  currency0 : Address
  currency1 : Address
  fee : U32
  tickSpacing : Int
  hooks : Address
  ordered : currency0 < currency1
  feeRange : fee.toNat < 2 ^ 24
  spacingRange : -2 ^ 23 ≤ tickSpacing ∧ tickSpacing < 2 ^ 23

def PoolKey.id (keccak : KeyHash) (key : PoolKey) : B256 :=
  keccak (key.currency0.setWidth 256 ++ key.currency1.setWidth 256 ++ (key.fee.setWidth 24).setWidth 256 ++
    BitVec.ofInt 256 key.tickSpacing ++ key.hooks.setWidth 256)

/-- `pool_id_of`, with the hooks word zero. -/
def V4Meta.poolIdOf (keccak : KeyHash) (currency0 currency1 : Address) (feePips : U32) (tickSpacing : Int) : B256 :=
  keccak (currency0.setWidth 256 ++ currency1.setWidth 256 ++ (feePips.setWidth 24).setWidth 256 ++
    BitVec.ofInt 256 tickSpacing ++ 0#256)

/-- `None` for hooked pools, dynamic fees and the pair of native ETH with WETH. -/
def v4PoolFromKey (poolManager : Address) (poolId : B256) (currency0 currency1 : Address) (feePips : U32)
    (tickSpacing : Int) (hooks : Address) : Option DiscoveredPool :=
  if hooks ≠ 0#160 ∨ feePips = univ4DynamicFeeFlag ∨ univ4MaxLpFee < feePips then none
  else if currency0 = 0#160 ∧ currency1 = weth then none
  else
    let token0 := if currency0 = 0#160 then weth else currency0
    some {
      address := V4Meta.syntheticAddress poolId
      dex := .uniV4
      factory := poolManager
      token0 := token0
      token1 := currency1
      feePips := some feePips
      tickSpacing := some tickSpacing
      feeBps := none
      poolId := some poolId
      currency0Raw := some currency0
      v4Complete := fun _ => ⟨rfl, rfl, rfl, rfl⟩ }

/-- The pool of a key that discovery has accepted. -/
def DiscoveredPool.FromKey (keccak : KeyHash) (key : PoolKey) (p : DiscoveredPool) : Prop :=
  ∃ poolManager, v4PoolFromKey poolManager (key.id keccak) key.currency0 key.currency1 key.fee key.tickSpacing
    key.hooks = some p

theorem DiscoveredPool.FromKey.eq {keccak : KeyHash} {key : PoolKey} {p : DiscoveredPool} (h : p.FromKey keccak key) :
    p.token0 = (if key.currency0 = 0#160 then weth else key.currency0) ∧ p.token1 = key.currency1 ∧
      p.token0 ≠ p.token1 ∧
      p.v4Meta = some ⟨V4Meta.poolIdOf keccak key.currency0 key.currency1 key.fee key.tickSpacing, key.currency0,
        key.currency1, key.fee, key.tickSpacing⟩ := by
  obtain ⟨poolManager, h⟩ := h
  obtain ⟨hVanilla, h⟩ := Option.ite_none_left_eq_some.mp h
  obtain ⟨hPair, h⟩ := Option.ite_none_left_eq_some.mp h
  obtain rfl := Option.some.inj h
  rw [not_or, not_not] at hVanilla
  refine ⟨rfl, rfl, ?_, ?_⟩
  · dsimp only
    split
    · rename_i hNative
      exact fun hSame => hPair ⟨hNative, hSame.symm⟩
    · exact fun hSame => absurd key.ordered (hSame ▸ BitVec.lt_irrefl _)
  · rw [v4Meta, PoolKey.id, hVanilla.1]
    rfl

/-- The first entry of each address. -/
def dedupe (seen : List Address) : List DiscoveredPool → List DiscoveredPool
  | [] => []
  | p :: rest => if p.address ∈ seen then dedupe seen rest else p :: dedupe (p.address :: seen) rest

theorem dedupe_fresh {seen : List Address} {discovered : List DiscoveredPool} {p : DiscoveredPool}
    (h : p ∈ dedupe seen discovered) : p ∈ discovered ∧ p.address ∉ seen := by
  induction discovered generalizing seen with
  | nil => cases h
  | cons first rest ih =>
    rw [dedupe] at h
    split at h
    · obtain ⟨hMem, hFresh⟩ := ih h
      exact ⟨List.mem_cons_of_mem _ hMem, hFresh⟩
    · rename_i hNew
      obtain rfl | hRest := List.mem_cons.mp h
      · exact ⟨List.mem_cons_self, hNew⟩
      · obtain ⟨hMem, hFresh⟩ := ih hRest
        exact ⟨List.mem_cons_of_mem _ hMem, fun hSeen => hFresh (List.mem_cons_of_mem _ hSeen)⟩

theorem dedupe_nodup (seen : List Address) (discovered : List DiscoveredPool) :
    ((dedupe seen discovered).map DiscoveredPool.address).Nodup := by
  induction discovered generalizing seen with
  | nil => exact List.nodup_nil
  | cons first rest ih =>
    rw [dedupe]
    split
    · exact ih seen
    · rw [List.map_cons, List.nodup_cons]
      refine ⟨fun hAgain => ?_, ih _⟩
      obtain ⟨p, hMem, hSame⟩ := List.mem_map.mp hAgain
      exact (dedupe_fresh hMem).2 (hSame ▸ List.mem_cons_self)

def addToken (found : List Address) (t : Address) : List Address := if t ∈ found then found else found ++ [t]

/-- The tokens of the pools, each once, in the order they come up. -/
def tokenSet (discovered : List DiscoveredPool) : List Address :=
  (discovered.flatMap fun p => [p.token0, p.token1]).foldl addToken []

theorem foldl_addToken {found tokens : List Address} (hNodup : found.Nodup) :
    (tokens.foldl addToken found).Nodup ∧ ∀ t, t ∈ tokens.foldl addToken found ↔ t ∈ found ∨ t ∈ tokens := by
  induction tokens generalizing found with
  | nil => simpa using hNodup
  | cons first rest ih =>
    have hAdded : (addToken found first).Nodup ∧ ∀ t, t ∈ addToken found first ↔ t ∈ found ∨ t = first := by
      unfold addToken
      split
      · rename_i hOld
        refine ⟨hNodup, fun t => ⟨.inl, ?_⟩⟩
        rintro (hMem | rfl)
        · exact hMem
        · exact hOld
      · rename_i hNew
        constructor
        · rw [List.nodup_append]
          refine ⟨hNodup, List.pairwise_singleton _ first, ?_⟩
          intro a ha b hb hEq
          rw [List.mem_singleton.mp hb] at hEq
          exact hNew (hEq ▸ ha)
        · intro t
          rw [List.mem_append, List.mem_singleton]
    obtain ⟨hFold, hMem⟩ := ih hAdded.1
    refine ⟨hFold, fun t => ?_⟩
    rw [List.foldl_cons, hMem, hAdded.2, List.mem_cons, or_assoc]

theorem tokenSet_nodup (discovered : List DiscoveredPool) : (tokenSet discovered).Nodup :=
  (foldl_addToken List.nodup_nil).1

theorem mem_tokenSet {discovered : List DiscoveredPool} {t : Address} :
    t ∈ tokenSet discovered ↔ ∃ p ∈ discovered, t = p.token0 ∨ t = p.token1 := by
  rw [tokenSet, (foldl_addToken List.nodup_nil).2]
  simp

end Robinarb
