import Robinarb.Word

/-! # The pool registry

Pool metadata and the engine that interns it. The hash map from addresses to
pools is an association list: bootstrap refuses a second pool at one address, so
its keys are distinct, and nothing below depends on their order.
-/

namespace Robinarb

inductive DexTag where
  | uniV2Fork
  | aeroVolatile
  | aeroStable
  | uniV3Fork
  | pancakeV3
  | slipstream
  | uniV4
  | algebra
  deriving DecidableEq

def DexTag.isV4 : DexTag → Bool
  | .uniV4 => true
  | _ => false

structure V4Meta where
  poolId : B256
  currency0 : Address
  currency1 : Address
  feePips : U32
  tickSpacing : Int

/-- The first 20 bytes of the pool id. -/
def V4Meta.syntheticAddress (poolId : B256) : Address := poolId.extractLsb' 96 160

structure PoolMeta where
  idx : Nat
  address : Address
  dex : DexTag
  token0 : Address
  token1 : Address
  dec0 : U8
  dec1 : U8
  feeBps : U32
  feePips : U32
  tickSpacing : Int
  v4 : Option V4Meta

structure Engine where
  metas : List PoolMeta
  byAddress : List (Address × Nat)

namespace Engine

/-- The registry while it is being filled, with the pool ids seen so far. -/
structure Builder where
  metas : List PoolMeta
  byAddress : List (Address × Nat)
  poolIdsSeen : List B256

/-- One turn of the registration loop; `none` is a failed assertion. -/
def Builder.register (b : Builder) (pool : PoolMeta) : Option Builder :=
  if (b.byAddress.lookup pool.address).isSome then none
  else if pool.dex.isV4 ≠ pool.v4.isSome then none
  else
    match pool.v4 with
    | some v4 =>
      if v4.poolId ∈ b.poolIdsSeen then none
      else some ⟨b.metas ++ [pool], b.byAddress ++ [(pool.address, pool.idx)], v4.poolId :: b.poolIdsSeen⟩
    | none => some ⟨b.metas ++ [pool], b.byAddress ++ [(pool.address, pool.idx)], b.poolIdsSeen⟩

def new (registrations : List PoolMeta) : Option Engine :=
  (registrations.foldlM Builder.register ⟨[], [], []⟩).map fun b => ⟨b.metas, b.byAddress⟩

/-- Registrations with their positions as indices, as bootstrap hands them over. -/
def reindex (registrations : List PoolMeta) : List PoolMeta :=
  registrations.mapIdx fun i pool => { pool with idx := i }

def poolAt (e : Engine) (addr : Address) : Option Nat := e.byAddress.lookup addr

def addresses (e : Engine) : List Address := e.byAddress.map Prod.fst

theorem poolAt_isSome_iff (e : Engine) (addr : Address) : (e.poolAt addr).isSome ↔ addr ∈ e.addresses := by
  rw [poolAt, List.lookup_isSome_iff, addresses, List.mem_map]
  constructor
  · rintro ⟨entry, hMem, hEq⟩
    exact ⟨entry, hMem, (eq_of_beq hEq).symm⟩
  · rintro ⟨entry, hMem, rfl⟩
    exact ⟨entry, hMem, beq_self_eq_true _⟩

theorem Builder.register_eq {b b' : Builder} {pool : PoolMeta} (h : b.register pool = some b') :
    b'.metas = b.metas ++ [pool] ∧ b'.byAddress = b.byAddress ++ [(pool.address, pool.idx)] := by
  unfold register at h
  split at h
  · cases h
  · split at h
    · cases h
    · split at h
      · split at h
        · cases h
        · cases h
          exact ⟨rfl, rfl⟩
      · cases h
        exact ⟨rfl, rfl⟩

theorem Builder.foldlM_eq {registrations : List PoolMeta} {b b' : Builder}
    (h : registrations.foldlM register b = some b') :
    b'.metas = b.metas ++ registrations ∧
      b'.byAddress = b.byAddress ++ registrations.map fun pool => (pool.address, pool.idx) := by
  induction registrations generalizing b with
  | nil =>
    cases h
    simp
  | cons pool rest ih =>
    rw [List.foldlM_cons] at h
    obtain ⟨next, hNext, hRest⟩ := Option.bind_eq_some_iff.mp h
    obtain ⟨hMetas, hByAddress⟩ := register_eq hNext
    obtain ⟨hMetas', hByAddress'⟩ := ih hRest
    rw [hMetas', hMetas, hByAddress', hByAddress]
    simp

theorem Builder.register_fresh {b b' : Builder} {pool : PoolMeta} (h : b.register pool = some b') :
    b.byAddress.lookup pool.address = none := by
  unfold register at h
  split at h
  · cases h
  · rename_i hNot
    exact Option.not_isSome_iff_eq_none.mp hNot

theorem Builder.register_lookup {b b' : Builder} {pool : PoolMeta} (h : b.register pool = some b') :
    b'.byAddress.lookup pool.address = some pool.idx ∧
      ∀ addr idx, b.byAddress.lookup addr = some idx → b'.byAddress.lookup addr = some idx := by
  rw [(register_eq h).2]
  refine ⟨by simp [List.lookup_append, register_fresh h], fun addr idx hFound => ?_⟩
  rw [List.lookup_append, hFound]
  rfl

theorem Builder.foldlM_lookup {registrations : List PoolMeta} {b b' : Builder}
    (h : registrations.foldlM register b = some b') :
    (∀ pool ∈ registrations, b'.byAddress.lookup pool.address = some pool.idx) ∧
      ∀ addr idx, b.byAddress.lookup addr = some idx → b'.byAddress.lookup addr = some idx := by
  induction registrations generalizing b with
  | nil =>
    cases h
    exact ⟨nofun, fun _ _ hFound => hFound⟩
  | cons pool rest ih =>
    rw [List.foldlM_cons] at h
    obtain ⟨next, hNext, hRest⟩ := Option.bind_eq_some_iff.mp h
    obtain ⟨hSelf, hOthers⟩ := register_lookup hNext
    obtain ⟨hRegistered, hKept⟩ := ih hRest
    refine ⟨?_, fun addr idx hFound => hKept addr idx (hOthers addr idx hFound)⟩
    rintro other (_ | ⟨_, hMem⟩)
    · exact hKept _ _ hSelf
    · exact hRegistered other hMem

theorem poolAt_registered {registrations : List PoolMeta} {e : Engine} (h : new registrations = some e)
    {pool : PoolMeta} (hMem : pool ∈ registrations) : e.poolAt pool.address = some pool.idx := by
  obtain ⟨b, hFold, rfl⟩ := Option.map_eq_some_iff.mp h
  exact (Builder.foldlM_lookup hFold).1 pool hMem

theorem new_eq {registrations : List PoolMeta} {e : Engine} (h : new registrations = some e) :
    e.metas = registrations ∧ e.byAddress = registrations.map fun pool => (pool.address, pool.idx) := by
  obtain ⟨b, hFold, rfl⟩ := Option.map_eq_some_iff.mp h
  exact Builder.foldlM_eq hFold

theorem Builder.register_nodup {b b' : Builder} {pool : PoolMeta} (h : b.register pool = some b')
    (hNodup : (b.byAddress.map Prod.fst).Nodup) : (b'.byAddress.map Prod.fst).Nodup := by
  rw [(register_eq h).2, List.map_append, List.nodup_append]
  refine ⟨hNodup, List.pairwise_singleton _ _, ?_⟩
  intro addr hAddr other hOther hSame
  obtain ⟨entry, hEntry, rfl⟩ := List.mem_map.mp hAddr
  rw [List.mem_singleton.mp hOther] at hSame
  have hOther := List.lookup_eq_none_iff.mp (register_fresh h) entry hEntry
  exact bne_iff_ne.mp hOther hSame.symm

theorem new_addresses_nodup {registrations : List PoolMeta} {e : Engine} (h : new registrations = some e) :
    (e.metas.map PoolMeta.address).Nodup := by
  obtain ⟨b, hFold, rfl⟩ := Option.map_eq_some_iff.mp h
  have hKeys : ∀ {registrations : List PoolMeta} {b b' : Builder}, registrations.foldlM Builder.register b = some b' →
      (b.byAddress.map Prod.fst).Nodup → (b'.byAddress.map Prod.fst).Nodup := by
    intro registrations
    induction registrations with
    | nil =>
      rintro b b' ⟨⟩ hNodup
      exact hNodup
    | cons pool rest ih =>
      intro b b' hFold hNodup
      rw [List.foldlM_cons] at hFold
      obtain ⟨next, hNext, hRest⟩ := Option.bind_eq_some_iff.mp hFold
      exact ih hRest (Builder.register_nodup hNext hNodup)
  obtain ⟨hMetas, hByAddress⟩ := Builder.foldlM_eq hFold
  have hNodup := hKeys hFold List.nodup_nil
  rw [hByAddress] at hNodup
  rw [hMetas]
  simpa [Function.comp_def] using hNodup

theorem new_reindex_idxs {registrations : List PoolMeta} {e : Engine} (h : new (reindex registrations) = some e) :
    e.byAddress.map Prod.snd = List.range e.metas.length := by
  obtain ⟨hMetas, hByAddress⟩ := new_eq h
  rw [hByAddress, hMetas]
  apply List.ext_getElem
  · simp
  · intro i hi _
    simp [reindex]

end Engine

end Robinarb
