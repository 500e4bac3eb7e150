import Robinarb.Contracts.ArbExecutor
import Robinarb.Library.ListFilters
import Robinarb.Routing.Store

/-! # Calldata

`encode`: a route as the hops and V4 keys of `executeArb`. A V4 hop carries the index
of its key in the fee field. `none` is a panic.
-/

namespace Robinarb

/-- The kind byte the contract dispatches on. -/
def hopKind : DexTag → U8
  | .uniV2Fork | .aeroVolatile => 0#8
  | .aeroStable => 1#8
  | .uniV3Fork | .pancakeV3 | .slipstream => 2#8
  | .uniV4 => 3#8
  | .algebra => 4#8

/-- The conversions to `U24` and `I24`. -/
def encodeKey (v4 : V4Meta) : Option ArbExecutor.V4Key :=
  if v4.feePips.toNat < 2 ^ 24 ∧ -2 ^ 23 ≤ v4.tickSpacing ∧ v4.tickSpacing < 2 ^ 23 then
    some ⟨v4.currency0, v4.currency1, v4.feePips, v4.tickSpacing⟩
  else none

def encodeHop (engine : Engine) (v4Keys : List ArbExecutor.V4Key) (h : Hop) :
    Option (ArbExecutor.Hop × List ArbExecutor.V4Key) := do
  let pool ← engine.metas[h.pool]?
  let kind := hopKind pool.dex
  if kind = 3#8 then do
    let v4 ← pool.v4
    let key ← encodeKey v4
    let v4Keys := v4Keys ++ [key]
    return (⟨kind, ArbExecutor.zeroAddress, h.zeroForOne, BitVec.ofNat 16 (v4Keys.length - 1)⟩, v4Keys)
  else
    return (⟨kind, pool.address, h.zeroForOne, pool.feeBps.setWidth 16⟩, v4Keys)

/-- The loop over the hops, with the keys pushed so far. -/
def encodeHops (engine : Engine) : List ArbExecutor.V4Key → List Hop →
    Option (List ArbExecutor.Hop × List ArbExecutor.V4Key)
  | v4Keys, [] => some ([], v4Keys)
  | v4Keys, h :: rest => do
    let (entry, v4Keys) ← encodeHop engine v4Keys h
    let (entries, v4Keys) ← encodeHops engine v4Keys rest
    return (entry :: entries, v4Keys)

def encode (engine : Engine) (store : RouteStore) (routeId : Nat) (amountIn ownBalance : U256) (forceFlashloan : Bool) :
    Option (ArbExecutor.Call × Bool) := do
  let route ← store.route routeId
  let (hops, v4Keys) ← encodeHops engine [] route.hops
  let useFlashloan := forceFlashloan || decide (ownBalance < amountIn)
  return (.executeArb hops v4Keys route.anchor amountIn 0#256 useFlashloan, useFlashloan)

section Encoding

variable {engine : Engine}

def v4KeyOf (engine : Engine) (h : Hop) : Option ArbExecutor.V4Key := do
  let pool ← engine.metas[h.pool]?
  if pool.dex = .uniV4 then pool.v4.bind encodeKey else none

/-- What encoding needs of a hop: its pool, and a key in range for a V4 pool. -/
def Encodable (engine : Engine) (h : Hop) : Prop :=
  ∃ pool, engine.metas[h.pool]? = some pool ∧ (pool.dex = .uniV4 → (v4KeyOf engine h).isSome)

/-- An entry of the calldata beside the hop it stands for. -/
structure Encodes (engine : Engine) (v4Keys : List ArbExecutor.V4Key) (h : Hop) (entry : ArbExecutor.Hop) : Prop where
  zeroForOne : entry.zeroForOne = h.zeroForOne
  kind : ∀ pool, engine.metas[h.pool]? = some pool → entry.kind = hopKind pool.dex
  address : ∀ pool, engine.metas[h.pool]? = some pool → pool.dex ≠ .uniV4 → entry.pool = pool.address
  key : ∀ key, v4KeyOf engine h = some key → v4Keys[entry.feeBps.toNat]? = some key

theorem hopKind_eq_v4 {dex : DexTag} : hopKind dex = 3#8 ↔ dex = .uniV4 := by
  cases dex <;> decide

theorem Encodes.mono {v4Keys more : List ArbExecutor.V4Key} {h : Hop} {entry : ArbExecutor.Hop}
    (hEncodes : Encodes engine v4Keys h entry) (hMore : v4Keys <+: more) : Encodes engine more h entry := by
  obtain ⟨suffix, rfl⟩ := hMore
  refine ⟨hEncodes.zeroForOne, hEncodes.kind, hEncodes.address, fun key hKey => ?_⟩
  have hAt := hEncodes.key key hKey
  rw [List.getElem?_append_left (List.getElem?_eq_some_iff.mp hAt).1, hAt]

theorem encodeHop_spec (v4Keys : List ArbExecutor.V4Key) {h : Hop} (hEncodable : Encodable engine h)
    (hRoom : v4Keys.length < 2 ^ 16) : ∃ entry, encodeHop engine v4Keys h =
      some (entry, v4Keys ++ (v4KeyOf engine h).toList) ∧
        Encodes engine (v4Keys ++ (v4KeyOf engine h).toList) h entry := by
  obtain ⟨pool, hPool, hKey⟩ := hEncodable
  by_cases hDex : pool.dex = .uniV4
  · obtain ⟨key, hSome⟩ := Option.isSome_iff_exists.mp (hKey hDex)
    have hMeta := hSome
    rw [v4KeyOf, hPool, Option.bind_eq_bind, Option.bind_some, if_pos hDex] at hMeta
    obtain ⟨v4, hV4, hEncode⟩ := Option.bind_eq_some_iff.mp hMeta
    refine ⟨⟨hopKind pool.dex, ArbExecutor.zeroAddress, h.zeroForOne, BitVec.ofNat 16 v4Keys.length⟩, ?_, rfl, ?_, ?_, ?_⟩
    · rw [encodeHop, hPool, hSome]
      simp [hopKind_eq_v4, hDex, hV4, hEncode]
    · intro other hOther
      rw [Option.some.inj (hOther.symm.trans hPool)]
    · intro other hOther hNot
      exact absurd (Option.some.inj (hOther.symm.trans hPool) ▸ hDex) hNot
    · intro other hOther
      obtain rfl := Option.some.inj (hSome.symm.trans hOther)
      dsimp only
      rw [BitVec.toNat_ofNat, Nat.mod_eq_of_lt hRoom, hSome]
      simp
  · have hNone : v4KeyOf engine h = none := by
      rw [v4KeyOf, hPool, Option.bind_eq_bind, Option.bind_some, if_neg hDex]
    refine ⟨⟨hopKind pool.dex, pool.address, h.zeroForOne, pool.feeBps.setWidth 16⟩, ?_, rfl, ?_, ?_, ?_⟩
    · rw [encodeHop, hPool, hNone]
      simp [hopKind_eq_v4, hDex]
    · intro other hOther
      rw [Option.some.inj (hOther.symm.trans hPool)]
    · intro other hOther _
      rw [Option.some.inj (hOther.symm.trans hPool)]
    · intro key hOther
      rw [hNone] at hOther
      cases hOther

/-- One entry for each hop, and the keys of the V4 hops in their order behind those there were. -/
theorem encodeHops_spec (v4Keys : List ArbExecutor.V4Key) {hops : List Hop}
    (hEncodable : ∀ h ∈ hops, Encodable engine h) (hRoom : v4Keys.length + hops.length ≤ 2 ^ 16) :
    ∃ entries, encodeHops engine v4Keys hops = some (entries, v4Keys ++ hops.filterMap (v4KeyOf engine)) ∧
      List.Forall₂ (Encodes engine (v4Keys ++ hops.filterMap (v4KeyOf engine))) hops entries := by
  induction hops generalizing v4Keys with
  | nil => exact ⟨[], by simp [encodeHops], .nil⟩
  | cons h rest ih =>
    rw [List.length_cons] at hRoom
    obtain ⟨entry, hEntry, hEncodes⟩ := encodeHop_spec v4Keys (hEncodable h List.mem_cons_self) (by omega)
    have hAdded : (v4KeyOf engine h).toList.length ≤ 1 := by
      cases v4KeyOf engine h <;> simp
    obtain ⟨entries, hEntries, hRest⟩ := ih (v4Keys ++ (v4KeyOf engine h).toList)
      (fun other hOther => hEncodable other (List.mem_cons_of_mem _ hOther)) (by rw [List.length_append]; omega)
    have hKeys : v4Keys ++ (v4KeyOf engine h).toList ++ rest.filterMap (v4KeyOf engine) =
        v4Keys ++ (h :: rest).filterMap (v4KeyOf engine) := by
      rw [List.append_assoc, List.filterMap_cons]
      cases v4KeyOf engine h <;> rfl
    rw [hKeys] at hEntries hRest
    refine ⟨entry :: entries, ?_, .cons (hEncodes.mono ⟨_, hKeys⟩) hRest⟩
    rw [encodeHops, hEntry, Option.bind_eq_bind, Option.bind_some]
    dsimp only
    rw [hEntries]
    rfl

end Encoding

end Robinarb
