import Robinarb.Ingest.HostileAnswers
import Robinarb.State.SlotPlans

/-! # Pool identities

Every pool of a bootstrapped engine is one discovered pool throughout: what it is, the
answers its fee and decimals come from, and the storage its plan reads.
-/

namespace Robinarb

open Batch

section Origins

variable {F : Type} (b : Bootstrap F) (rpc : BootstrapRpc) (answers : Call → CallResult → Prop)

/-- A multicall asked, and nothing that reads came back. -/
def Unread {γ : Type} (read : List U8 → Option γ) (call : Call) : Prop :=
  ∃ given, Gave rpc.aggregate3 call given ∧ (answered given).bind read = none

def readU128 (data : List U8) : Option U128 := (decodeU128 data).join

/-- What a token answered, or the default for one whose answer does not read. -/
def DecimalsFrom (token : Address) (dec : U8) : Prop :=
  dec = 18#8 ∧ Unread rpc readU128 ⟨token, .decimals⟩ ∨
    ∃ result data v, answers ⟨token, .decimals⟩ result ∧ answered (some result) = some data ∧
      decodeU128 data = some (some v) ∧ dec = v.setWidth 8

/-- What a pool answered to `fee()`, or the default for one whose answer does not read. -/
def ReadFee (p : DiscoveredPool) (feePips : U32) : Prop :=
  feePips = 3000#32 ∧ Unread rpc readU128 ⟨p.address, .fee⟩ ∨
    ∃ result data v, answers ⟨p.address, .fee⟩ result ∧ answered (some result) = some data ∧
      decodeU128 data = some (some v) ∧ feePips = v.setWidth 32

/-- What the factory answered for the pool, or the default where its answer does not read. -/
def FactoryFee (p : DiscoveredPool) (default feeBps : U32) : Prop :=
  feeBps = default ∧ Unread rpc b.decoders.uint256 ⟨p.factory, .getFee p.address (p.dex = .aeroStable)⟩ ∨
    ∃ result data fee, answers ⟨p.factory, .getFee p.address (p.dex = .aeroStable)⟩ result ∧
      answered (some result) = some data ∧ b.decoders.uint256 data = some fee ∧ feeBps = fee.setWidth 32

def FeeFrom (p : DiscoveredPool) (feeBps feePips : U32) : Prop :=
  match p.dex with
  | .uniV2Fork => feeBps = p.feeBps.getD 30#32 ∧ feePips = feeBps * 100#32
  | .aeroVolatile => FactoryFee b rpc answers p 30#32 feeBps ∧ feePips = feeBps * 100#32
  | .aeroStable => FactoryFee b rpc answers p 5#32 feeBps ∧ feePips = feeBps * 100#32
  | .uniV3Fork | .pancakeV3 | .slipstream =>
    (p.feePips = some feePips ∨ p.feePips = none ∧ ReadFee rpc answers p feePips) ∧ feeBps = feePips / 100#32
  | .algebra => ReadFee rpc answers p feePips ∧ feeBps = feePips / 100#32
  | .uniV4 => p.feePips = some feePips ∧ feeBps = feePips / 100#32

/-- A registration that is one discovered pool throughout. -/
structure PoolRegistration.From (p : DiscoveredPool) (reg : PoolRegistration F) : Prop where
  identity : reg.Of p
  key : reg.pool.v4 = if p.dex = .uniV4 then p.v4Meta else none
  fee : FeeFrom b rpc answers p reg.pool.feeBps reg.pool.feePips
  dec0 : DecimalsFrom rpc answers p.token0 reg.pool.dec0
  dec1 : DecimalsFrom rpc answers p.token1 reg.pool.dec1

variable {b rpc answers} in
theorem PoolRegistration.From.renumber {p : DiscoveredPool} {reg : PoolRegistration F}
    (h : reg.From b rpc answers p) (i : Nat) :
    ({ reg with pool := { reg.pool with idx := i } } : PoolRegistration F).From b rpc answers p :=
  ⟨⟨h.identity.address, h.identity.dex, h.identity.factory, h.identity.token0, h.identity.token1⟩, h.key, h.fee, h.dec0,
    h.dec1⟩

end Origins

namespace Bootstrap

section Sites

variable {F : Type} {b : Bootstrap F} {rpc : BootstrapRpc} {answers : Call → CallResult → Prop}
  {decimals : List (Address × U8)} {p : DiscoveredPool} {row : Nat → Option CallResult}

theorem answered_some {given : Option CallResult} {data : List U8} (h : answered given = some data) :
    ∃ result, given = some result ∧ answered (some result) = some data := by
  cases given with
  | none => cases h
  | some result => exact ⟨result, rfl, h⟩

theorem unread_of_answered {γ : Type} {read : List U8 → Option γ} {call : Call} {given : Option CallResult}
    (hGave : Gave rpc.aggregate3 call given) (h : answered given = none) : Unread rpc read call :=
  ⟨given, hGave, by rw [h, Option.bind_none]⟩

theorem unread_of_decoded {call : Call} {given : Option CallResult} {data : List U8}
    (hGave : Gave rpc.aggregate3 call given) (hData : answered given = some data) (h : decodeU128 data = some none) :
    Unread rpc readU128 call :=
  ⟨given, hGave, by rw [hData, Option.bind_some, readU128, h, Option.join_some]⟩

theorem decimalsSite_from (hAnswers : AnswersEach rpc.aggregate3 answers) {token : Address}
    (hRow : RowGiven rpc.aggregate3 (decimalsCall token) row) {entry : Option (Address × U8)}
    (h : decimalsSite token row = some entry) : DecimalsFrom rpc answers token ((entry.map Prod.snd).getD 18#8) := by
  have hGave := hRow 0 ⟨token, .decimals⟩ rfl
  unfold decimalsSite at h
  split at h
  · rename_i hNone
    obtain rfl := Option.some.inj h
    exact .inl ⟨rfl, unread_of_answered hGave (by rw [hNone]; rfl)⟩
  · rename_i result hResult
    rw [hResult] at hGave
    split at h
    · rename_i hFailed
      obtain rfl := Option.some.inj h
      exact .inl ⟨rfl, unread_of_answered hGave hFailed⟩
    · rename_i data hData
      obtain ⟨v, hv, rfl⟩ := Option.map_eq_some_iff.mp h
      cases v with
      | none => exact .inl ⟨rfl, unread_of_decoded hGave hData hv⟩
      | some v => exact .inr ⟨result, data, v, hGave.answers hAnswers, hData, hv, rfl⟩

theorem feePipsOr_from (hAnswers : AnswersEach rpc.aggregate3 answers) {requests : List Call}
    (hRow : RowGiven rpc.aggregate3 requests row) (hCall : requests[2]? = some ⟨p.address, .fee⟩) {known : Option U32}
    {feePips : U32} (h : feePipsOr known (answered (row 2)) = some feePips) :
    known = some feePips ∨ known = none ∧ ReadFee rpc answers p feePips := by
  have hGave := hRow 2 _ hCall
  cases known with
  | some pips => exact .inl h
  | none =>
    refine .inr ⟨rfl, ?_⟩
    cases hAnswer : answered (row 2) with
    | none =>
      rw [hAnswer] at h
      exact .inl ⟨(Option.some.inj h).symm, unread_of_answered hGave hAnswer⟩
    | some data =>
      rw [hAnswer] at h
      obtain ⟨decoded, hDecoded, h⟩ := Option.map_eq_some_iff.mp h
      obtain ⟨v, hv, rfl⟩ := Option.map_eq_some_iff.mp hDecoded
      cases v with
      | none => exact .inl ⟨h.symm, unread_of_decoded hGave hAnswer hv⟩
      | some v =>
        obtain ⟨result, hResult, hData⟩ := answered_some hAnswer
        rw [hResult] at hGave
        exact .inr ⟨result, data, v, hGave.answers hAnswers, hData, hv, h.symm⟩

theorem aeroFeeSite_from (hAnswers : AnswersEach rpc.aggregate3 answers) {x : DiscoveredPool × Nat}
    (hRow : RowGiven rpc.aggregate3 (aeroFeeCall x) row) {entry : Option (Nat × U32)}
    (h : b.aeroFeeSite x row = some entry) (default : U32) :
    FactoryFee b rpc answers x.1 default ((entry.map Prod.snd).getD default) := by
  have hGave := hRow 0 _ rfl
  unfold aeroFeeSite at h
  split at h
  · rename_i hWord
    obtain rfl := Option.some.inj h
    exact .inl ⟨rfl, _, hGave, hWord⟩
  · rename_i word hWord
    obtain ⟨-, h⟩ := Option.ite_none_left_eq_some.mp h
    obtain rfl := Option.some.inj h
    obtain ⟨data, hData, hDecoded⟩ := Option.bind_eq_some_iff.mp hWord
    obtain ⟨result, hResult, hAnswered⟩ := answered_some hData
    rw [hResult] at hGave
    exact .inr ⟨result, data, word, hGave.answers hAnswers, hAnswered, hDecoded, rfl⟩

theorem v2Site_from {x : DiscoveredPool × Nat} {aeroFees : List (Nat × U32)}
    (hDec0 : DecimalsFrom rpc answers x.1.token0 (decimalsOf decimals x.1.token0))
    (hDec1 : DecimalsFrom rpc answers x.1.token1 (decimalsOf decimals x.1.token1))
    (hFees : x.1.dex = .aeroVolatile ∨ x.1.dex = .aeroStable →
      ∀ default, FactoryFee b rpc answers x.1 default ((aeroFees.lookup x.2).getD default))
    {reg : PoolRegistration F} (h : b.v2Site decimals aeroFees x row = some (some reg)) :
    reg.From b rpc answers x.1 := by
  obtain ⟨data, -, hData⟩ := Option.bind_eq_some_iff.mp (Option.some.inj h)
  dsimp only at hData
  split at hData
  · rename_i hDex
    obtain ⟨reserves, -, rfl⟩ := Option.map_eq_some_iff.mp hData
    refine ⟨⟨rfl, rfl, rfl, rfl, rfl⟩, by simp [v2Registration, poolMeta, hDex], ?_, hDec0, hDec1⟩
    simp [FeeFrom, hDex, v2Registration, poolMeta]
  · rename_i hDex
    obtain ⟨reserves, -, rfl⟩ := Option.map_eq_some_iff.mp hData
    refine ⟨⟨rfl, rfl, rfl, rfl, rfl⟩, by simp [v2Registration, poolMeta, hDex], ?_, hDec0, hDec1⟩
    simp only [FeeFrom, hDex, v2Registration, poolMeta, if_true]
    exact ⟨hFees (.inl hDex) _, trivial⟩
  · rename_i hDex
    obtain ⟨reserves, -, rfl⟩ := Option.map_eq_some_iff.mp hData
    refine ⟨⟨rfl, rfl, rfl, rfl, rfl⟩, by simp [v2Registration, poolMeta, hDex], ?_, hDec0, hDec1⟩
    simp only [FeeFrom, hDex, v2Registration, poolMeta]
    exact ⟨hFees (.inr hDex) _, trivial⟩
  · cases hData

theorem v4Site_registration {reg : PoolRegistration F} (h : b.v4Site decimals p row = some (some reg)) :
    ∃ id sqrtPrice liquidity feePips tickSpacing currency0, p.poolId = some id ∧ p.feePips = some feePips ∧
      p.tickSpacing = some tickSpacing ∧ p.currency0Raw = some currency0 ∧
      reg = b.v4Registration decimals p id sqrtPrice liquidity feePips tickSpacing currency0 := by
  obtain ⟨id, hId, h⟩ := Option.bind_eq_some_iff.mp h
  split at h
  · split at h
    · cases Option.some.inj h
    · split at h
      · cases Option.some.inj h
      · split at h
        · cases Option.some.inj h
        · obtain ⟨feePips, hFee, h⟩ := Option.bind_eq_some_iff.mp h
          split at h
          · cases Option.some.inj h
          · obtain ⟨liquidity, -, h⟩ := Option.bind_eq_some_iff.mp h
            obtain ⟨tickSpacing, hSpacing, h⟩ := Option.bind_eq_some_iff.mp h
            obtain ⟨currency0, hCurrency, h⟩ := Option.bind_eq_some_iff.mp h
            exact ⟨id, _, _, feePips, tickSpacing, currency0, hId, hFee, hSpacing, hCurrency,
              (Option.some.inj (Option.some.inj h)).symm⟩
  · cases Option.some.inj h

section Cl

variable (hDec0 : DecimalsFrom rpc answers p.token0 (decimalsOf decimals p.token0))
  (hDec1 : DecimalsFrom rpc answers p.token1 (decimalsOf decimals p.token1))

include hDec0 hDec1

theorem v3Site_from (hAnswers : AnswersEach rpc.aggregate3 answers) (hFamily : p.dex.isV3Family = true)
    (hRow : RowGiven rpc.aggregate3 (v3Calls p) row) {reg : PoolRegistration F}
    (h : v3Site decimals p row = some (some reg)) : reg.From b rpc answers p := by
  rw [v3Site_eq] at h
  split at h
  · obtain ⟨_, -, h⟩ := Option.bind_eq_some_iff.mp h
    obtain ⟨feePips, hFee, h⟩ := Option.map_eq_some_iff.mp h
    obtain rfl := Option.some.inj h
    have hRead := feePipsOr_from hAnswers hRow rfl hFee
    refine ⟨⟨rfl, rfl, rfl, rfl, rfl⟩, ?_, ?_, hDec0, hDec1⟩
    · rw [if_neg fun hDex => absurd (isV3Family_not_v4 hFamily) (by rw [hDex]; decide)]
      rfl
    · cases hDex : p.dex <;> simp [hDex, DexTag.isV3Family] at hFamily <;>
        simpa only [FeeFrom, hDex, clRegistration, poolMeta, and_true] using hRead
  · cases Option.some.inj h

theorem algebraSite_from (hAnswers : AnswersEach rpc.aggregate3 answers) (hDex : p.dex = .algebra)
    (hRow : RowGiven rpc.aggregate3 (algebraCalls p) row) {reg : PoolRegistration F}
    (h : b.algebraSite decimals p row = some (some reg)) : reg.From b rpc answers p := by
  rw [algebraSite_eq] at h
  split at h
  · obtain ⟨_, -, h⟩ := Option.bind_eq_some_iff.mp h
    obtain ⟨feePips, hFee, h⟩ := Option.map_eq_some_iff.mp h
    obtain rfl := Option.some.inj h
    refine ⟨⟨rfl, hDex.symm, rfl, rfl, rfl⟩, by simp [clRegistration, poolMeta, hDex], ?_, hDec0, hDec1⟩
    obtain hKnown | ⟨-, hRead⟩ := feePipsOr_from hAnswers hRow rfl hFee
    · cases hKnown
    · simpa only [FeeFrom, hDex, clRegistration, poolMeta, and_true] using hRead
  · cases Option.some.inj h

theorem v4Site_from (hDex : p.dex = .uniV4) {reg : PoolRegistration F} (h : b.v4Site decimals p row = some (some reg)) :
    reg.From b rpc answers p := by
  obtain ⟨id, sqrtPrice, liquidity, feePips, tickSpacing, currency0, hId, hFee, hSpacing, hCurrency, rfl⟩ :=
    v4Site_registration h
  refine ⟨⟨rfl, hDex.symm, rfl, rfl, rfl⟩, ?_, ?_, hDec0, hDec1⟩
  · rw [if_pos hDex, DiscoveredPool.v4Meta, hId, hFee, hSpacing, hCurrency]
    rfl
  · simp only [FeeFrom, hDex]
    exact ⟨hFee, rfl⟩

end Cl

end Sites

section Run

variable {F : Type} {b : Bootstrap F} {answers : Call → CallResult → Prop} {rpc : BootstrapRpc}
  {discovered : List DiscoveredPool} {decimals : List (Address × U8)} {regs : List (PoolRegistration F)}

theorem mem_of_lookup {κ γ : Type} [BEq κ] [LawfulBEq κ] {entries : List (κ × γ)} {key : κ} {value : γ}
    (h : entries.lookup key = some value) : (key, value) ∈ entries := by
  obtain ⟨before, after, rfl, -⟩ := List.lookup_eq_some_iff.mp h
  exact List.mem_append_right _ List.mem_cons_self

theorem decimals_from (hAnswers : AnswersEach rpc.aggregate3 answers)
    (h : batched rpc.aggregate3 1 decimalsCall decimalsSite (tokenSet discovered) = some decimals) {token : Address}
    (hToken : token ∈ tokenSet discovered) : DecimalsFrom rpc answers token (decimalsOf decimals token) := by
  have hNodup : ((tokenSet discovered).map id).Nodup := by
    rw [List.map_id]
    exact tokenSet_nodup discovered
  obtain ⟨row, entry, hRow, hSite, hLookup⟩ := lookup_given h (fun _ => rfl) id hNodup decimalsSite_key hToken
  rw [decimalsOf, show token = id token from rfl, hLookup]
  exact decimalsSite_from hAnswers hRow hSite

theorem aeroFees_from (hAnswers : AnswersEach rpc.aggregate3 answers) {aeroFees : List (Nat × U32)}
    (h : batched rpc.aggregate3 1 aeroFeeCall b.aeroFeeSite (aeroPools discovered) = some aeroFees)
    {x : DiscoveredPool × Nat} (hx : x ∈ discovered.zipIdx) (hDex : x.1.dex = .aeroVolatile ∨ x.1.dex = .aeroStable)
    (default : U32) : FactoryFee b rpc answers x.1 default ((aeroFees.lookup x.2).getD default) := by
  have hAero : x ∈ aeroPools discovered := by
    rw [aeroPools, List.mem_filter, Bool.or_eq_true, decide_eq_true_iff, decide_eq_true_iff]
    exact ⟨hx, hDex⟩
  obtain ⟨row, entry, hRow, hSite, hLookup⟩ :=
    lookup_given h (fun _ => rfl) Prod.snd (aeroPools_nodup discovered) aeroFeeSite_key hAero
  rw [hLookup]
  exact aeroFeeSite_from hAnswers hRow hSite default

theorem mem_number {reg : PoolRegistration F} (h : reg ∈ number regs) :
    ∃ made ∈ regs, ∃ i, reg = { made with pool := { made.pool with idx := i } } := by
  obtain ⟨i, hi, rfl⟩ := List.mem_mapIdx.mp h
  exact ⟨regs[i], List.getElem_mem hi, i, rfl⟩

theorem registrations_from (hAnswers : AnswersEach rpc.aggregate3 answers)
    (hDecimals : ∀ token ∈ tokenSet discovered, DecimalsFrom rpc answers token (decimalsOf decimals token))
    (h : b.registrations rpc discovered decimals = some regs) {reg : PoolRegistration F} (hReg : reg ∈ regs) :
    ∃ p ∈ discovered, reg.From b rpc answers p := by
  obtain ⟨families⟩ := registrations_families h
  rw [families.joined] at hReg
  obtain ⟨made, hMade, i, rfl⟩ := mem_number hReg
  have hDec0 : ∀ p ∈ discovered, DecimalsFrom rpc answers p.token0 (decimalsOf decimals p.token0) :=
    fun p hp => hDecimals _ (mem_tokenSet.mpr ⟨p, hp, .inl rfl⟩)
  have hDec1 : ∀ p ∈ discovered, DecimalsFrom rpc answers p.token1 (decimalsOf decimals p.token1) :=
    fun p hp => hDecimals _ (mem_tokenSet.mpr ⟨p, hp, .inr rfl⟩)
  have hPool : ∃ p ∈ discovered, made.From b rpc answers p := by
    rw [List.mem_append, List.mem_append, List.mem_append] at hMade
    obtain ((hV2 | hV3) | hAlgebra) | hV4 := hMade
    · obtain ⟨x, hx, row, hSite⟩ := mem_batched families.ranV2 hV2
      have hIn := List.mem_of_mem_filter hx
      have hp := List.fst_mem_of_mem_zipIdx hIn
      exact ⟨x.1, hp, v2Site_from (hDec0 _ hp) (hDec1 _ hp) (aeroFees_from hAnswers families.ranAeroFees hIn) hSite⟩
    · obtain ⟨p, hp, row, hRow, hSite⟩ := mem_batched_given families.ranV3 (fun _ => rfl) hV3
      obtain ⟨hIn, hFamily⟩ := List.mem_filter.mp hp
      exact ⟨p, hIn, v3Site_from (hDec0 p hIn) (hDec1 p hIn) hAnswers hFamily hRow hSite⟩
    · obtain ⟨p, hp, row, hRow, hSite⟩ := mem_batched_given families.ranAlgebra (fun _ => rfl) hAlgebra
      obtain ⟨hIn, hFamily⟩ := List.mem_filter.mp hp
      exact ⟨p, hIn, algebraSite_from (hDec0 p hIn) (hDec1 p hIn) hAnswers (isAlgebra_eq hFamily) hRow hSite⟩
    · obtain ⟨p, hp, row, hSite⟩ := mem_batched families.ranV4 hV4
      obtain ⟨hIn, hFamily⟩ := List.mem_filter.mp hp
      exact ⟨p, hIn, v4Site_from (hDec0 p hIn) (hDec1 p hIn) (isV4_eq hFamily) hSite⟩
  obtain ⟨p, hp, hFrom⟩ := hPool
  exact ⟨p, hp, hFrom.renumber i⟩

theorem hydrate_from (hAnswers : AnswersEach rpc.aggregate3 answers) {found : List DiscoveredPool}
    (h : b.hydrate rpc found = some regs) {reg : PoolRegistration F} (hReg : reg ∈ regs) :
    ∃ p ∈ found, reg.From b rpc answers p := by
  obtain ⟨decimals, hDecimals, h⟩ := Option.bind_eq_some_iff.mp h
  obtain ⟨made, hMade, h⟩ := Option.bind_eq_some_iff.mp h
  obtain ⟨balances, -, h⟩ := Option.bind_eq_some_iff.mp h
  rw [← Option.some.inj h] at hReg
  obtain ⟨kept, hKept, i, rfl⟩ := mem_number hReg
  obtain ⟨p, hp, hFrom⟩ := registrations_from hAnswers (fun _ => decimals_from hAnswers hDecimals) hMade
    (List.mem_of_mem_filter hKept)
  exact ⟨p, (dedupe_fresh hp).1, hFrom.renumber i⟩

end Run

end Bootstrap

section Wiring

variable (keccak : Keccak) (layouts : DexTag → Option SlotLayout) (feeWordTrusted : Address → U64 → Nat → Option Bool)

/-- The storage of a discovered pool: the manager's slots of its pool id, or the layout of
its protocol at its own address. -/
def DiscoveredPool.storage (p : DiscoveredPool) : Option SlotPlan :=
  if p.dex = .uniV4 then p.poolId.map fun id => .cl (v4Plan keccak id)
  else (layouts p.dex).map (layoutPlan feeWordTrusted p.address)

variable {F : Type} {b : Bootstrap F} {answers : Call → CallResult → Prop} {rpc : BootstrapRpc}
  {found : List DiscoveredPool} {regs : List (PoolRegistration F)} {engine : Engine}

theorem PoolRegistration.From.plan {p : DiscoveredPool} {reg : PoolRegistration F} (h : reg.From b rpc answers p) :
    slotPlan keccak layouts feeWordTrusted reg.pool = p.storage keccak layouts feeWordTrusted := by
  unfold slotPlan DiscoveredPool.storage
  rw [h.key, h.identity.dex, h.identity.address]
  split
  · rename_i v4 hKey
    obtain ⟨hDex, hKey⟩ := Option.ite_none_right_eq_some.mp hKey
    obtain ⟨id, hId, hKey⟩ := Option.bind_eq_some_iff.mp hKey
    obtain ⟨currency0, -, hKey⟩ := Option.bind_eq_some_iff.mp hKey
    obtain ⟨feePips, -, hKey⟩ := Option.bind_eq_some_iff.mp hKey
    obtain ⟨tickSpacing, -, hKey⟩ := Option.bind_eq_some_iff.mp hKey
    cases hKey
    rw [if_pos hDex, hId]
    rfl
  · rename_i hKey
    rw [if_neg]
    intro hDex
    obtain ⟨hId, hFee, hSpacing, hCurrency⟩ := p.v4Complete hDex
    rw [if_pos hDex, DiscoveredPool.v4Meta, ← Option.some_get hId, ← Option.some_get hFee, ← Option.some_get hSpacing,
      ← Option.some_get hCurrency] at hKey
    cases hKey

theorem Engine.idx_of_hydrate (hHydrate : b.hydrate rpc found = some regs)
    (hEngine : Engine.new (regs.map PoolRegistration.pool) = some engine) {i : Nat} {pool : PoolMeta}
    (hPool : engine.metas[i]? = some pool) : pool.idx = i := by
  rw [(new_eq hEngine).1, ← Bootstrap.hydrate_reindex hHydrate, reindex, List.getElem?_mapIdx] at hPool
  obtain ⟨registered, -, rfl⟩ := Option.map_eq_some_iff.mp hPool
  rfl

theorem Engine.poolAt_iff (hHydrate : b.hydrate rpc found = some regs)
    (hEngine : Engine.new (regs.map PoolRegistration.pool) = some engine) (addr : Address) (i : Nat) :
    engine.poolAt addr = some i ↔ ∃ pool, engine.metas[i]? = some pool ∧ pool.address = addr := by
  obtain ⟨hMetas, hByAddress⟩ := new_eq hEngine
  constructor
  · intro hFound
    have hEntry := Bootstrap.mem_of_lookup hFound
    rw [hByAddress, ← hMetas] at hEntry
    obtain ⟨pool, hMem, hSame⟩ := List.mem_map.mp hEntry
    obtain ⟨hAddress, hIdx⟩ := Prod.mk.inj hSame
    obtain ⟨j, hPool⟩ := List.mem_iff_getElem?.mp hMem
    obtain rfl : j = i := (idx_of_hydrate hHydrate hEngine hPool).symm.trans hIdx
    exact ⟨pool, hPool, hAddress⟩
  · rintro ⟨pool, hPool, rfl⟩
    rw [poolAt_registered hEngine (hMetas ▸ List.mem_of_getElem? hPool), idx_of_hydrate hHydrate hEngine hPool]

/-- Whatever was discovered and answered: no address is twice in the engine, an address
and an index belong to one pool, and that pool, its fee, its decimals and its plan are
those of one discovered pool. -/
theorem pool_identities (hAnswers : AnswersEach rpc.aggregate3 answers) (hHydrate : b.hydrate rpc found = some regs)
    (hEngine : Engine.new (regs.map PoolRegistration.pool) = some engine) :
    (engine.metas.map PoolMeta.address).Nodup ∧
    (∀ addr i, engine.poolAt addr = some i ↔ ∃ pool, engine.metas[i]? = some pool ∧ pool.address = addr) ∧
    ∀ (i : Nat) (pool : PoolMeta), engine.metas[i]? = some pool → pool.idx = i ∧
      ∃ p ∈ found, ∃ reg : PoolRegistration F, regs[i]? = some reg ∧ reg.pool = pool ∧ reg.From b rpc answers p ∧
        (buildSlotPlans keccak layouts feeWordTrusted engine)[i]? = some (p.storage keccak layouts feeWordTrusted) := by
  refine ⟨Engine.new_addresses_nodup hEngine, Engine.poolAt_iff hHydrate hEngine, fun i pool hPool => ?_⟩
  have hPlan : (buildSlotPlans keccak layouts feeWordTrusted engine)[i]? =
      some (slotPlan keccak layouts feeWordTrusted pool) := by
    rw [buildSlotPlans, List.getElem?_map, hPool]
    rfl
  have hMade := hPool
  rw [(Engine.new_eq hEngine).1, List.getElem?_map] at hMade
  obtain ⟨reg, hReg, rfl⟩ := Option.map_eq_some_iff.mp hMade
  obtain ⟨p, hp, hFrom⟩ := Bootstrap.hydrate_from hAnswers hHydrate (List.mem_of_getElem? hReg)
  refine ⟨Engine.idx_of_hydrate hHydrate hEngine hPool, p, hp, reg, hReg, rfl, hFrom, ?_⟩
  rw [hPlan, hFrom.plan]

end Wiring

section Sample

open Bootstrap

def pairsFound : List DiscoveredPool :=
  [sampleFound 7#160 1#160 2#160, sampleFound 7#160 4#160 5#160, sampleFound 8#160 2#160 4#160]

theorem hostileToken_answers : AnswersEach hostileToken.aggregate3 fun call result =>
    (hostileToken.aggregate3 [call])[0]? = some result := by
  intro asked i result hResult
  simp only [hostileToken, List.getElem?_map] at hResult
  obtain ⟨call, hCall, rfl⟩ := Option.map_eq_some_iff.mp hResult
  exact ⟨call, hCall, rfl⟩

theorem pairsFound_wired : ∃ engine : Engine, engine.metas.length = 2 ∧
    (engine.metas.map PoolMeta.address).Nodup ∧
    (∀ addr i, engine.poolAt addr = some i ↔ ∃ pool, engine.metas[i]? = some pool ∧ pool.address = addr) := by
  have hRun : ((sampleBootstrap.hydrate hostileToken pairsFound).bind fun regs =>
      (Engine.new (regs.map PoolRegistration.pool)).filter fun engine => engine.metas.length = 2).isSome := by
    decide +kernel
  obtain ⟨engine, hRun⟩ := Option.isSome_iff_exists.mp hRun
  obtain ⟨regs, hHydrate, hRun⟩ := Option.bind_eq_some_iff.mp hRun
  obtain ⟨hEngine, hLength⟩ := Option.filter_eq_some_iff.mp hRun
  have hWired := pool_identities (fun _ => 0#256) (fun _ => some (.v2Packed 8#64)) (fun _ _ _ => none)
    hostileToken_answers hHydrate hEngine
  exact ⟨engine, of_decide_eq_true hLength, hWired.1, hWired.2.1⟩

end Sample

end Robinarb
