import Robinarb.Ingest.Bootstrap

/-! # The words of a bootstrap

A bootstrap ends in registrations exactly when the words at its decode sites are narrow
enough. What its sites make of their answers is said here once, site by site.
-/

namespace Robinarb

open Batch

def FitsU128 (data : List U8) : Prop := data.length < 32 ∨ (leadingWord data).toNat < 2 ^ 128

theorem decodeU128_isSome_iff {data : List U8} : (decodeU128 data).isSome ↔ FitsU128 data := by
  unfold decodeU128 FitsU128
  split
  · simp [*]
  · split
    · simp only [Option.isSome_none, Bool.false_eq_true, false_iff]
      omega
    · simp only [Option.isSome_some, true_iff]
      omega

/-- The `j`-th answer of an item, if there is one, decodes as a `u128`. -/
def AnswerFits (row : Nat → Option CallResult) (j : Nat) : Prop := ∀ data, answered (row j) = some data → FitsU128 data

theorem feePipsOr_isSome_iff {known : Option U32} {row : Nat → Option CallResult} {j : Nat} :
    (feePipsOr known (answered (row j))).isSome ↔ (known = none → AnswerFits row j) := by
  unfold AnswerFits
  cases known with
  | some pips => simp [feePipsOr]
  | none =>
    cases answered (row j) with
    | none => simp [feePipsOr, decodeFee]
    | some data => simp [feePipsOr, decodeFee, decodeU128_isSome_iff]

def PoolRegistration.unnumbered {F : Type} (reg : PoolRegistration F) : PoolRegistration F :=
  { reg with pool := { reg.pool with idx := 0 } }

/-- The identity a registration takes over from the pool it is made of. -/
structure PoolRegistration.Of {F : Type} (p : DiscoveredPool) (reg : PoolRegistration F) : Prop where
  address : reg.pool.address = p.address
  dex : reg.pool.dex = p.dex
  factory : reg.factory = p.factory
  token0 : reg.pool.token0 = p.token0
  token1 : reg.pool.token1 = p.token1

namespace Bootstrap

variable {F : Type} (b : Bootstrap F)

section Narrow

def AeroFeeNarrow (row : Nat → Option CallResult) : Prop :=
  ∀ fee, (answered (row 0)).bind b.decoders.uint256 = some fee → fee.toNat < 2 ^ 32

def V3Narrow (p : DiscoveredPool) (row : Nat → Option CallResult) : Prop :=
  v3Live row = true → AnswerFits row 1 ∧ (p.feePips = none → AnswerFits row 2)

def AlgebraNarrow (row : Nat → Option CallResult) : Prop :=
  b.algebraLive row = true → AnswerFits row 1 ∧ AnswerFits row 2

def V4Narrow (p : DiscoveredPool) (row : Nat → Option CallResult) : Prop :=
  b.v4Live p.feePips row = true → AnswerFits row 1

variable {b} {decimals : List (Address × U8)} {p : DiscoveredPool} {row : Nat → Option CallResult}

theorem decimalsSite_isSome_iff {token : Address} : (decimalsSite token row).isSome ↔ AnswerFits row 0 := by
  unfold decimalsSite AnswerFits
  cases hRow : row 0 with
  | none => simp [answered]
  | some result =>
    cases hAnswer : answered (some result) with
    | none => simp [hAnswer]
    | some data => simp [hAnswer, decodeU128_isSome_iff]

theorem aeroFeeSite_isSome_iff {x : DiscoveredPool × Nat} : (b.aeroFeeSite x row).isSome ↔ b.AeroFeeNarrow row := by
  unfold aeroFeeSite AeroFeeNarrow
  cases (answered (row 0)).bind b.decoders.uint256 with
  | none => simp
  | some fee =>
    simp only [Option.some.injEq, forall_eq']
    split <;> simp <;> omega

theorem v3Site_eq : v3Site (F := F) decimals p row =
    if v3Live row then ((answered (row 1)).bind decodeU128).bind fun _ =>
      (feePipsOr p.feePips (answered (row 2))).map fun feePips => some (clRegistration decimals p p.dex feePips)
    else some none := by
  unfold v3Site v3Live
  cases hFirst : answered (row 0) with
  | none => simp
  | some s =>
    cases hSecond : answered (row 1) with
    | none => simp
    | some l =>
      cases hSlot0 : decodeSlot0 s with
      | none => simp [hSlot0]
      | some slot0 => simp [hSlot0, Option.map_eq_bind]

theorem algebraSite_eq : b.algebraSite decimals p row =
    if b.algebraLive row then ((answered (row 1)).bind decodeU128).bind fun _ =>
      (feePipsOr none (answered (row 2))).map fun feePips => some (clRegistration decimals p .algebra feePips)
    else some none := by
  unfold algebraSite algebraLive
  cases hFirst : answered (row 0) with
  | none => simp
  | some gs =>
    cases hSecond : answered (row 1) with
    | none => simp
    | some l =>
      cases hState : b.decoders.globalState gs with
      | none => simp [hState]
      | some state =>
        by_cases hPrice : state.price = 0#160
        · simp [hState, hPrice]
        · simp [hState, hPrice, Option.map_eq_bind]

theorem v4Site_eq (hDex : p.dex = .uniV4) : if b.v4Live p.feePips row then
      ∃ register : Option U128 → PoolRegistration F,
        (∀ liquidity, (register liquidity).Of p ∧ (register liquidity).gate.isSome ∧
          (register liquidity).pool.v4 = p.v4Meta) ∧ b.v4Site decimals p row = ((answered (row 1)).bind decodeU128).map fun liquidity => some (register liquidity)
    else b.v4Site decimals p row = some none := by
  obtain ⟨hId, hFee, hSpacing, hCurrency⟩ := p.v4Complete hDex
  obtain ⟨id, hId⟩ := Option.isSome_iff_exists.mp hId
  obtain ⟨feePips, hFee⟩ := Option.isSome_iff_exists.mp hFee
  obtain ⟨tickSpacing, hSpacing⟩ := Option.isSome_iff_exists.mp hSpacing
  obtain ⟨currency0, hCurrency⟩ := Option.isSome_iff_exists.mp hCurrency
  have hMeta : p.v4Meta = some ⟨id, currency0, p.token1, feePips, tickSpacing⟩ := by
    rw [DiscoveredPool.v4Meta, hId, hFee, hSpacing, hCurrency]
    rfl
  unfold v4Site v4Live
  rw [hId, hFee]
  cases hFirst : answered (row 0) with
  | none => simp
  | some s =>
    cases hSecond : answered (row 1) with
    | none => simp
    | some l =>
      cases hState : b.decoders.stateViewSlot0 s with
      | none => simp [hState]
      | some slot0 =>
        by_cases hPrice : slot0.sqrtPriceX96 = 0#160
        · simp [hState, hPrice]
        · by_cases hProtocol : slot0.protocolFee = 0#24
          · by_cases hLp : slot0.lpFee.setWidth 32 = feePips
            · rw [if_pos (by simp [hState, hPrice, hProtocol, hLp])]
              refine ⟨fun liquidity => b.v4Registration decimals p id (slot0.sqrtPriceX96.setWidth 256)
                (liquidity.getD 0#128) feePips tickSpacing currency0, fun _ => ⟨⟨rfl, hDex.symm, rfl, rfl, rfl⟩, rfl, hMeta.symm⟩, ?_⟩
              simp [hState, hPrice, hProtocol, hLp, hSpacing, hCurrency, Option.map_eq_bind]
            · simp [hState, hPrice, hProtocol, hLp, Ne.symm hLp]
          · simp [hState, hPrice, hProtocol]

theorem bind_decodeU128_isSome_iff {j : Nat} (hAnswered : (answered (row j)).isSome) :
    ((answered (row j)).bind decodeU128).isSome ↔ AnswerFits row j := by
  obtain ⟨data, hData⟩ := Option.isSome_iff_exists.mp hAnswered
  rw [hData, Option.bind_some, decodeU128_isSome_iff, AnswerFits, hData]
  simp

theorem v3Site_isSome_iff : (v3Site (F := F) decimals p row).isSome ↔ V3Narrow p row := by
  rw [v3Site_eq, V3Narrow]
  cases hLive : v3Live row with
  | false => simp
  | true =>
    rw [if_pos rfl, isSome_bind_iff fun _ _ => by rw [Option.isSome_map, feePipsOr_isSome_iff],
      bind_decodeU128_isSome_iff (Bool.and_eq_true_iff.mp hLive).1]
    exact ⟨fun h _ => h, fun h => h rfl⟩

theorem algebraSite_isSome_iff : (b.algebraSite decimals p row).isSome ↔ b.AlgebraNarrow row := by
  rw [algebraSite_eq, AlgebraNarrow]
  cases hLive : b.algebraLive row with
  | false => simp
  | true =>
    rw [if_pos rfl, isSome_bind_iff fun _ _ => by rw [Option.isSome_map, feePipsOr_isSome_iff],
      bind_decodeU128_isSome_iff (Bool.and_eq_true_iff.mp hLive).1]
    simp

theorem isAlgebra_eq (h : p.dex.isAlgebra = true) : p.dex = .algebra := by
  cases hDex : p.dex <;> simp [hDex, DexTag.isAlgebra] at h ⊢

theorem isV4_eq (h : p.dex.isV4 = true) : p.dex = .uniV4 := by
  cases hDex : p.dex <;> simp [hDex, DexTag.isV4] at h ⊢

theorem v2Pools_not_v4 {discovered : List DiscoveredPool} {x : DiscoveredPool × Nat}
    (h : x ∈ v2Pools discovered) : x.1.dex.isV4 = false := by
  have hFamily := (List.mem_filter.mp h).2
  cases hDex : x.1.dex <;> simp [hDex, DexTag.isV2Family] at hFamily <;> rfl

theorem isV3Family_not_v4 (h : p.dex.isV3Family = true) : p.dex.isV4 = false := by
  cases hDex : p.dex <;> simp [hDex, DexTag.isV3Family] at h <;> rfl

theorem v4Site_isSome_iff (hDex : p.dex = .uniV4) : (b.v4Site decimals p row).isSome ↔ b.V4Narrow p row := by
  have hSite := @v4Site_eq _ b decimals _ row hDex
  rw [V4Narrow]
  cases hLive : b.v4Live p.feePips row with
  | false =>
    rw [hLive, if_neg Bool.false_ne_true] at hSite
    simp [hSite]
  | true =>
    rw [hLive, if_pos rfl] at hSite
    obtain ⟨_, -, hSite⟩ := hSite
    rw [hSite, Option.isSome_map, bind_decodeU128_isSome_iff (Bool.and_eq_true_iff.mp hLive).1]
    exact ⟨fun h _ => h, fun h => h rfl⟩

theorem balanceSite_isSome_iff {target : Address × GateAnchor F} :
    (b.balanceSite target row).isSome ↔ AnswerFits row 0 := by
  unfold balanceSite AnswerFits
  cases answered (row 0) with
  | none => simp
  | some data => simp [decodeU128_isSome_iff]

theorem v2Site_made {aeroFees : List (Nat × U32)} {x : DiscoveredPool × Nat} {reg : PoolRegistration F}
    (h : b.v2Site decimals aeroFees x row = some (some reg)) : reg.Of x.1 ∧ reg.gate.isSome := by
  obtain ⟨data, -, hData⟩ := Option.bind_eq_some_iff.mp (Option.some.inj h)
  dsimp only at hData
  split at hData
  · obtain ⟨reserves, -, rfl⟩ := Option.map_eq_some_iff.mp hData
    exact ⟨⟨rfl, rfl, rfl, rfl, rfl⟩, rfl⟩
  · obtain ⟨reserves, -, rfl⟩ := Option.map_eq_some_iff.mp hData
    exact ⟨⟨rfl, rfl, rfl, rfl, rfl⟩, rfl⟩
  · obtain ⟨reserves, -, rfl⟩ := Option.map_eq_some_iff.mp hData
    exact ⟨⟨rfl, rfl, rfl, rfl, rfl⟩, rfl⟩
  · cases hData

/-- What the sites of the concentrated pools make of an item, when they make anything. -/
def ClEntry (p : DiscoveredPool) (live : Bool) (entry : Option (PoolRegistration F)) : Prop :=
  ∃ reg : PoolRegistration F, reg.Of p ∧ reg.gate = none ∧ entry = if live then some reg else none

theorem ClEntry.some {live : Bool} {reg : PoolRegistration F} (h : ClEntry p live (some reg)) :
    reg.Of p ∧ reg.gate = none := by
  obtain ⟨made, hOf, hGate, hEntry⟩ := h
  obtain ⟨-, hMade⟩ := Option.ite_none_right_eq_some.mp hEntry.symm
  obtain rfl := Option.some.inj hMade
  exact ⟨hOf, hGate⟩

theorem v3Site_made {entry : Option (PoolRegistration F)} (h : v3Site decimals p row = some entry) :
    ClEntry p (v3Live row) entry := by
  rw [v3Site_eq] at h
  split at h
  · rename_i hLive
    obtain ⟨_, -, h⟩ := Option.bind_eq_some_iff.mp h
    obtain ⟨feePips, -, rfl⟩ := Option.map_eq_some_iff.mp h
    exact ⟨_, ⟨rfl, rfl, rfl, rfl, rfl⟩, rfl, (if_pos hLive).symm⟩
  · rename_i hDead
    obtain rfl := Option.some.inj h
    exact ⟨clRegistration decimals p p.dex 0#32, ⟨rfl, rfl, rfl, rfl, rfl⟩, rfl, (if_neg hDead).symm⟩

theorem algebraSite_made (hDex : p.dex = .algebra) {entry : Option (PoolRegistration F)}
    (h : b.algebraSite decimals p row = some entry) : ClEntry p (b.algebraLive row) entry := by
  rw [algebraSite_eq] at h
  split at h
  · rename_i hLive
    obtain ⟨_, -, h⟩ := Option.bind_eq_some_iff.mp h
    obtain ⟨feePips, -, rfl⟩ := Option.map_eq_some_iff.mp h
    exact ⟨_, ⟨rfl, hDex.symm, rfl, rfl, rfl⟩, rfl, (if_pos hLive).symm⟩
  · rename_i hDead
    obtain rfl := Option.some.inj h
    exact ⟨clRegistration decimals p .algebra 0#32, ⟨rfl, hDex.symm, rfl, rfl, rfl⟩, rfl, (if_neg hDead).symm⟩

theorem v4Site_made (hDex : p.dex = .uniV4) {reg : PoolRegistration F}
    (h : b.v4Site decimals p row = some (some reg)) : reg.Of p ∧ reg.gate.isSome ∧ reg.pool.v4 = p.v4Meta := by
  have hSite := @v4Site_eq _ b decimals _ row hDex
  split at hSite
  · obtain ⟨register, hRegister, hEq⟩ := hSite
    rw [hEq] at h
    obtain ⟨liquidity, -, hReg⟩ := Option.map_eq_some_iff.mp h
    obtain rfl := Option.some.inj hReg
    exact hRegister liquidity
  · rw [hSite] at h
    cases Option.some.inj h

end Narrow

section Totality

/-- The concentrated pools that are registered, and the balances asked of them. -/
def livePools (rpc : BootstrapRpc) (discovered : List DiscoveredPool) : List DiscoveredPool :=
  selected rpc.aggregate3 3 v3Calls v3Live (v3Pools discovered) ++
    selected rpc.aggregate3 3 algebraCalls b.algebraLive (algebraPools discovered)

def liveTargets (rpc : BootstrapRpc) (discovered : List DiscoveredPool) : List (Address × GateAnchor F) :=
  (b.livePools rpc discovered).flatMap fun p => b.balanceTargets p.address p.token0 p.token1

structure NarrowWords (rpc : BootstrapRpc) (discovered : List DiscoveredPool) : Prop where
  decimals : Each rpc.aggregate3 1 decimalsCall (fun _ row => AnswerFits row 0) (tokenSet discovered)
  aeroFees : Each rpc.aggregate3 1 aeroFeeCall (fun _ => b.AeroFeeNarrow) (aeroPools discovered)
  v3 : Each rpc.aggregate3 3 v3Calls V3Narrow (v3Pools discovered)
  algebra : Each rpc.aggregate3 3 algebraCalls (fun _ => b.AlgebraNarrow) (algebraPools discovered)
  v4 : Each rpc.aggregate3 2 v4Calls b.V4Narrow (v4Pools discovered)
  balances : b.enforceLiquidity = true →
    Each rpc.aggregate3 1 balanceCall (fun _ row => AnswerFits row 0) (b.liveTargets rpc discovered)

variable {b} {rpc : BootstrapRpc} {discovered : List DiscoveredPool} {decimals : List (Address × U8)}
  {regs : List (PoolRegistration F)}

/-- The families of a finished run. -/
structure Families (b : Bootstrap F) (rpc : BootstrapRpc) (discovered : List DiscoveredPool)
    (decimals : List (Address × U8)) (regs : List (PoolRegistration F)) where
  aeroFees : List (Nat × U32)
  v2 : List (PoolRegistration F)
  v3 : List (PoolRegistration F)
  algebra : List (PoolRegistration F)
  v4 : List (PoolRegistration F)
  ranAeroFees : batched rpc.aggregate3 1 aeroFeeCall b.aeroFeeSite (aeroPools discovered) = some aeroFees
  ranV2 : batched rpc.aggregate3 1 reservesCall (b.v2Site decimals aeroFees) (v2Pools discovered) = some v2
  ranV3 : batched rpc.aggregate3 3 v3Calls (v3Site decimals) (v3Pools discovered) = some v3
  ranAlgebra : batched rpc.aggregate3 3 algebraCalls (b.algebraSite decimals) (algebraPools discovered) = some algebra
  ranV4 : batched rpc.aggregate3 2 v4Calls (b.v4Site decimals) (v4Pools discovered) = some v4
  joined : regs = number (v2 ++ v3 ++ algebra ++ v4)

theorem registrations_families (h : b.registrations rpc discovered decimals = some regs) :
    Nonempty (Families b rpc discovered decimals regs) := by
  obtain ⟨aeroFees, hAeroFees, h⟩ := Option.bind_eq_some_iff.mp h
  obtain ⟨v2, hV2, h⟩ := Option.bind_eq_some_iff.mp h
  obtain ⟨v3, hV3, h⟩ := Option.bind_eq_some_iff.mp h
  obtain ⟨algebra, hAlgebra, h⟩ := Option.bind_eq_some_iff.mp h
  obtain ⟨v4, hV4, h⟩ := Option.bind_eq_some_iff.mp h
  exact ⟨⟨aeroFees, v2, v3, algebra, v4, hAeroFees, hV2, hV3, hAlgebra, hV4, (Option.some.inj h).symm⟩⟩

theorem registrations_isSome_iff : (b.registrations rpc discovered decimals).isSome ↔
    Each rpc.aggregate3 1 aeroFeeCall (fun _ => b.AeroFeeNarrow) (aeroPools discovered) ∧
      Each rpc.aggregate3 3 v3Calls V3Narrow (v3Pools discovered) ∧
      Each rpc.aggregate3 3 algebraCalls (fun _ => b.AlgebraNarrow) (algebraPools discovered) ∧
      Each rpc.aggregate3 2 v4Calls b.V4Narrow (v4Pools discovered) := by
  have hAeroFees : (batched rpc.aggregate3 1 aeroFeeCall b.aeroFeeSite (aeroPools discovered)).isSome ↔ _ :=
    batched_isSome_iff fun _ _ _ => aeroFeeSite_isSome_iff
  have hV2 : ∀ aeroFees,
      (batched rpc.aggregate3 1 reservesCall (b.v2Site decimals aeroFees) (v2Pools discovered)).isSome := fun aeroFees =>
    (batched_isSome_iff (P := fun _ _ => True) fun _ _ _ => iff_true_intro rfl).mpr fun _ _ _ => trivial
  have hV3 : (batched rpc.aggregate3 3 v3Calls (v3Site (F := F) decimals) (v3Pools discovered)).isSome ↔ _ :=
    batched_isSome_iff fun _ _ _ => v3Site_isSome_iff
  have hAlgebra : (batched rpc.aggregate3 3 algebraCalls (b.algebraSite decimals) (algebraPools discovered)).isSome ↔ _ :=
    batched_isSome_iff fun _ _ _ => algebraSite_isSome_iff
  have hV4 : (batched rpc.aggregate3 2 v4Calls (b.v4Site decimals) (v4Pools discovered)).isSome ↔ _ :=
    batched_isSome_iff fun p hp _ => v4Site_isSome_iff (isV4_eq (List.mem_filter.mp hp).2)
  refine (isSome_bind_iff fun aeroFees _ => ?_).trans (and_congr_left' hAeroFees)
  refine (isSome_bind_iff fun v2 _ => ?_).trans (and_iff_right (hV2 aeroFees))
  refine (isSome_bind_iff fun v3 _ => ?_).trans (and_congr_left' hV3)
  refine (isSome_bind_iff fun algebra _ => ?_).trans (and_congr_left' hAlgebra)
  refine (isSome_bind_iff fun v4 _ => ?_).trans ((and_iff_left trivial).trans hV4)
  exact iff_true_intro rfl

theorem number_unnumbered (regs : List (PoolRegistration F)) :
    (number regs).map PoolRegistration.unnumbered = regs.map PoolRegistration.unnumbered := by
  apply List.ext_getElem
  · simp [number]
  · intro i hi hi'
    simp [number, PoolRegistration.unnumbered]

theorem targetsOf_unnumbered (regs : List (PoolRegistration F)) :
    b.targetsOf (regs.map PoolRegistration.unnumbered) = b.targetsOf regs := by
  rw [targetsOf, List.filter_map, List.flatMap_map]
  rfl

theorem targetsOf_number (regs : List (PoolRegistration F)) : b.targetsOf (number regs) = b.targetsOf regs := by
  rw [← targetsOf_unnumbered, number_unnumbered, targetsOf_unnumbered]

theorem clFamily_targets {k : Nat} {requests : DiscoveredPool → List Call}
    {site : DiscoveredPool → (Nat → Option CallResult) → Option (Option (PoolRegistration F))}
    {items : List DiscoveredPool} {live : (Nat → Option CallResult) → Bool}
    (h : batched rpc.aggregate3 k requests site items = some regs)
    (hMade : ∀ p ∈ items, ∀ row entry, site p row = some entry → ClEntry p (live row) entry) :
    b.targetsOf regs = (selected rpc.aggregate3 k requests live items).flatMap fun p =>
      b.balanceTargets p.address p.token0 p.token1 := by
  have hUngated : regs.filter (fun reg => reg.gate.isNone) = regs := by
    rw [List.filter_eq_self]
    intro reg hReg
    obtain ⟨p, hp, row, hSite⟩ := mem_batched h hReg
    rw [(hMade p hp row _ hSite).some.2]
    rfl
  rw [targetsOf, hUngated, List.flatMap_def, List.flatMap_def]
  apply congrArg List.flatten
  refine batched_map h fun p hp row entry hSite => ?_
  obtain ⟨reg, hOf, -, rfl⟩ := hMade p hp row entry hSite
  rw [apply_ite (Option.map _), Option.map_some, hOf.address, hOf.token0, hOf.token1]
  rfl

theorem targetsOf_gated (hGated : ∀ reg ∈ regs, reg.gate.isSome) : b.targetsOf regs = [] := by
  have hNone : regs.filter (fun reg => reg.gate.isNone) = [] := by
    rw [List.filter_eq_nil_iff]
    intro reg hReg
    rw [Option.isNone_iff_eq_none, ← Option.not_isSome_iff_eq_none, not_not]
    exact hGated reg hReg
  rw [targetsOf, hNone]
  rfl

theorem targetsOf_append (regs others : List (PoolRegistration F)) :
    b.targetsOf (regs ++ others) = b.targetsOf regs ++ b.targetsOf others := by
  rw [targetsOf, List.filter_append, List.flatMap_append]
  rfl

theorem targetsOf_registrations (h : b.registrations rpc discovered decimals = some regs) :
    b.targetsOf regs = b.liveTargets rpc discovered := by
  obtain ⟨families⟩ := registrations_families h
  have hV2 : b.targetsOf families.v2 = [] := targetsOf_gated fun reg hReg => by
    obtain ⟨x, -, row, hSite⟩ := mem_batched families.ranV2 hReg
    exact (v2Site_made hSite).2
  have hV4 : b.targetsOf families.v4 = [] := targetsOf_gated fun reg hReg => by
    obtain ⟨p, hp, row, hSite⟩ := mem_batched families.ranV4 hReg
    exact (v4Site_made (isV4_eq (List.mem_filter.mp hp).2) hSite).2.1
  have hV3 := clFamily_targets (b := b) families.ranV3 fun p _ row entry => v3Site_made
  have hAlgebra := clFamily_targets (b := b) families.ranAlgebra fun p hp row entry =>
    algebraSite_made (isAlgebra_eq (List.mem_filter.mp hp).2)
  rw [families.joined, targetsOf_number, targetsOf_append, targetsOf_append, targetsOf_append, hV2, hV4, hV3, hAlgebra,
    List.nil_append, List.append_nil, liveTargets, livePools, List.flatMap_append]

theorem hydrate_isSome_iff {found : List DiscoveredPool} :
    (b.hydrate rpc found).isSome ↔ b.NarrowWords rpc (dedupe [] found) := by
  have hDecimals : (batched rpc.aggregate3 1 decimalsCall decimalsSite (tokenSet (dedupe [] found))).isSome ↔ _ :=
    batched_isSome_iff fun _ _ _ => decimalsSite_isSome_iff
  have hBalances : ∀ decimals regs, b.registrations rpc (dedupe [] found) decimals = some regs →
      ((b.anchorBalances rpc regs).isSome ↔ (b.enforceLiquidity = true →
        Each rpc.aggregate3 1 balanceCall (fun _ row => AnswerFits row 0) (b.liveTargets rpc (dedupe [] found)))) := by
    intro decimals regs hRegs
    rw [anchorBalances, targetsOf_registrations hRegs]
    split
    · rename_i hEnforce
      rw [batched_isSome_iff fun _ _ _ => balanceSite_isSome_iff]
      exact ⟨fun h _ => h, fun h => h hEnforce⟩
    · rename_i hNot
      exact iff_of_true rfl fun hEnforce => absurd hEnforce hNot
  have hRun : (b.hydrate rpc found).isSome ↔ _ :=
    (isSome_bind_iff fun decimals _ => (isSome_bind_iff fun regs hRegs =>
      (isSome_bind_iff fun balances _ => iff_true_intro rfl).trans
        ((and_iff_left trivial).trans (hBalances decimals regs hRegs))).trans
          (and_congr_left' registrations_isSome_iff)).trans (and_congr_left' hDecimals)
  rw [hRun]
  constructor
  · rintro ⟨hDecimals, ⟨hAeroFees, hV3, hAlgebra, hV4⟩, hBalances⟩
    exact ⟨hDecimals, hAeroFees, hV3, hAlgebra, hV4, hBalances⟩
  · rintro ⟨hDecimals, hAeroFees, hV3, hAlgebra, hV4, hBalances⟩
    exact ⟨hDecimals, ⟨hAeroFees, hV3, hAlgebra, hV4⟩, hBalances⟩

theorem registrations_of (h : b.registrations rpc discovered decimals = some regs) {reg : PoolRegistration F}
    (hReg : reg ∈ regs.map PoolRegistration.unnumbered) :
    ∃ p ∈ discovered, reg.Of p ∧ (p.dex = .uniV4 → reg.pool.v4 = p.v4Meta) := by
  obtain ⟨families⟩ := registrations_families h
  rw [families.joined, number_unnumbered] at hReg
  obtain ⟨made, hMade, rfl⟩ := List.mem_map.mp hReg
  have hPool : ∃ p ∈ discovered, made.Of p ∧ (p.dex = .uniV4 → made.pool.v4 = p.v4Meta) := by
    rw [List.mem_append, List.mem_append, List.mem_append] at hMade
    obtain ((hV2 | hV3) | hAlgebra) | hV4 := hMade
    · obtain ⟨x, hx, row, hSite⟩ := mem_batched families.ranV2 hV2
      refine ⟨x.1, List.fst_mem_of_mem_zipIdx (List.mem_of_mem_filter hx), (v2Site_made hSite).1, fun hDex => ?_⟩
      exact absurd (v2Pools_not_v4 hx) (by rw [hDex]; decide)
    · obtain ⟨p, hp, row, hSite⟩ := mem_batched families.ranV3 hV3
      refine ⟨p, List.mem_of_mem_filter hp, (v3Site_made hSite).some.1, fun hDex => ?_⟩
      exact absurd (isV3Family_not_v4 (List.mem_filter.mp hp).2) (by rw [hDex]; decide)
    · obtain ⟨p, hp, row, hSite⟩ := mem_batched families.ranAlgebra hAlgebra
      have hFamily := isAlgebra_eq (List.mem_filter.mp hp).2
      refine ⟨p, List.mem_of_mem_filter hp, (algebraSite_made hFamily hSite).some.1, fun hDex => ?_⟩
      exact absurd (hFamily.symm.trans hDex) (by decide)
    · obtain ⟨p, hp, row, hSite⟩ := mem_batched families.ranV4 hV4
      have hMade := v4Site_made (isV4_eq (List.mem_filter.mp hp).2) hSite
      exact ⟨p, List.mem_of_mem_filter hp, hMade.1, fun _ => hMade.2.2⟩
  obtain ⟨p, hp, hOf, hV4⟩ := hPool
  exact ⟨p, hp, ⟨hOf.address, hOf.dex, hOf.factory, hOf.token0, hOf.token1⟩, hV4⟩

theorem hydrate_of {found : List DiscoveredPool} (h : b.hydrate rpc found = some regs) {reg : PoolRegistration F}
    (hReg : reg ∈ regs) : ∃ p ∈ found, reg.Of p ∧ (p.dex = .uniV4 → reg.pool.v4 = p.v4Meta) := by
  obtain ⟨decimals, -, h⟩ := Option.bind_eq_some_iff.mp h
  obtain ⟨made, hMade, h⟩ := Option.bind_eq_some_iff.mp h
  obtain ⟨balances, -, h⟩ := Option.bind_eq_some_iff.mp h
  have hUnnumbered : reg.unnumbered ∈ regs.map PoolRegistration.unnumbered := List.mem_map_of_mem hReg
  rw [← Option.some.inj h, number_unnumbered] at hUnnumbered
  obtain ⟨kept, hKept, hSame⟩ := List.mem_map.mp hUnnumbered
  have hMem : reg.unnumbered ∈ made.map PoolRegistration.unnumbered :=
    hSame ▸ List.mem_map_of_mem (List.mem_of_mem_filter hKept)
  obtain ⟨p, hp, hOf, hV4⟩ := registrations_of hMade hMem
  exact ⟨p, (dedupe_fresh hp).1, ⟨hOf.address, hOf.dex, hOf.factory, hOf.token0, hOf.token1⟩, hV4⟩

theorem hydrate_reindex {found : List DiscoveredPool} (h : b.hydrate rpc found = some regs) :
    Engine.reindex (regs.map PoolRegistration.pool) = regs.map PoolRegistration.pool := by
  obtain ⟨decimals, -, h⟩ := Option.bind_eq_some_iff.mp h
  obtain ⟨made, -, h⟩ := Option.bind_eq_some_iff.mp h
  obtain ⟨balances, -, h⟩ := Option.bind_eq_some_iff.mp h
  rw [← Option.some.inj h]
  apply List.ext_getElem
  · simp [Engine.reindex]
  · intro i hi hi'
    simp [Engine.reindex, number]

end Totality

end Bootstrap

end Robinarb
