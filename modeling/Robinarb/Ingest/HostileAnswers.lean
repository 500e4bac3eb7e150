import Robinarb.Ingest.BootstrapWords

/-! # Bootstrap over hostile answers

Of two bootstraps that end, and differ in what one contract answers, the registrations
that do not involve that contract are the same up to their numbers.
-/

namespace Robinarb

open Batch

/-- The contract is the pool, one of its tokens, or what is asked in the pool's place. -/
def involves (hostile : Address) (dex : DexTag) (address factory token0 token1 : Address) : Bool :=
  (if dex.isV4 then decide (univ4StateView = hostile) else decide (address = hostile)) ||
    ((decide (dex = .aeroVolatile) || decide (dex = .aeroStable)) && decide (factory = hostile)) ||
    decide (token0 = hostile) || decide (token1 = hostile)

def DiscoveredPool.avoids (hostile : Address) (p : DiscoveredPool) : Bool :=
  !involves hostile p.dex p.address p.factory p.token0 p.token1

def PoolRegistration.avoids {F : Type} (hostile : Address) (reg : PoolRegistration F) : Bool :=
  !involves hostile reg.pool.dex reg.pool.address reg.factory reg.pool.token0 reg.pool.token1

theorem PoolRegistration.Of.avoids_eq {F : Type} {p : DiscoveredPool} {reg : PoolRegistration F} (h : reg.Of p)
    (hostile : Address) : reg.avoids hostile = p.avoids hostile := by
  rw [PoolRegistration.avoids, h.dex, h.address, h.factory, h.token0, h.token1]
  rfl

/-- Two chains that answer alike but for one contract. -/
structure AgreeOff (hostile : Address) (answer : Call → CallResult) (rpc rpc' : BootstrapRpc) : Prop where
  first : AnswersAs rpc.aggregate3 (fun call => call.target ≠ hostile) answer
  second : AnswersAs rpc'.aggregate3 (fun call => call.target ≠ hostile) answer
  probes : ∀ token, token ≠ hostile → rpc.probeToken token = rpc'.probeToken token

section Avoids

variable {hostile : Address} {p : DiscoveredPool}

theorem avoids_tokens (h : p.avoids hostile = true) : p.token0 ≠ hostile ∧ p.token1 ≠ hostile := by
  simp only [DiscoveredPool.avoids, involves, Bool.not_eq_true', Bool.or_eq_false_iff, decide_eq_false_iff_not] at h
  exact ⟨h.1.2, h.2⟩

theorem avoids_address (h : p.avoids hostile = true) (hDex : p.dex.isV4 = false) : p.address ≠ hostile := by
  simp only [DiscoveredPool.avoids, involves, hDex, Bool.not_eq_true', Bool.or_eq_false_iff, decide_eq_false_iff_not,
    Bool.false_eq_true, if_false] at h
  exact h.1.1.1

theorem avoids_stateView (h : p.avoids hostile = true) (hDex : p.dex.isV4 = true) : univ4StateView ≠ hostile := by
  simp only [DiscoveredPool.avoids, involves, hDex, Bool.not_eq_true', Bool.or_eq_false_iff, decide_eq_false_iff_not,
    if_true] at h
  exact h.1.1.1

theorem avoids_factory (h : p.avoids hostile = true) (hDex : p.dex = .aeroVolatile ∨ p.dex = .aeroStable) :
    p.factory ≠ hostile := by
  simp only [DiscoveredPool.avoids, involves, Bool.not_eq_true', Bool.or_eq_false_iff, Bool.and_eq_false_iff,
    decide_eq_false_iff_not] at h
  obtain hNot | hFactory := h.1.1.2
  · exact absurd hDex (not_or.mpr hNot)
  · exact hFactory

theorem v3Calls_target {call : Call} (h : call ∈ Bootstrap.v3Calls p) : call.target = p.address := by
  simp only [Bootstrap.v3Calls, List.mem_cons, List.not_mem_nil, or_false] at h
  obtain rfl | rfl | rfl := h <;> rfl

theorem algebraCalls_target {call : Call} (h : call ∈ Bootstrap.algebraCalls p) : call.target = p.address := by
  simp only [Bootstrap.algebraCalls, List.mem_cons, List.not_mem_nil, or_false] at h
  obtain rfl | rfl | rfl := h <;> rfl

theorem v4Calls_target {call : Call} (h : call ∈ Bootstrap.v4Calls p) : call.target = univ4StateView := by
  simp only [Bootstrap.v4Calls, List.mem_cons, List.not_mem_nil, or_false] at h
  obtain rfl | rfl := h <;> rfl

end Avoids

namespace Bootstrap

variable {F : Type} {b : Bootstrap F} {hostile : Address} {answer : Call → CallResult} {rpc rpc' : BootstrapRpc}
  {discovered : List DiscoveredPool}

theorem decimalsSite_key (t : Address) (row : Nat → Option CallResult) (y : Address × U8)
    (hSite : decimalsSite t row = some (some y)) : y.1 = t := by
  unfold decimalsSite at hSite
  split at hSite
  · cases Option.some.inj hSite
  · split at hSite
    · rw [← Option.some.inj (Option.some.inj hSite)]
    · obtain ⟨v, -, hv⟩ := Option.map_eq_some_iff.mp hSite
      rw [← Option.some.inj hv]

theorem decimals_congr (hAgree : AgreeOff hostile answer rpc rpc') {decimals decimals' : List (Address × U8)}
    (h : batched rpc.aggregate3 1 decimalsCall decimalsSite (tokenSet discovered) = some decimals)
    (h' : batched rpc'.aggregate3 1 decimalsCall decimalsSite (tokenSet discovered) = some decimals')
    {token : Address} (hToken : token ∈ tokenSet discovered) (hne : token ≠ hostile) :
    decimalsOf decimals token = decimalsOf decimals' token := by
  have hLocal : Local 1 decimalsSite := by
    intro t row row' hRows
    rw [decimalsSite, hRows 0 Nat.one_pos]
    rfl
  have hNodup : ((tokenSet discovered).map id).Nodup := by
    rw [List.map_id]
    exact tokenSet_nodup discovered
  have hGood : ∀ call ∈ decimalsCall token, call.target ≠ hostile := by
    intro call hCall
    rw [List.mem_singleton.mp hCall]
    exact hne
  have hFirst := lookup_batched hAgree.first h (fun _ => rfl) id hNodup decimalsSite_key hLocal hToken hGood
  have hSecond := lookup_batched hAgree.second h' (fun _ => rfl) id hNodup decimalsSite_key hLocal hToken hGood
  rw [decimalsOf, decimalsOf, show token = id token from rfl, hFirst, hSecond]

/-- Decimals that agree on the tokens of a pool. -/
def SameDecimals (decimals decimals' : List (Address × U8)) (p : DiscoveredPool) : Prop :=
  decimalsOf decimals p.token0 = decimalsOf decimals' p.token0 ∧ decimalsOf decimals p.token1 = decimalsOf decimals' p.token1

section Sites

variable {decimals decimals' : List (Address × U8)} {p : DiscoveredPool}

theorem poolMeta_congr (h : SameDecimals decimals decimals' p) (dex : DexTag) (feeBps feePips : U32) (tickSpacing : Int)
    (v4 : Option V4Meta) : poolMeta decimals p dex feeBps feePips tickSpacing v4 =
      poolMeta decimals' p dex feeBps feePips tickSpacing v4 := by
  rw [poolMeta, h.1, h.2]
  rfl

theorem v2Site_congr (h : SameDecimals decimals decimals' p) {i : Nat} {aeroFees aeroFees' : List (Nat × U32)}
    (hFees : p.dex = .aeroVolatile ∨ p.dex = .aeroStable → aeroFees.lookup i = aeroFees'.lookup i)
    (row : Nat → Option CallResult) : b.v2Site decimals aeroFees (p, i) row = b.v2Site decimals' aeroFees' (p, i) row := by
  have hMade : ∀ feeBps r0 r1, b.v2Registration decimals p feeBps r0 r1 = b.v2Registration decimals' p feeBps r0 r1 := by
    intro feeBps r0 r1
    rw [v2Registration, poolMeta_congr h]
    rfl
  simp only [v2Site, hMade]
  cases hDex : p.dex with
  | aeroVolatile => rw [hFees (.inl hDex)]
  | aeroStable => rw [hFees (.inr hDex)]
  | _ => rfl

theorem clRegistration_congr (h : SameDecimals decimals decimals' p) (dex : DexTag) (feePips : U32) :
    clRegistration (F := F) decimals p dex feePips = clRegistration decimals' p dex feePips := by
  rw [clRegistration, poolMeta_congr h]
  rfl

theorem v3Site_congr (h : SameDecimals decimals decimals' p) (row : Nat → Option CallResult) :
    v3Site (F := F) decimals p row = v3Site decimals' p row := by
  simp only [v3Site, clRegistration_congr h]

theorem algebraSite_congr (h : SameDecimals decimals decimals' p) (row : Nat → Option CallResult) :
    b.algebraSite decimals p row = b.algebraSite decimals' p row := by
  simp only [algebraSite, clRegistration_congr h]

theorem v4Site_congr (h : SameDecimals decimals decimals' p) (row : Nat → Option CallResult) :
    b.v4Site decimals p row = b.v4Site decimals' p row := by
  have hMade : ∀ id sqrtPrice liquidity feePips tickSpacing currency0,
      b.v4Registration decimals p id sqrtPrice liquidity feePips tickSpacing currency0 =
        b.v4Registration decimals' p id sqrtPrice liquidity feePips tickSpacing currency0 := by
    intro id sqrtPrice liquidity feePips tickSpacing currency0
    rw [v4Registration, poolMeta_congr h]
    rfl
  simp only [v4Site, hMade]

end Sites

theorem aeroFeeSite_key (p : DiscoveredPool × Nat) (row : Nat → Option CallResult) (y : Nat × U32)
    (hSite : b.aeroFeeSite p row = some (some y)) : y.1 = p.2 := by
  unfold aeroFeeSite at hSite
  split at hSite
  · cases Option.some.inj hSite
  · obtain ⟨-, hFee⟩ := Option.ite_none_left_eq_some.mp hSite
    rw [← Option.some.inj (Option.some.inj hFee)]

theorem aeroPools_nodup (discovered : List DiscoveredPool) : ((aeroPools discovered).map Prod.snd).Nodup := by
  refine List.Nodup.sublist (List.Sublist.map Prod.snd List.filter_sublist) ?_
  rw [List.zipIdx_map_snd]
  exact List.nodup_range'

theorem aeroFees_congr (hAgree : AgreeOff hostile answer rpc rpc') {aeroFees aeroFees' : List (Nat × U32)}
    (h : batched rpc.aggregate3 1 aeroFeeCall b.aeroFeeSite (aeroPools discovered) = some aeroFees)
    (h' : batched rpc'.aggregate3 1 aeroFeeCall b.aeroFeeSite (aeroPools discovered) = some aeroFees')
    {x : DiscoveredPool × Nat} (hx : x ∈ aeroPools discovered) (hne : x.1.factory ≠ hostile) :
    aeroFees.lookup x.2 = aeroFees'.lookup x.2 := by
  have hLocal : Local 1 b.aeroFeeSite := by
    intro p row row' hRows
    rw [aeroFeeSite, hRows 0 Nat.one_pos]
    rfl
  have hGood : ∀ call ∈ aeroFeeCall x, call.target ≠ hostile := by
    intro call hCall
    rw [List.mem_singleton.mp hCall]
    exact hne
  have hFirst := lookup_batched hAgree.first h (fun _ => rfl) Prod.snd (aeroPools_nodup discovered) aeroFeeSite_key hLocal hx
    hGood
  have hSecond := lookup_batched hAgree.second h' (fun _ => rfl) Prod.snd (aeroPools_nodup discovered) aeroFeeSite_key hLocal hx
    hGood
  rw [hFirst, hSecond]

section Runs

variable {decimals decimals' : List (Address × U8)} {regs regs' : List (PoolRegistration F)}

theorem family_congr (hAgree : AgreeOff hostile answer rpc rpc') {k : Nat} {requests : DiscoveredPool → List Call}
    {site site' : DiscoveredPool → (Nat → Option CallResult) → Option (Option (PoolRegistration F))}
    {items : List DiscoveredPool} (h : batched rpc.aggregate3 k requests site items = some regs)
    (h' : batched rpc'.aggregate3 k requests site' items = some regs') (hLength : ∀ p, (requests p).length = k)
    (hOf : ∀ p ∈ items, ∀ row reg, site p row = some (some reg) → reg.Of p)
    (hOf' : ∀ p ∈ items, ∀ row reg, site' p row = some (some reg) → reg.Of p)
    (hGood : ∀ p ∈ items, p.avoids hostile = true → ∀ call ∈ requests p, call.target ≠ hostile)
    (hLocal : Local k site) (hLocal' : Local k site')
    (hSame : ∀ p ∈ items, p.avoids hostile = true → ∀ row, site p row = site' p row) :
    regs.filter (PoolRegistration.avoids hostile) = regs'.filter (PoolRegistration.avoids hostile) :=
  batched_congr hAgree.first hAgree.second h h' hLength
    (fun p hp row reg hSite => (hOf p hp row reg hSite).avoids_eq hostile)
    (fun p hp row reg hSite => (hOf' p hp row reg hSite).avoids_eq hostile) hGood hLocal hLocal' hSame

theorem v2Family_congr (hAgree : AgreeOff hostile answer rpc rpc')
    (hDecimals : ∀ p ∈ discovered, p.avoids hostile = true → SameDecimals decimals decimals' p)
    (families : Families b rpc discovered decimals regs) (families' : Families b rpc' discovered decimals' regs') :
    families.v2.filter (PoolRegistration.avoids hostile) = families'.v2.filter (PoolRegistration.avoids hostile) := by
  have hLocal : ∀ decimals aeroFees, Local 1 (b.v2Site decimals aeroFees) := by
    intro decimals aeroFees p row row' hRows
    rw [v2Site, hRows 0 Nat.one_pos]
    rfl
  refine batched_congr hAgree.first hAgree.second families.ranV2 families'.ranV2
    (fun _ => rfl) (fun x _ row reg hSite => (v2Site_made hSite).1.avoids_eq hostile)
    (fun x _ row reg hSite => (v2Site_made hSite).1.avoids_eq hostile) ?_ (hLocal _ _) (hLocal _ _) ?_
  · intro x hx hAvoids call hCall
    rw [List.mem_singleton.mp hCall]
    exact avoids_address hAvoids (Bootstrap.v2Pools_not_v4 hx)
  · intro x hx hAvoids row
    obtain ⟨hMem, hFamily⟩ := List.mem_filter.mp hx
    refine v2Site_congr (hDecimals x.1 (List.fst_mem_of_mem_zipIdx hMem) hAvoids) (fun hAero => ?_) row
    refine aeroFees_congr hAgree families.ranAeroFees families'.ranAeroFees (x := x) ?_ (avoids_factory hAvoids hAero)
    rw [aeroPools, List.mem_filter, Bool.or_eq_true, decide_eq_true_iff, decide_eq_true_iff]
    exact ⟨hMem, hAero⟩

theorem v3Family_congr (hAgree : AgreeOff hostile answer rpc rpc')
    (hDecimals : ∀ p ∈ discovered, p.avoids hostile = true → SameDecimals decimals decimals' p)
    (families : Families b rpc discovered decimals regs) (families' : Families b rpc' discovered decimals' regs') :
    families.v3.filter (PoolRegistration.avoids hostile) = families'.v3.filter (PoolRegistration.avoids hostile) := by
  have hLocal : ∀ decimals, Local 3 (v3Site (F := F) decimals) := by
    intro decimals p row row' hRows
    rw [v3Site, hRows 0 (by decide), hRows 1 (by decide), hRows 2 (by decide)]
    rfl
  refine family_congr hAgree families.ranV3 families'.ranV3 (fun _ => rfl)
    (fun p _ row reg hSite => (v3Site_made hSite).some.1) (fun p _ row reg hSite => (v3Site_made hSite).some.1) ?_
    (hLocal _) (hLocal _) ?_
  · intro p hp hAvoids call hCall
    rw [v3Calls_target hCall]
    exact avoids_address hAvoids (isV3Family_not_v4 (List.mem_filter.mp hp).2)
  · intro p hp hAvoids
    exact v3Site_congr (hDecimals p (List.mem_of_mem_filter hp) hAvoids)

theorem algebraFamily_congr (hAgree : AgreeOff hostile answer rpc rpc')
    (hDecimals : ∀ p ∈ discovered, p.avoids hostile = true → SameDecimals decimals decimals' p)
    (families : Families b rpc discovered decimals regs) (families' : Families b rpc' discovered decimals' regs') :
    families.algebra.filter (PoolRegistration.avoids hostile) =
      families'.algebra.filter (PoolRegistration.avoids hostile) := by
  have hLocal : ∀ decimals, Local 3 (b.algebraSite decimals) := by
    intro decimals p row row' hRows
    rw [algebraSite, hRows 0 (by decide), hRows 1 (by decide), hRows 2 (by decide)]
    rfl
  have hOf : ∀ decimals, ∀ p ∈ algebraPools discovered, ∀ row reg, b.algebraSite decimals p row = some (some reg) →
      reg.Of p := fun decimals p hp row reg hSite =>
    (algebraSite_made (isAlgebra_eq (List.mem_filter.mp hp).2) hSite).some.1
  refine family_congr hAgree families.ranAlgebra families'.ranAlgebra (fun _ => rfl) (hOf _) (hOf _) ?_ (hLocal _)
    (hLocal _) ?_
  · intro p hp hAvoids call hCall
    rw [algebraCalls_target hCall]
    exact avoids_address hAvoids (by rw [isAlgebra_eq (List.mem_filter.mp hp).2]; rfl)
  · intro p hp hAvoids
    exact algebraSite_congr (hDecimals p (List.mem_of_mem_filter hp) hAvoids)

theorem v4Family_congr (hAgree : AgreeOff hostile answer rpc rpc')
    (hDecimals : ∀ p ∈ discovered, p.avoids hostile = true → SameDecimals decimals decimals' p)
    (families : Families b rpc discovered decimals regs) (families' : Families b rpc' discovered decimals' regs') :
    families.v4.filter (PoolRegistration.avoids hostile) = families'.v4.filter (PoolRegistration.avoids hostile) := by
  have hLocal : ∀ decimals, Local 2 (b.v4Site decimals) := by
    intro decimals p row row' hRows
    rw [v4Site, hRows 0 (by decide), hRows 1 (by decide)]
    rfl
  have hOf : ∀ decimals, ∀ p ∈ v4Pools discovered, ∀ row reg, b.v4Site decimals p row = some (some reg) →
      reg.Of p := fun decimals p hp row reg hSite => (v4Site_made (isV4_eq (List.mem_filter.mp hp).2) hSite).1
  refine family_congr hAgree families.ranV4 families'.ranV4 (fun _ => rfl) (hOf _) (hOf _) ?_ (hLocal _) (hLocal _) ?_
  · intro p hp hAvoids call hCall
    rw [v4Calls_target hCall]
    exact avoids_stateView hAvoids (List.mem_filter.mp hp).2
  · intro p hp hAvoids
    exact v4Site_congr (hDecimals p (List.mem_of_mem_filter hp) hAvoids)

theorem registrations_congr (hAgree : AgreeOff hostile answer rpc rpc')
    (hDecimals : ∀ p ∈ discovered, p.avoids hostile = true → SameDecimals decimals decimals' p)
    (h : b.registrations rpc discovered decimals = some regs)
    (h' : b.registrations rpc' discovered decimals' = some regs') :
    (regs.map PoolRegistration.unnumbered).filter (PoolRegistration.avoids hostile) =
      (regs'.map PoolRegistration.unnumbered).filter (PoolRegistration.avoids hostile) := by
  obtain ⟨families⟩ := registrations_families h
  obtain ⟨families'⟩ := registrations_families h'
  rw [families.joined, families'.joined, number_unnumbered, number_unnumbered, List.filter_map, List.filter_map]
  apply congrArg (List.map PoolRegistration.unnumbered)
  change (families.v2 ++ families.v3 ++ families.algebra ++ families.v4).filter (PoolRegistration.avoids hostile) =
    (families'.v2 ++ families'.v3 ++ families'.algebra ++ families'.v4).filter (PoolRegistration.avoids hostile)
  simp only [List.filter_append]
  rw [v2Family_congr hAgree hDecimals families families', v3Family_congr hAgree hDecimals families families',
    algebraFamily_congr hAgree hDecimals families families', v4Family_congr hAgree hDecimals families families']

end Runs

section Balances

variable {regs regs' : List (PoolRegistration F)}

theorem targetsOf_filter_key {key : Address × Address}
    (hAvoids : ∀ reg ∈ regs, reg.pool.address = key.1 → reg.avoids hostile = true) :
    (b.targetsOf regs).filter (fun target => (target.1, target.2.token) == key) =
      (b.targetsOf (regs.filter (PoolRegistration.avoids hostile))).filter fun target =>
        (target.1, target.2.token) == key := by
  induction regs with
  | nil => rfl
  | cons reg rest ih =>
    have ih := ih fun other hOther => hAvoids other (List.mem_cons_of_mem _ hOther)
    rw [List.filter_cons]
    split
    · rw [← List.singleton_append, targetsOf_append, List.filter_append, ih, ← List.filter_append, ← targetsOf_append]
      rfl
    · rename_i hInvolves
      have hNone : (b.targetsOf [reg]).filter (fun target => (target.1, target.2.token) == key) = [] := by
        rw [List.filter_eq_nil_iff]
        intro target hTarget hKey
        obtain ⟨other, hOther, hIn⟩ := List.mem_flatMap.mp hTarget
        obtain rfl := List.mem_singleton.mp (List.mem_of_mem_filter hOther)
        obtain ⟨a, -, rfl⟩ := List.mem_map.mp hIn
        exact hInvolves (hAvoids other List.mem_cons_self (congrArg Prod.fst (eq_of_beq hKey)))
      rw [← List.singleton_append, targetsOf_append, List.filter_append, ih, hNone, List.nil_append]

/-- What a pool that avoids the contract holds of a token that is not the contract. -/
theorem lastEntry_congr (hAgree : AgreeOff hostile answer rpc rpc') {key : Address × Address}
    (hRegs : (regs.map PoolRegistration.unnumbered).filter (PoolRegistration.avoids hostile) =
      (regs'.map PoolRegistration.unnumbered).filter (PoolRegistration.avoids hostile))
    (hAvoids : ∀ reg ∈ regs.map PoolRegistration.unnumbered, reg.pool.address = key.1 → reg.avoids hostile = true)
    (hAvoids' : ∀ reg ∈ regs'.map PoolRegistration.unnumbered, reg.pool.address = key.1 → reg.avoids hostile = true)
    (hToken : key.2 ≠ hostile) {balances balances' : List ((Address × Address) × F)}
    (h : b.anchorBalances rpc regs = some balances) (h' : b.anchorBalances rpc' regs' = some balances') :
    lastEntry balances key = lastEntry balances' key := by
  have hLocal : Local 1 b.balanceSite := by
    intro target row row' hRows
    rw [balanceSite, hRows 0 Nat.one_pos]
    rfl
  have hKey : ∀ target row entry, b.balanceSite target row = some (some entry) →
      (entry.1 == key) = ((target.1, target.2.token) == key) := by
    intro target row entry hSite
    unfold balanceSite at hSite
    split at hSite
    · cases Option.some.inj hSite
    · obtain ⟨bal, -, hBal⟩ := Option.map_eq_some_iff.mp hSite
      obtain ⟨amount, -, rfl⟩ := Option.map_eq_some_iff.mp hBal
      rfl
  have hGood : ∀ target : Address × GateAnchor F, ((target.1, target.2.token) == key) = true →
      ∀ call ∈ balanceCall target, call.target ≠ hostile := by
    intro target hTarget call hCall
    rw [List.mem_singleton.mp hCall]
    have hSame : target.2.token = key.2 := congrArg Prod.snd (eq_of_beq hTarget)
    exact fun hEq => hToken (hSame.symm.trans hEq)
  unfold anchorBalances at h h'
  split at h
  · rename_i hEnforce
    rw [if_pos hEnforce] at h'
    have hFirst := batched_filter hAgree.first h (fun _ => rfl) (fun target _ => hKey target)
      (fun target _ => hGood target) hLocal
    have hSecond := batched_filter hAgree.second h' (fun _ => rfl) (fun target _ => hKey target)
      (fun target _ => hGood target) hLocal
    rw [← targetsOf_unnumbered, targetsOf_filter_key hAvoids, hRegs, ← targetsOf_filter_key hAvoids',
      targetsOf_unnumbered] at hFirst
    rw [lastEntry, lastEntry, hFirst, hSecond]
  · rename_i hNot
    rw [if_neg hNot] at h'
    rw [← Option.some.inj h, ← Option.some.inj h']

end Balances

section Filter

variable {decimals decimals' : List (Address × U8)}

theorem isFeeToken_congr (hAgree : AgreeOff hostile answer rpc rpc') {token : Address} (hne : token ≠ hostile)
    (hDecimals : token ∈ tokenSet discovered → decimalsOf decimals token = decimalsOf decimals' token) :
    b.isFeeToken rpc discovered decimals token = b.isFeeToken rpc' discovered decimals' token := by
  unfold isFeeToken
  cases b.feeCache token with
  | some bad => rfl
  | none =>
    dsimp only
    rw [hAgree.probes token hne]
    by_cases hToken : token ∈ tokenSet discovered
    · rw [hDecimals hToken]
    · rw [decide_eq_false hToken]
      rfl

theorem keeps_congr {reg : PoolRegistration F} {feeToken feeToken' : Address → Bool}
    {balances balances' : List ((Address × Address) × F)}
    (hFee0 : feeToken reg.pool.token0 = feeToken' reg.pool.token0)
    (hFee1 : feeToken reg.pool.token1 = feeToken' reg.pool.token1)
    (hBalances : ∀ a : GateAnchor F, reg.pool.token0 = a.token ∨ reg.pool.token1 = a.token →
      lastEntry balances (reg.pool.address, a.token) = lastEntry balances' (reg.pool.address, a.token)) :
    b.keeps feeToken balances reg = b.keeps feeToken' balances' reg := by
  have hLiquidity : b.anchorLiquidity balances reg = b.anchorLiquidity balances' reg := by
    unfold anchorLiquidity
    rw [Bool.eq_iff_iff, Bool.or_eq_true, Bool.or_eq_true, List.any_eq_true, List.any_eq_true]
    apply or_congr_right
    apply exists_congr
    intro a
    apply and_congr_right
    intro hTouches
    have hSide := (List.mem_filter.mp hTouches).2
    rw [Bool.or_eq_true, decide_eq_true_iff, decide_eq_true_iff] at hSide
    rw [hBalances a hSide]
  simp only [keeps, hFee0, hFee1, hLiquidity]

end Filter

theorem kept_unnumbered (regs : List (PoolRegistration F)) (keep : PoolRegistration F → Bool)
    (hKeep : ∀ reg, keep reg.unnumbered = keep reg) :
    ((number (regs.filter keep)).filter (PoolRegistration.avoids hostile)).map PoolRegistration.unnumbered =
      ((regs.map PoolRegistration.unnumbered).filter (PoolRegistration.avoids hostile)).filter keep := by
  have hAvoids : ∀ regs : List (PoolRegistration F),
      (regs.filter (PoolRegistration.avoids hostile)).map PoolRegistration.unnumbered =
        (regs.map PoolRegistration.unnumbered).filter (PoolRegistration.avoids hostile) := by
    intro regs
    rw [List.filter_map]
    rfl
  have hKept : (regs.filter keep).map PoolRegistration.unnumbered = (regs.map PoolRegistration.unnumbered).filter keep := by
    rw [List.filter_map, show keep ∘ PoolRegistration.unnumbered = keep from funext hKeep]
  rw [hAvoids, number_unnumbered, hKept, List.filter_filter, List.filter_filter]
  exact List.filter_congr fun reg _ => Bool.and_comm _ _

/-- The registrations that avoid a contract do not depend on what it answers. -/
theorem hydrate_congr (hAgree : AgreeOff hostile answer rpc rpc') {found : List DiscoveredPool}
    {regs regs' : List (PoolRegistration F)} (h : b.hydrate rpc found = some regs)
    (h' : b.hydrate rpc' found = some regs') :
    (regs.filter (PoolRegistration.avoids hostile)).map PoolRegistration.unnumbered =
      (regs'.filter (PoolRegistration.avoids hostile)).map PoolRegistration.unnumbered := by
  obtain ⟨decimals, hDecimals, h⟩ := Option.bind_eq_some_iff.mp h
  obtain ⟨made, hMade, h⟩ := Option.bind_eq_some_iff.mp h
  obtain ⟨balances, hBalances, h⟩ := Option.bind_eq_some_iff.mp h
  obtain ⟨decimals', hDecimals', h'⟩ := Option.bind_eq_some_iff.mp h'
  obtain ⟨made', hMade', h'⟩ := Option.bind_eq_some_iff.mp h'
  obtain ⟨balances', hBalances', h'⟩ := Option.bind_eq_some_iff.mp h'
  have hTable : ∀ token, token ≠ hostile → token ∈ tokenSet (dedupe [] found) →
      decimalsOf decimals token = decimalsOf decimals' token := fun token hne hToken =>
    decimals_congr hAgree hDecimals hDecimals' hToken hne
  have hSameDecimals : ∀ p ∈ dedupe [] found, p.avoids hostile = true → SameDecimals decimals decimals' p :=
    fun p hp hAvoids => ⟨hTable _ (avoids_tokens hAvoids).1 (mem_tokenSet.mpr ⟨p, hp, .inl rfl⟩),
      hTable _ (avoids_tokens hAvoids).2 (mem_tokenSet.mpr ⟨p, hp, .inr rfl⟩)⟩
  have hRegs := registrations_congr hAgree hSameDecimals hMade hMade'
  have hFee : ∀ token, token ≠ hostile → b.isFeeToken rpc (dedupe [] found) decimals token =
      b.isFeeToken rpc' (dedupe [] found) decimals' token := fun token hne => isFeeToken_congr hAgree hne (hTable token hne)
  have hPoolOf : ∀ {rpc decimals made}, b.registrations rpc (dedupe [] found) decimals = some made →
      ∀ {reg}, reg ∈ made.map PoolRegistration.unnumbered → ∃ p ∈ dedupe [] found, reg.Of p := by
    intro rpc decimals made hMade reg hReg
    obtain ⟨p, hp, hOf, -⟩ := registrations_of hMade hReg
    exact ⟨p, hp, hOf⟩
  have hKeeps : ∀ reg ∈ (made'.map PoolRegistration.unnumbered).filter (PoolRegistration.avoids hostile),
      b.keeps (b.isFeeToken rpc (dedupe [] found) decimals) balances reg =
        b.keeps (b.isFeeToken rpc' (dedupe [] found) decimals') balances' reg := by
    intro reg hReg
    obtain ⟨hMem, hAvoids⟩ := List.mem_filter.mp hReg
    obtain ⟨p, hp, hOf⟩ := hPoolOf hMade' hMem
    rw [hOf.avoids_eq] at hAvoids
    obtain ⟨hne0, hne1⟩ := avoids_tokens hAvoids
    -- addresses are distinct, so what shares the address is made of the same pool
    have hSamePool : ∀ other : PoolRegistration F, (∃ q ∈ dedupe [] found, other.Of q) →
        other.pool.address = reg.pool.address → other.avoids hostile = true := by
      rintro other ⟨q, hq, hOther⟩ hAddress
      rw [hOther.address, hOf.address] at hAddress
      obtain rfl := List.inj_on_of_nodup_map (dedupe_nodup [] found) hq hp hAddress
      rw [hOther.avoids_eq, hAvoids]
    refine keeps_congr (hFee _ (hOf.token0 ▸ hne0)) (hFee _ (hOf.token1 ▸ hne1)) fun a hTouches => ?_
    refine lastEntry_congr hAgree hRegs (fun other hOther => hSamePool other (hPoolOf hMade hOther))
      (fun other hOther => hSamePool other (hPoolOf hMade' hOther)) ?_ hBalances hBalances'
    obtain hToken | hToken := hTouches
    · exact hToken ▸ hOf.token0 ▸ hne0
    · exact hToken ▸ hOf.token1 ▸ hne1
  rw [← Option.some.inj h, ← Option.some.inj h']
  calc ((number (made.filter _)).filter (PoolRegistration.avoids hostile)).map PoolRegistration.unnumbered
      = ((made.map PoolRegistration.unnumbered).filter (PoolRegistration.avoids hostile)).filter _ :=
        kept_unnumbered made _ fun _ => rfl
    _ = ((made'.map PoolRegistration.unnumbered).filter (PoolRegistration.avoids hostile)).filter _ := by
        rw [hRegs, List.filter_congr hKeeps]
    _ = _ := (kept_unnumbered made' _ fun _ => rfl).symm

/-- The bootstrap ends, with the registrations that avoid a contract as they would be if
that contract answered otherwise. -/
def Robust (b : Bootstrap F) (rpc : BootstrapRpc) (found : List DiscoveredPool) : Prop :=
  ∃ regs, b.hydrate rpc found = some regs ∧
    ∀ hostile answer rpc' regs', AgreeOff hostile answer rpc rpc' → b.hydrate rpc' found = some regs' →
      (regs.filter (PoolRegistration.avoids hostile)).map PoolRegistration.unnumbered =
        (regs'.filter (PoolRegistration.avoids hostile)).map PoolRegistration.unnumbered

theorem hydrate_robust_iff (b : Bootstrap F) (rpc : BootstrapRpc) (found : List DiscoveredPool) :
    b.Robust rpc found ↔ b.NarrowWords rpc (dedupe [] found) := by
  rw [← hydrate_isSome_iff, Option.isSome_iff_exists]
  constructor
  · rintro ⟨regs, hRegs, -⟩
    exact ⟨regs, hRegs⟩
  · rintro ⟨regs, hRegs⟩
    exact ⟨regs, hRegs, fun _ _ _ _ hAgree hRegs' => hydrate_congr hAgree hRegs hRegs'⟩

section Sample

/-- Whole numbers in place of floating point. -/
def wholeNumbers : FloatOps Nat where
  zero := 0
  two := 2
  twoPow96 := 2 ^ 96
  ofU128 := BitVec.toNat
  u256ToF64 := BitVec.toNat
  tenPow d := 10 ^ d.toNat
  mul := (· * ·)
  div := (· / ·)
  lt x y := decide (x < y)
  le x y := decide (x ≤ y)

def sampleWord (data : List U8) (i : Nat) : Option U256 :=
  if data.length < 32 * (i + 1) then none else some (leadingWord (data.drop (32 * i)))

def sampleDecoders : ReturnDecoders where
  uniReserves data := do
    let _ ← sampleWord data 2
    return ((← sampleWord data 0).setWidth 112, (← sampleWord data 1).setWidth 112)
  aeroReserves data := do
    let _ ← sampleWord data 2
    return (← sampleWord data 0, ← sampleWord data 1)
  uint256 data := sampleWord data 0
  globalState data := do return ⟨(← sampleWord data 0).setWidth 160, (← sampleWord data 1).setWidth 24⟩
  stateViewSlot0 data := do
    return ⟨(← sampleWord data 0).setWidth 160, (← sampleWord data 1).setWidth 24, (← sampleWord data 2).setWidth 24,
      (← sampleWord data 3).setWidth 24⟩

def sampleBootstrap : Bootstrap Nat := ⟨wholeNumbers, sampleDecoders, [], ⟨[], []⟩, fun _ => none, false⟩

theorem fork_v4Complete : DexTag.uniV2Fork = .uniV4 → (none : Option B256).isSome ∧ (none : Option U32).isSome ∧
    (none : Option Int).isSome ∧ (none : Option Address).isSome :=
  fun h => absurd h (by decide)

def sampleFound (address token0 token1 : Address) : DiscoveredPool :=
  ⟨address, .uniV2Fork, 9#160, token0, token1, none, none, some 30#32, none, none, fork_v4Complete⟩

/-- Everyone answers one, but token 3, which answers a word of ones. -/
def hostileToken : BootstrapRpc where
  aggregate3 calls := calls.map fun call =>
    if call.target = 3#160 then ⟨true, List.replicate 32 255#8⟩
    else ⟨true, (List.replicate 3 (List.replicate 31 0#8 ++ [1#8])).flatten⟩
  probeToken _ _ _ := some false

/-- One token's answer to `decimals()` takes the pool of two other tokens with it. -/
theorem hostile_decimals_stop_bootstrap :
    ¬∀ rpc : BootstrapRpc, sampleBootstrap.Robust rpc [sampleFound 7#160 1#160 2#160, sampleFound 8#160 1#160 3#160] := by
  intro h
  obtain ⟨regs, hRegs, -⟩ := h hostileToken
  have hPanicked : (sampleBootstrap.hydrate hostileToken
      [sampleFound 7#160 1#160 2#160, sampleFound 8#160 1#160 3#160]).isNone := by
    decide +kernel
  rw [hRegs] at hPanicked
  cases hPanicked

/-- Without that token the pool is registered. -/
example : (sampleBootstrap.hydrate hostileToken [sampleFound 7#160 1#160 2#160]).map List.length = some 1 := by
  decide +kernel

end Sample

end Bootstrap

end Robinarb
