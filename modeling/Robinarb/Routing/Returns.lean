import Robinarb.Library.PartialMaps
import Robinarb.Math.V2Exact
import Robinarb.Routing.TernarySearch

/-! # Sizing returns

Over registered pools `optimize` panics only where an exact quote does, and those of packed
pairs do not.
-/

namespace Robinarb

open PartialMaps

section Returns

variable {K ε : Type} [Field K] {M : SwapMath ε} {keccak : Keccak} {engine : Engine} {s : ChainState} {hops : List Hop}

theorem pureHops_returns (hHops : ∀ hop ∈ hops, ∃ pool, engine.metaOf hop.pool = some pool) :
    (pureHops K engine s hops).isSome ∧ (hops ≠ [] → pureHops K engine s hops ≠ some (some [])) := by
  induction hops with
  | nil => exact ⟨rfl, fun hNot => absurd rfl hNot⟩
  | cons hop rest ih =>
    obtain ⟨⟨pool, hPool⟩, hRest⟩ := List.forall_mem_cons.mp hHops
    obtain ⟨pure, hPure⟩ := Option.isSome_iff_exists.mp (ih hRest).1
    rw [pureHops, hPool, hPure, Option.bind_eq_bind, Option.bind_some]
    cases pureReserves K s hop.pool pool with
    | none => exact ⟨rfl, fun _ => by simp⟩
    | some reserves =>
      refine ⟨rfl, fun _ => ?_⟩
      cases pure <;> simp

/-- A packed pair gives its reserve at most. -/
theorem quote_packed_returns {pool : PoolMeta} {addr : Address} {slot amountIn : U256}
    (hPlan : s.plan pool.idx = some (.v2Packed addr slot)) (hFee : pool.feeBps.toNat ≤ 10000)
    (hSmall : amountIn.toNat < 2 ^ 128) (zeroForOne : Bool) :
    ∃ out, quote M keccak s pool amountIn zeroForOne = some out ∧
      out.toNat ≤ (orderedReserves (s.read addr slot) zeroForOne).2.toNat := by
  by_cases hPositive : (packedReserves (s.read addr slot)).1 ≠ 0#112 ∧ (packedReserves (s.read addr slot)).2 ≠ 0#112 ∧
      amountIn ≠ 0#256
  · obtain ⟨h0, h1, hAmount⟩ := hPositive
    obtain ⟨hBelow, -⟩ := v2Out_keeps (s.read addr slot) zeroForOne hFee h0 h1 amountIn
    exact ⟨_, quote_packed_eq hPlan zeroForOne hFee h0 h1 hAmount hSmall, hBelow.le⟩
  · refine ⟨0#256, ?_, Nat.zero_le _⟩
    unfold quote
    rw [hPlan]
    dsimp only
    rw [decodeV2Packed_eq]
    split
    · rfl
    next hReserves =>
      have hAmount : amountIn = 0#256 := by
        by_contra hSome
        refine hPositive ⟨fun h0 => hReserves (.inl ?_), fun h1 => hReserves (.inr ?_), hSome⟩
        · rw [h0]
          rfl
        · rw [h1]
          rfl
      exact if_pos (.inl hAmount)

theorem quoteHops_returns (hPacked : ∀ hop ∈ hops, ∃ pool addr slot, engine.metaOf hop.pool = some pool ∧
      s.plan pool.idx = some (.v2Packed addr slot) ∧ pool.feeBps.toNat ≤ 10000) {amt : U256} (hSmall : amt.toNat < 2 ^ 128) :
    (quoteHops M keccak engine s hops amt).isSome := by
  induction hops generalizing amt with
  | nil => rfl
  | cons hop rest ih =>
    obtain ⟨⟨pool, addr, slot, hPool, hPlan, hFee⟩, hRest⟩ := List.forall_mem_cons.mp hPacked
    obtain ⟨out, hOut, hBound⟩ := @quote_packed_returns ε M keccak s pool addr slot amt hPlan hFee hSmall hop.zeroForOne
    rw [quoteHops, hPool, Option.bind_eq_bind, Option.bind_some, hOut]
    refine bind_isSome rfl fun other hOther => ?_
    split
    · rfl
    · obtain rfl := Option.some.inj hOther
      have hReserve : (orderedReserves (s.read addr slot) hop.zeroForOne).2.toNat < 2 ^ 112 := BitVec.isLt _
      exact ih hRest (by omega)

variable [LinearOrder K]

theorem spotHops_returns (hHops : ∀ hop ∈ hops, ∃ pool, engine.metaOf hop.pool = some pool) (prod : K) :
    (spotHops engine s hops prod).isSome := by
  induction hops generalizing prod with
  | nil => rfl
  | cons hop rest ih =>
    obtain ⟨⟨pool, hPool⟩, hRest⟩ := List.forall_mem_cons.mp hHops
    rw [spotHops, hPool, Option.bind_eq_bind, Option.bind_some]
    dsimp only
    split
    · rfl
    · exact ih hRest _

theorem ternarySearch_returns {profit : K → Option K} (hProfit : ∀ x, (profit x).isSome) (lo hi : K) (n : Nat) :
    (ternarySearch profit lo hi n).isSome := by
  choose p hp using fun x => Option.isSome_iff_exists.mp (hProfit x)
  rw [ternarySearch, ternaryLoop_eq hp]
  rfl

variable [FloorSemiring K]

theorem quoteHopsF64_returns {solve : K → K → K → K}
    (hHops : ∀ hop ∈ hops, ∃ pool, engine.metaOf hop.pool = some pool) (amt : K) :
    (quoteHopsF64With M keccak solve engine s hops amt).isSome := by
  induction hops generalizing amt with
  | nil => rfl
  | cons hop rest ih =>
    obtain ⟨⟨pool, hPool⟩, hRest⟩ := List.forall_mem_cons.mp hHops
    rw [quoteHopsF64With, hPool, Option.bind_eq_bind, Option.bind_some]
    dsimp only
    split
    · rfl
    · exact ih hRest _

variable {sqrt : K → K} {route : Route} {minIn maxIn : K}

theorem candidateSize_returns (hHops : ∀ hop ∈ route.hops, ∃ pool, engine.metaOf hop.pool = some pool)
    (hSome : route.hops ≠ []) (hRange : minIn ≤ maxIn) :
    (candidateSize M keccak sqrt engine s route minIn maxIn).isSome := by
  have hClamp : ∀ x : K, (clampF64 x minIn maxIn >>= fun y => some (some y)).isSome := by
    intro x
    rw [clampF64, if_pos hRange]
    rfl
  have hProfit : ∀ x : K, (routeProfit M keccak engine s route x).isSome := by
    intro x
    rw [routeProfit, Option.isSome_map]
    exact quoteHopsF64_returns hHops x
  obtain ⟨hReturns, hNot⟩ := pureHops_returns (K := K) (s := s) hHops
  refine bind_isSome hReturns fun pure hPure => ?_
  cases pure with
  | none =>
    refine bind_isSome (hProfit minIn) fun probe _ => ?_
    split
    · rfl
    · exact bind_isSome (ternarySearch_returns hProfit minIn maxIn 60) fun x _ => hClamp x
  | some reserves =>
    cases reserves with
    | nil => exact absurd hPure (hNot hSome)
    | cons first rest =>
      dsimp only
      split
      · rfl
      · exact hClamp _

theorem wholeAmount_lt (x : K) : (wholeAmount x).toNat < 2 ^ 128 := by
  rw [wholeAmount, BitVec.toNat_ofNat]
  exact (Nat.mod_le _ _).trans_lt (by omega)

/-- Sizing panics only where the exact quote of the chosen size does. -/
theorem optimize_eq_none (hHops : ∀ hop ∈ route.hops, ∃ pool, engine.metaOf hop.pool = some pool)
    (hSome : route.hops ≠ []) (hRange : minIn ≤ maxIn)
    (hPanics : optimize M keccak sqrt engine s route minIn maxIn = none) :
    ∃ x, candidateSize M keccak sqrt engine s route minIn maxIn = some (some x) ∧
      quoteRoute M keccak engine s route (wholeAmount x) = none := by
  obtain ⟨size, hSize⟩ := Option.isSome_iff_exists.mp (candidateSize_returns (M := M) (s := s) hHops hSome hRange)
  unfold optimize at hPanics
  rw [hSize, Option.bind_eq_bind, Option.bind_some] at hPanics
  cases size with
  | none => cases hPanics
  | some x =>
    refine ⟨x, hSize, ?_⟩
    dsimp only at hPanics
    split at hPanics
    · cases hPanics
    cases hQuote : quoteRoute M keccak engine s route (wholeAmount x) with
    | none => rfl
    | some quoted =>
      rw [hQuote, Option.bind_eq_bind, Option.bind_some] at hPanics
      cases quoted with
      | none => cases hPanics
      | some out =>
        dsimp only at hPanics
        split at hPanics <;> cases hPanics

theorem optimize_routeId {opp : Optimizer.Opportunity}
    (hOpp : optimize M keccak sqrt engine s route minIn maxIn = some (some opp)) : opp.routeId = route.id := by
  obtain ⟨size, -, hRest⟩ := Option.bind_eq_some_iff.mp hOpp
  cases size with
  | none => cases hRest
  | some x =>
    dsimp only at hRest
    split at hRest
    · cases hRest
    obtain ⟨quoted, -, hTail⟩ := Option.bind_eq_some_iff.mp hRest
    cases quoted with
    | none => cases hTail
    | some out =>
      dsimp only at hTail
      split at hTail
      · cases hTail
      · cases hTail
        rfl

end Returns

end Robinarb
