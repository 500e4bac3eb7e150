import Robinarb.Routing.Emission
import Robinarb.Routing.Evaluator

/-! # What the evaluator sends

Over a whole run: only the exact quote of a size that was chosen panics, everything that is
sent was vetted on fresh batches, and what is due and not sent shares a pool with something
as good that was.
-/

namespace Robinarb.Evaluator

open scoped Numerals
open GasStation GreedySelection PartialMaps RankedPrefix

section Tiers

variable {K : Type} [Field K] [LinearOrder K] [FloorSemiring K] {ev : Evaluator K} {round : Round}

/-- A candidate with its product, when that is above the gate. -/
def survivor (ev : Evaluator K) (round : Round) (id : Nat) : Option (Nat × K) :=
  (ev.product round id).bind fun prod => if ev.gate < prod then some (id, prod) else none

theorem survivor_eq_some {id : Nat} {p : Nat × K} :
    survivor ev round id = some p ↔ p.1 = id ∧ ev.product round id = some p.2 ∧ ev.gate < p.2 := by
  unfold survivor
  rw [Option.bind_eq_some_iff]
  constructor
  · rintro ⟨prod, hProd, hGate⟩
    split at hGate
    next hAbove =>
      cases hGate
      exact ⟨rfl, hProd, hAbove⟩
    · cases hGate
  · rintro ⟨rfl, hProd, hAbove⟩
    exact ⟨p.2, hProd, if_pos hAbove⟩

theorem tier1_eq {ids : List Nat} (hProducts : ∀ id ∈ ids, (ev.product round id).isSome) :
    ev.tier1 round ids = some (ids.filterMap (survivor ev round)) := by
  have hKept := @mapM_reduceOption Nat (Nat × K) ids
    (fun id => (ev.product round id).map fun prod => if ev.gate < prod then some (id, prod) else none)
    (fun id hMem => by rw [Option.isSome_map]; exact hProducts id hMem)
  rw [tier1, hKept, Option.some.injEq]
  congr 1
  funext id
  unfold survivor
  cases ev.product round id <;> rfl

/-- Survivors are counted among the candidates. -/
theorem countP_survivors (ids : List Nat) {q : K → Bool} (hAbove : ∀ prod, q prod = true → ev.gate < prod) :
    ((ids.filterMap (survivor ev round)).filter fun p => q p.2).length =
      ids.countP fun id => (ev.product round id).any q := by
  rw [List.filter_filterMap, List.length_filterMap_eq_countP]
  apply List.countP_congr
  intro id _
  unfold survivor
  cases hProd : ev.product round id with
  | none => simp
  | some prod =>
    by_cases hq : q prod = true
    · simp [hq, hAbove prod hq]
    · by_cases hGate : ev.gate < prod <;> simp [hq, hGate]

def survivors (ev : Evaluator K) (round : Round) : List (Nat × K) :=
  (ev.store.candidateIds round.batch.pools).filterMap (survivor ev round)

/-- What the second tier is given. -/
def leaders (ev : Evaluator K) (round : Round) : List (Nat × K) :=
  (ranked Prod.snd (survivors ev round)).take ev.cfg.tier2TopN

theorem mem_survivors {p : Nat × K} : p ∈ survivors ev round ↔
    p.1 ∈ ev.store.candidateIds round.batch.pools ∧ ev.product round p.1 = some p.2 ∧ ev.gate < p.2 := by
  unfold survivors
  rw [List.mem_filterMap]
  constructor
  · rintro ⟨id, hMem, hSurvivor⟩
    obtain ⟨rfl, hProduct⟩ := survivor_eq_some.mp hSurvivor
    exact ⟨hMem, hProduct⟩
  · rintro ⟨hMem, hProduct⟩
    exact ⟨p.1, hMem, survivor_eq_some.mpr ⟨rfl, hProduct⟩⟩

theorem mem_leaders {p : Nat × K} (hMem : p ∈ leaders ev round) : p ∈ survivors ev round :=
  (ranked_perm _ _).mem_iff.mp (List.mem_of_mem_take hMem)

end Tiers

section Freshness

variable {K : Type} {ev : Evaluator K} {round : Round}

def Fresh (ev : Evaluator K) (round : Round) : Prop :=
  ∀ batch ∈ round.batches, ¬ev.stale batch.ts round.received ∧ ¬ev.stale batch.ts round.sorted

theorem fresh_iff : Fresh ev round ↔
    ¬ev.stale round.batch.ts round.received ∧ ¬ev.stale round.batch.ts round.sorted := by
  have hMerged := round.merged
  constructor
  · intro hFresh
    obtain ⟨batch, hMem, hTs⟩ := hMerged.ts
    rw [← hTs]
    exact hFresh batch hMem
  · rintro ⟨hReceived, hSorted⟩ batch hMem
    have hOldest := hMerged.oldest batch hMem
    unfold stale at *
    omega

/-- The marks of a pass on batches that were fresh at both checks: the latest block and the
oldest seal. -/
structure Stamped (ev : Evaluator K) (round : Round) (e : Evaluated) : Prop where
  fresh : Fresh ev round
  block : (∃ b ∈ round.batches, b.block = e.block) ∧ ∀ b ∈ round.batches, b.block ≤ e.block
  detectedAt : (∃ b ∈ round.batches, b.ts = e.detectedAt) ∧ ∀ b ∈ round.batches, e.detectedAt ≤ b.ts

theorem stamped_iff {e : Evaluated} :
    Stamped ev round e ↔ Fresh ev round ∧ e.block = round.batch.block ∧ e.detectedAt = round.batch.ts := by
  have hMerged := round.merged
  constructor
  · rintro ⟨hFresh, ⟨⟨latest, hLatest, hBlock⟩, hBlocks⟩, ⟨oldest, hOldest, hTs⟩, hOlder⟩
    obtain ⟨top, hTop, hTopBlock⟩ := hMerged.block
    obtain ⟨last, hLast, hLastTs⟩ := hMerged.ts
    exact ⟨hFresh, le_antisymm (hBlock ▸ hMerged.blocks latest hLatest) (hTopBlock ▸ hBlocks top hTop),
      le_antisymm (hLastTs ▸ hOlder last hLast) (hTs ▸ hMerged.oldest oldest hOldest)⟩
  · rintro ⟨hFresh, hBlock, hDetected⟩
    refine ⟨hFresh, ?_, ?_⟩
    · rw [hBlock]
      exact ⟨hMerged.block, hMerged.blocks⟩
    · rw [hDetected]
      exact ⟨hMerged.ts, hMerged.oldest⟩

end Freshness

section Sending

variable {K : Type} {ev : Evaluator K} {accepts : List Evaluated → Bool} {candidates : List Evaluated}

def poolsOf (ev : Evaluator K) (e : Evaluated) : Finset Nat := (ev.store.hopPools e.opp.routeId).toFinset

/-- The loop sends the greedy selection, up to where the receiver closes. -/
theorem sendLoop_eq (hStored : ∀ e ∈ candidates, (ev.store.route e.opp.routeId).isSome) (used : List Nat)
    (sent : List Evaluated) : ∃ taken rest, select (poolsOf ev) used.toFinset candidates = taken ++ rest ∧
      ev.sendLoop accepts used sent candidates = some (sent ++ taken, rest.isEmpty) := by
  induction candidates generalizing used sent with
  | nil => exact ⟨[], [], rfl, by simp [sendLoop]⟩
  | cons e rest ih =>
    obtain ⟨hFirst, hRest⟩ := List.forall_mem_cons.mp hStored
    obtain ⟨route, hRoute⟩ := Option.isSome_iff_exists.mp hFirst
    have hPools : poolsOf ev e = (route.hops.map Hop.pool).toFinset := by
      rw [poolsOf, RouteStore.hopPools, hRoute]
      rfl
    have hUsed : (route.hops.any fun h => used.contains h.pool) = true ↔ ¬Disjoint (poolsOf ev e) used.toFinset := by
      rw [hPools, Finset.not_disjoint_iff]
      simp
    rw [sendLoop, hRoute, Option.bind_eq_bind, Option.bind_some]
    by_cases hApart : Disjoint (poolsOf ev e) used.toFinset
    · rw [if_neg (fun h => hUsed.mp h hApart), select_cons_of_disjoint hApart]
      have hNext : (route.hops.foldl (fun used h => used.insert h.pool) used).toFinset = used.toFinset ∪ poolsOf ev e := by
        rw [hPools]
        ext pool
        simp only [List.mem_toFinset, mem_insertPools, Finset.mem_union]
      cases hAccepts : accepts sent with
      | true =>
        obtain ⟨taken, left, hSelect, hLoop⟩ :=
          ih hRest (route.hops.foldl (fun used h => used.insert h.pool) used) (sent ++ [e])
        rw [hNext] at hSelect
        refine ⟨e :: taken, left, by rw [hSelect]; rfl, ?_⟩
        rw [List.append_assoc, List.singleton_append] at hLoop
        exact hLoop
      | false => exact ⟨[], e :: _, rfl, by rw [List.append_nil]; rfl⟩
    · rw [if_pos (hUsed.mpr hApart), select_cons_of_not_disjoint hApart]
      exact ih hRest used sent

end Sending

/-- The counters of a number of turns, the last of them after a closed receiver perhaps. -/
structure Counts (topN turns : Nat) (pass : Pass) : Prop where
  evaluated : pass.stats.batchesEvaluated ≤ turns
  dropped : pass.stats.batchesDroppedStale ≤ turns
  passed : pass.stats.routesTier1Passed ≤ pass.stats.routesTier1
  tier2 : pass.stats.routesTier2 ≤ pass.stats.routesTier1Passed
  topN : pass.stats.routesTier2 ≤ topN * pass.stats.batchesEvaluated
  found : pass.stats.opportunitiesFound ≤ pass.stats.routesTier2
  sent : pass.stats.opportunitiesFound = pass.sent.length + if pass.running then 0 else 1

section Turns

variable {K ε : Type} [Field K] [LinearOrder K] [FloorSemiring K] {M : SwapMath ε} {keccak : Keccak} {sqrt : K → K}
  {ev : Evaluator K} {routes : List Route} {round : Round}

/-- What the second tier finds. -/
def findings (M : SwapMath ε) (keccak : Keccak) (sqrt : K → K) (ev : Evaluator K) (round : Round) : List Evaluated :=
  (leaders ev round).filterMap fun p => (ev.tier2 M keccak sqrt round p.1).join

theorem mem_findings {e : Evaluated} : e ∈ findings M keccak sqrt ev round ↔
    ∃ p ∈ leaders ev round, ev.tier2 M keccak sqrt round p.1 = some (some e) := by
  unfold findings
  simp only [List.mem_filterMap, Option.join_eq_some_iff]

theorem leaders_eq_nil (hNone : survivors ev round = []) : leaders ev round = [] := by
  have hRanked : ranked Prod.snd ([] : List (Nat × K)) = [] := rfl
  rw [leaders, hNone, hRanked, List.take_nil]

theorem findings_eq_nil (hNone : survivors ev round = []) : findings M keccak sqrt ev round = [] := by
  rw [findings, leaders_eq_nil hNone, List.filterMap_nil]

theorem Configured.tier1 (h : ev.Configured routes) :
    ev.tier1 round (ev.store.candidateIds round.batch.pools) = some (survivors ev round) := by
  apply tier1_eq
  intro id hMem
  obtain ⟨route, hRoute, -⟩ := h.candidate.mp hMem
  exact h.product hRoute

/-- A turn on fresh batches that goes through has found no panic in its second tier. -/
theorem tier2_of_turn (h : ev.Configured routes) (hFresh : Fresh ev round) {pass : Pass}
    (hTurn : ev.turn M keccak sqrt round = some pass) :
    ∀ p ∈ leaders ev round, (ev.tier2 M keccak sqrt round p.1).isSome := by
  obtain ⟨hReceived, hSorted⟩ := fresh_iff.mp hFresh
  have hIdle : survivors ev round = [] → ∀ p ∈ leaders ev round, (ev.tier2 M keccak sqrt round p.1).isSome := by
    intro hNone p hMem
    rw [leaders_eq_nil hNone] at hMem
    cases hMem
  unfold turn at hTurn
  dsimp only at hTurn
  rw [if_neg hReceived] at hTurn
  split at hTurn
  next hNoIds => exact hIdle (by rw [survivors, hNoIds, List.filterMap_nil])
  next hIds =>
    rw [h.tier1, Option.bind_eq_bind, Option.bind_some] at hTurn
    split at hTurn
    next hNone => exact hIdle (List.isEmpty_iff.mp hNone)
    next hSome =>
      obtain ⟨candidates, hTier2, -⟩ := Option.bind_eq_some_iff.mp hTurn
      obtain ⟨found, hFound, -⟩ := Option.map_eq_some_iff.mp hTier2
      exact isSome_of_mapM hFound

theorem findings_stored (h : ev.Configured routes) {e : Evaluated} (hMem : e ∈ findings M keccak sqrt ev round) :
    (ev.store.route e.opp.routeId).isSome := by
  obtain ⟨p, hLeader, hTier⟩ := mem_findings.mp hMem
  obtain ⟨route, hRoute, -⟩ := h.candidate.mp (mem_survivors.mp (mem_leaders hLeader)).1
  obtain ⟨hId, -⟩ := (h.tier2_eq_some_iff hRoute).mp hTier
  rw [hId, hRoute]
  rfl

/-- What is sent, and the one that a closed receiver does not take, are findings. -/
theorem found_le_leaders {sent rest : List Evaluated} (hSelect : select (poolsOf ev) ∅
      (ranked (fun e => (ev.rankKey e).toNat) (findings M keccak sqrt ev round)) = sent ++ rest) :
    sent.length + (if rest.isEmpty then 0 else 1) ≤ (leaders ev round).length := by
  have hPicked : (sent ++ rest).length ≤
      (ranked (fun e => (ev.rankKey e).toNat) (findings M keccak sqrt ev round)).length := by
    rw [← hSelect]
    exact (select_sublist _ _).length_le
  rw [List.length_append, (ranked_perm _ _).length_eq] at hPicked
  refine le_trans ?_ (hPicked.trans (List.length_filterMap_le _ _))
  cases rest with
  | nil => exact Nat.le_refl _
  | cons next more => exact Nat.add_le_add_left (Nat.succ_le_succ (Nat.zero_le _)) _

/-- A turn without a panic in its second tier goes through, and what it sends is the greedy
selection of what it finds. -/
theorem turn_eq (h : ev.Configured routes)
    (hReturns : Fresh ev round → ∀ p ∈ leaders ev round, (ev.tier2 M keccak sqrt round p.1).isSome) :
    ∃ pass, ev.turn M keccak sqrt round = some pass ∧ Counts ev.cfg.tier2TopN 1 pass ∧
      (¬Fresh ev round → pass.sent = [] ∧ pass.running = true) ∧
      (Fresh ev round → ∃ rest, pass.running = rest.isEmpty ∧ select (poolsOf ev) ∅
        (ranked (fun e => (ev.rankKey e).toNat) (findings M keccak sqrt ev round)) = pass.sent ++ rest) := by
  have hLeaders : (leaders ev round).length ≤ (survivors ev round).length ∧
      (leaders ev round).length ≤ ev.cfg.tier2TopN := by
    unfold leaders
    rw [List.length_take, (ranked_perm _ _).length_eq]
    omega
  have hIdle : findings M keccak sqrt ev round = [] → Fresh ev round → ∃ rest : List Evaluated, true = rest.isEmpty ∧
      select (poolsOf ev) ∅ (ranked (fun e => (ev.rankKey e).toNat) (findings M keccak sqrt ev round)) = [] ++ rest := by
    intro hNone _
    exact ⟨[], rfl, by rw [hNone]; rfl⟩
  unfold turn
  dsimp only
  split
  next hStale =>
    refine ⟨_, rfl, ?_, fun _ => ⟨rfl, rfl⟩, fun hFresh => absurd hStale (fresh_iff.mp hFresh).1⟩
    constructor <;> simp [Stats.zero]
  next hReceived =>
    split
    next hNoIds =>
      refine ⟨_, rfl, ?_, fun _ => ⟨rfl, rfl⟩, hIdle (findings_eq_nil ?_)⟩
      · constructor <;> simp [Stats.zero]
      · rw [survivors, hNoIds, List.filterMap_nil]
    next hIds =>
      rw [h.tier1, Option.bind_eq_bind, Option.bind_some]
      split
      next hNone =>
        refine ⟨_, rfl, ?_, fun _ => ⟨rfl, rfl⟩, hIdle (findings_eq_nil (List.isEmpty_iff.mp hNone))⟩
        constructor <;> simp [Stats.zero]
      next hSome =>
        have hFewer : (survivors ev round).length ≤ (ev.store.candidateIds round.batch.pools).length :=
          List.length_filterMap_le _ _
        split
        next hStale =>
          refine ⟨_, rfl, ?_, fun _ => ⟨rfl, rfl⟩, fun hFresh => absurd hStale (fresh_iff.mp hFresh).2⟩
          constructor <;> simp [Stats.zero, hFewer]
        next hSorted =>
          have hTimely : Fresh ev round := fresh_iff.mpr ⟨hReceived, hSorted⟩
          have hTier2 : ((leaders ev round).mapM fun p => ev.tier2 M keccak sqrt round p.1).map List.reduceOption =
              some (findings M keccak sqrt ev round) := mapM_reduceOption (hReturns hTimely)
          have hFound : ∀ e ∈ ranked (fun e => (ev.rankKey e).toNat) (findings M keccak sqrt ev round),
              (ev.store.route e.opp.routeId).isSome := by
            intro e hMem
            exact findings_stored h ((ranked_perm _ _).mem_iff.mp hMem)
          obtain ⟨sent, rest, hSelect, hLoop⟩ := @sendLoop_eq _ _ round.accepts _ hFound [] []
          rw [show List.take ev.cfg.tier2TopN (ranked Prod.snd (survivors ev round)) = leaders ev round from rfl, hTier2,
            Option.bind_eq_bind, Option.bind_some, hLoop]
          refine ⟨_, rfl, ?_, fun hNot => absurd hTimely hNot, fun _ => ⟨rest, rfl, hSelect⟩⟩
          exact {
            evaluated := Nat.le_refl 1
            dropped := Nat.zero_le 1
            passed := hFewer
            tier2 := hLeaders.1
            topN := hLeaders.2.trans_eq (Nat.mul_one _).symm
            found := found_le_leaders hSelect
            sent := rfl }

end Turns

section Vetting

variable {K ε : Type} [Field K] [LinearOrder K] [FloorSemiring K] (M : SwapMath ε) (keccak : Keccak) (sqrt : K → K)
  (ev : Evaluator K) (round : Round)

/-- A route through a pool that the batches flagged, of a product above the gate. -/
structure Survives (id : Nat) (route : Route) (prod : K) : Prop where
  stored : ev.store.route id = some route
  touched : ∃ hop ∈ route.hops, ∃ b ∈ round.batches, hop.pool ∈ b.pools
  product : ev.product round id = some prod
  above : ev.gate < prod

/-- The number of candidates of such products. -/
def ahead (q : K → Bool) : Nat := (ev.store.candidateIds round.batch.pools).countP fun id => (ev.product round id).any q

/-- What stands behind an opportunity that is sent: a route whose product fewer than
`tier2TopN` candidates exceed, the size that the optimizer returned, and the gate. -/
structure Vetted (e : Evaluated) : Prop where
  stamped : Stamped ev round e
  leads : ∃ route prod, Survives ev round e.opp.routeId route prod ∧ ahead ev round (prod < ·) < ev.cfg.tier2TopN ∧
    Sized M keccak sqrt ev round route e

/-- An opportunity that is as good on a route among the first whatever the order of ties. -/
structure Due (e : Evaluated) : Prop where
  stamped : Stamped ev round e
  leads : ∃ route prod, Survives ev round e.opp.routeId route prod ∧ ahead ev round (prod ≤ ·) ≤ ev.cfg.tier2TopN ∧
    Sized M keccak sqrt ev round route e

/-- On fresh batches, the exact quote of the size chosen for a route of the second tier panics. -/
def Panics : Prop :=
  Fresh ev round ∧ ∃ id route prod, Survives ev round id route prod ∧ ahead ev round (prod < ·) < ev.cfg.tier2TopN ∧
    ∃ anchor x, ev.anchorOf route.anchor = some anchor ∧
      candidateSize M keccak sqrt ev.engine (round.view id).tier2 route (minIn anchor) (maxIn anchor) = some (some x) ∧
      quoteRoute M keccak ev.engine (round.view id).tier2 route (wholeAmount x) = none

variable {M keccak sqrt ev round} {routes : List Route}

theorem survives_of_mem (h : ev.Configured routes) {p : Nat × K} (hMem : p ∈ survivors ev round) :
    ∃ route, Survives ev round p.1 route p.2 := by
  obtain ⟨hCandidate, hProduct, hGate⟩ := mem_survivors.mp hMem
  obtain ⟨route, hRoute, hop, hHop, hPool⟩ := h.candidate.mp hCandidate
  exact ⟨route, hRoute, ⟨hop, hHop, (round.merged.pools _).mp hPool⟩, hProduct, hGate⟩

theorem Survives.mem (h : ev.Configured routes) {id : Nat} {route : Route} {prod : K}
    (hSurvives : Survives ev round id route prod) : (id, prod) ∈ survivors ev round := by
  obtain ⟨hop, hHop, hTouched⟩ := hSurvives.touched
  have hCandidate : id ∈ ev.store.candidateIds round.batch.pools :=
    h.candidate.mpr ⟨route, hSurvives.stored, hop, hHop, (round.merged.pools _).mpr hTouched⟩
  exact mem_survivors.mpr ⟨hCandidate, hSurvives.product, hSurvives.above⟩

theorem ahead_of_leader {p : Nat × K} (hLeader : p ∈ leaders ev round) : ahead ev round (p.2 < ·) < ev.cfg.tier2TopN := by
  obtain ⟨-, -, hGate⟩ := mem_survivors.mp (mem_leaders hLeader)
  rw [ahead, ← countP_survivors _ fun prod hAhead => hGate.trans (of_decide_eq_true hAhead)]
  exact ahead_lt_of_mem_take hLeader

theorem findings_vetted (h : ev.Configured routes) (hFresh : Fresh ev round) {e : Evaluated}
    (hMem : e ∈ findings M keccak sqrt ev round) : Vetted M keccak sqrt ev round e := by
  obtain ⟨p, hLeader, hTier⟩ := mem_findings.mp hMem
  obtain ⟨route, hSurvives⟩ := survives_of_mem h (mem_leaders hLeader)
  obtain ⟨hId, hBlock, hDetected, hSized⟩ := (h.tier2_eq_some_iff hSurvives.stored).mp hTier
  rw [← hId] at hSurvives
  exact ⟨stamped_iff.mpr ⟨hFresh, hBlock, hDetected⟩, route, p.2, hSurvives, ahead_of_leader hLeader, hSized⟩

theorem Due.mem_findings (h : ev.Configured routes) {e : Evaluated} (hDue : Due M keccak sqrt ev round e) :
    e ∈ findings M keccak sqrt ev round := by
  obtain ⟨route, prod, hSurvives, hFew, hSized⟩ := hDue.leads
  obtain ⟨-, hBlock, hDetected⟩ := stamped_iff.mp hDue.stamped
  refine Evaluator.mem_findings.mpr ⟨(e.opp.routeId, prod), ?_,
    (h.tier2_eq_some_iff hSurvives.stored).mpr ⟨rfl, hBlock, hDetected, hSized⟩⟩
  apply mem_take_ranked_of_le (hSurvives.mem h)
  rw [ahead, ← countP_survivors _ fun other hAsHigh => hSurvives.above.trans_le (of_decide_eq_true hAsHigh)] at hFew
  exact hFew

end Vetting

section Runs

variable {K ε : Type} [Field K] [LinearOrder K] [FloorSemiring K] (M : SwapMath ε) (keccak : Keccak) (sqrt : K → K)
  (ev : Evaluator K)

/-- What a turn comes to. With the receiver open, what was due and is not sent has a pool in
common with something sent that ranks as high. -/
structure Outcome (round : Round) (pass : Pass) : Prop where
  vetted : ∀ e ∈ pass.sent, Vetted M keccak sqrt ev round e
  disjoint : pass.sent.Pairwise fun a b => Disjoint (poolsOf ev a) (poolsOf ev b)
  due : pass.running = true → ∀ e, Due M keccak sqrt ev round e → e ∈ pass.sent ∨
    ∃ other ∈ pass.sent, ev.rankKey e ≤ ev.rankKey other ∧ ¬Disjoint (poolsOf ev other) (poolsOf ev e)

variable {M keccak sqrt ev} {routes : List Route}

theorem turn_outcome (h : ev.Configured routes) {round : Round} {pass : Pass}
    (hTurn : ev.turn M keccak sqrt round = some pass) :
    Counts ev.cfg.tier2TopN 1 pass ∧ Outcome M keccak sqrt ev round pass := by
  obtain ⟨other, hOther, hCounts, hStale, hFresh⟩ : ∃ pass, ev.turn M keccak sqrt round = some pass ∧ _ :=
    turn_eq h fun hTimely => tier2_of_turn h hTimely hTurn
  obtain rfl := Option.some.inj (hTurn.symm.trans hOther)
  refine ⟨hCounts, ?_⟩
  by_cases hTimely : Fresh ev round
  · obtain ⟨rest, hRunning, hSelect⟩ := hFresh hTimely
    have hPerm := ranked_perm (fun e => (ev.rankKey e).toNat) (findings M keccak sqrt ev round)
    have hSent : ∀ e ∈ pass.sent, e ∈ findings M keccak sqrt ev round := by
      intro e hMem
      apply hPerm.mem_iff.mp
      have hSub : (pass.sent ++ rest).Sublist (ranked (fun e => (ev.rankKey e).toNat) (findings M keccak sqrt ev round)) := by
        rw [← hSelect]
        exact select_sublist ∅ _
      exact hSub.subset (List.mem_append_left rest hMem)
    refine ⟨fun e hMem => findings_vetted h hTimely (hSent e hMem), ?_, fun hOpen e hDue => ?_⟩
    · have hPairs : (pass.sent ++ rest).Pairwise fun a b => Disjoint (poolsOf ev a) (poolsOf ev b) := by
        rw [← hSelect]
        exact @select_pairwise Evaluated Nat _ (poolsOf ev) _ _
      exact hPairs.sublist (List.sublist_append_left _ _)
    · rw [hRunning, List.isEmpty_iff] at hOpen
      rw [hOpen, List.append_nil] at hSelect
      obtain ⟨before, after, hSplit⟩ := List.append_of_mem (hPerm.mem_iff.mpr (hDue.mem_findings h))
      have hSorted := ranked_pairwise (fun e => (ev.rankKey e).toNat) (findings M keccak sqrt ev round)
      rw [← hSelect]
      obtain ⟨kept, left, hTaken, -, -⟩ | hUsed | ⟨other, hBefore, hTaken, hShares⟩ := select_at (poolsOf ev) ∅ hSplit
      · left
        rw [hTaken]
        exact List.mem_append_right kept List.mem_cons_self
      · exact absurd (Finset.disjoint_empty_right _) hUsed
      · rw [hSplit] at hSorted
        exact .inr ⟨other, hTaken, (List.pairwise_append.mp hSorted).2.2 other hBefore e List.mem_cons_self, hShares⟩
  · obtain ⟨hNone, -⟩ := hStale hTimely
    refine ⟨fun e hMem => ?_, ?_, fun _ e hDue => absurd hDue.stamped.fresh hTimely⟩
    · rw [hNone] at hMem
      cases hMem
    · rw [hNone]
      exact List.Pairwise.nil

theorem Counts.add {topN n : Nat} {here later : Pass} (hHere : Counts topN 1 here) (hRunning : here.running = true)
    (hLater : Counts topN n later) :
    Counts topN (n + 1) ⟨here.stats.add later.stats, here.sent ++ later.sent, later.running⟩ := by
  have hSent := hHere.sent
  rw [hRunning, if_pos rfl] at hSent
  refine ⟨?_, ?_, ?_, ?_, ?_, ?_, ?_⟩
  · exact (Nat.add_le_add hHere.evaluated hLater.evaluated).trans_eq (Nat.add_comm 1 n)
  · exact (Nat.add_le_add hHere.dropped hLater.dropped).trans_eq (Nat.add_comm 1 n)
  · exact Nat.add_le_add hHere.passed hLater.passed
  · exact Nat.add_le_add hHere.tier2 hLater.tier2
  · exact (Nat.add_le_add hHere.topN hLater.topN).trans_eq (Nat.mul_add _ _ _).symm
  · exact Nat.add_le_add hHere.found hLater.found
  · change here.stats.opportunitiesFound + later.stats.opportunitiesFound = _
    rw [hSent, hLater.sent, List.length_append, Nat.add_zero, Nat.add_assoc]

theorem Counts.mono {topN n m : Nat} {pass : Pass} (h : Counts topN n pass) (hLe : n ≤ m) : Counts topN m pass :=
  { h with evaluated := h.evaluated.trans hLe, dropped := h.dropped.trans hLe }

theorem run_outcome (h : ev.Configured routes) {rounds : List Round} {pass : Pass}
    (hRun : ev.run M keccak sqrt rounds = some pass) : Counts ev.cfg.tier2TopN rounds.length pass ∧
      ∃ turns : List (Round × Pass), (turns.map Prod.fst) <+: rounds ∧ (pass.running = true → turns.map Prod.fst = rounds) ∧
        pass.sent = turns.flatMap (fun t => t.2.sent) ∧
        ∀ t ∈ turns, ev.turn M keccak sqrt t.1 = some t.2 ∧ Outcome M keccak sqrt ev t.1 t.2 ∧
          (pass.running = true → t.2.running = true) := by
  induction rounds generalizing pass with
  | nil =>
    cases hRun
    refine ⟨?_, [], List.nil_prefix, fun _ => rfl, rfl, fun t ht => absurd ht List.not_mem_nil⟩
    constructor <;> simp [Stats.zero]
  | cons round rest ih =>
    obtain ⟨here, hTurn, hRest⟩ := Option.bind_eq_some_iff.mp hRun
    obtain ⟨hCounts, hOutcome⟩ := turn_outcome h hTurn
    split at hRest
    next hRunning =>
      obtain ⟨later, hLater, hPass⟩ := Option.bind_eq_some_iff.mp hRest
      obtain ⟨hLaterCounts, turns, hPrefix, hAll, hSent, hTurns⟩ := ih hLater
      cases hPass
      refine ⟨hCounts.add hRunning hLaterCounts, (round, here) :: turns, ?_, fun hOpen => ?_, ?_, ?_⟩
      · exact List.cons_prefix_cons.mpr ⟨rfl, hPrefix⟩
      · rw [List.map_cons, hAll hOpen]
      · rw [List.flatMap_cons, ← hSent]
      · rintro t (_ | ⟨_, ht⟩)
        · exact ⟨hTurn, hOutcome, fun _ => hRunning⟩
        · exact hTurns t ht
    next hClosed =>
      cases hRest
      refine ⟨hCounts.mono (Nat.succ_le_succ (Nat.zero_le _)), [(round, pass)], ?_, fun hOpen => absurd hOpen hClosed, ?_, ?_⟩
      · exact List.cons_prefix_cons.mpr ⟨rfl, List.nil_prefix⟩
      · rw [List.flatMap_singleton]
      · rintro t (_ | ⟨_, ⟨⟩⟩)
        exact ⟨hTurn, hOutcome, id⟩

variable [IsStrictOrderedRing K]

theorem panics_of_turn (h : ev.Configured routes) {round : Round} (hTurn : ev.turn M keccak sqrt round = none) :
    Panics M keccak sqrt ev round := by
  by_contra hNot
  obtain ⟨pass, hPass, -⟩ : ∃ pass, ev.turn M keccak sqrt round = some pass ∧ _ := by
    refine turn_eq h fun hFresh p hLeader => ?_
    by_contra hNone
    rw [Option.not_isSome_iff_eq_none] at hNone
    obtain ⟨route, hSurvives⟩ := survives_of_mem h (mem_leaders hLeader)
    exact hNot ⟨hFresh, p.1, route, p.2, hSurvives, ahead_of_leader hLeader, h.tier2_eq_none hSurvives.stored hNone⟩
  rw [hTurn] at hPass
  cases hPass

theorem panics_of_run (h : ev.Configured routes) {rounds : List Round} (hRun : ev.run M keccak sqrt rounds = none) :
    ∃ round ∈ rounds, Panics M keccak sqrt ev round := by
  induction rounds with
  | nil => cases hRun
  | cons round rest ih =>
    cases hTurn : ev.turn M keccak sqrt round with
    | none => exact ⟨round, List.mem_cons_self, panics_of_turn h hTurn⟩
    | some here =>
      rw [run, hTurn, Option.bind_eq_bind, Option.bind_some] at hRun
      split at hRun
      · cases hRest : ev.run M keccak sqrt rest with
        | none =>
          obtain ⟨later, hLater, hPanics⟩ := ih hRest
          exact ⟨later, List.mem_cons_of_mem _ hLater, hPanics⟩
        | some later =>
          rw [hRest, Option.bind_some] at hRun
          cases hRun
      · cases hRun

/-- The stored routes run over packed pairs, at fees of at most 100 %. -/
def OverPackedPairs (ev : Evaluator K) (round : Round) : Prop :=
  ∀ id route, ev.store.route id = some route → ∀ hop ∈ route.hops, ∃ pool addr slot, ev.engine.metaOf hop.pool = some pool ∧
    (round.view id).tier2.plan pool.idx = some (.v2Packed addr slot) ∧ pool.feeBps.toNat ≤ 10000

/-- Over packed pairs every run goes through. -/
theorem run_returns_of_packed (h : ev.Configured routes) {rounds : List Round}
    (hPacked : ∀ round ∈ rounds, OverPackedPairs ev round) : (ev.run M keccak sqrt rounds).isSome := by
  by_contra hNone
  rw [Option.not_isSome_iff_eq_none] at hNone
  obtain ⟨round, hRound, -, id, route, prod, hSurvives, -, anchor, x, -, -, hQuote⟩ := panics_of_run h hNone
  have hReturns : (quoteRoute M keccak ev.engine (round.view id).tier2 route (wholeAmount x)).isSome :=
    quoteHops_returns (hPacked round hRound id route hSurvives.stored) (wholeAmount_lt x)
  rw [hQuote] at hReturns
  cases hReturns

end Runs

end Robinarb.Evaluator
