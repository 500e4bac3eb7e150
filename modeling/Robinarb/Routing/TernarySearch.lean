import Robinarb.Library.ConcaveSearch
import Robinarb.Math.V2Exact
import Robinarb.Routing.ClosedForm

/-! # The search over mixed routes

Concave hops make a concave chain. The probe at the smallest size then speaks for every
larger one, and the thirds of `ternary_search` always keep a best size between them.
-/

namespace Robinarb

open ConcaveSearch

section Chain

variable {K : Type} [Field K] [LinearOrder K] [IsStrictOrderedRing K]

theorem V2.HopCoef.Positive.saturating {coef : V2.HopCoef K} (hCoef : coef.Positive) : Saturating coef.eval := by
  constructor
  · intro x hx y _ hxy
    exact hCoef.eval_mono hx hxy
  · exact LinearFractional.give_concave hCoef.a.le hCoef.b hCoef.c.le
  · exact LinearFractional.give_zero _ _ _

theorem ConstantProductHop.saturating {h : K × K × U32} (hHop : ConstantProductHop h) :
    Saturating fun x => V2.getAmountOutF64 x h.1 h.2.1 h.2.2 :=
  hHop.positive.saturating.congr fun _ hx => hHop.getAmountOutF64_eq hx

variable [FloorSemiring K] {ε : Type} {M : SwapMath ε} {keccak : Keccak} {solve : K → K → K → K} {engine : Engine}
  {s : ChainState}

/-- Each hop of the list is registered, and its float quote is concave. -/
def ConcaveHops (M : SwapMath ε) (keccak : Keccak) (solve : K → K → K → K) (engine : Engine) (s : ChainState)
    (hops : List Hop) : Prop :=
  ∀ hop ∈ hops, ∃ pool, engine.metaOf hop.pool = some pool ∧
    Saturating fun x : K => quoteF64With M keccak solve s pool x hop.zeroForOne

/-- The chain, early exit included, has the shape of its hops. -/
theorem quoteHopsF64_saturating {hops : List Hop} (hHops : ConcaveHops M keccak solve engine s hops) :
    ∃ chained : K → K, (∀ x, quoteHopsF64With M keccak solve engine s hops x = some (chained x)) ∧
      Saturating chained := by
  induction hops with
  | nil => exact ⟨fun x => x, fun _ => rfl, Saturating.id⟩
  | cons hop rest ih =>
    obtain ⟨hHop, hRest⟩ := List.forall_mem_cons.mp hHops
    obtain ⟨pool, hPool, hShape⟩ := hHop
    obtain ⟨later, hLater, hLaterShape⟩ := ih hRest
    refine ⟨fun x => if quoteF64With M keccak solve s pool x hop.zeroForOne ≤ 0 then 0
      else later (quoteF64With M keccak solve s pool x hop.zeroForOne), fun x => ?_, ?_⟩
    · rw [quoteHopsF64With, hPool, Option.bind_eq_bind, Option.bind_some]
      dsimp only
      split
      · rfl
      · exact hLater _
    · apply (hLaterShape.comp hShape).congr
      intro x hx
      split
      · rename_i hNone
        -- an output that is not positive is zero, which the later hops keep
        rw [le_antisymm hNone (hShape.nonneg hx), hLaterShape.zero]
      · rfl

end Chain

section Search

variable {K : Type} [Field K] [LinearOrder K] {profit : K → Option K} {p : K → K}

theorem ternaryLoop_eq (hProfit : ∀ x, profit x = some (p x)) (n : Nat) (range : K × K) :
    ternaryLoop profit n range = some ((thirds p)^[n] range) := by
  induction n generalizing range with
  | zero => rfl
  | succ n ih =>
    have hStep : ternaryStep profit range = some (thirds p range) := by
      simp only [ternaryStep, hProfit, Option.bind_eq_bind, Option.bind_some]
      rfl
    rw [ternaryLoop, hStep, Option.bind_eq_bind, Option.bind_some, ih]
    rfl

end Search

section Routes

variable {ε : Type} {M : SwapMath ε} {keccak : Keccak} {engine : Engine} {s : ChainState} {route : Route}

/-- A route of concave hops: its chain is concave, the probe prunes no profitable size,
and every turn of the search keeps a best one. -/
theorem search_sound (hHops : ConcaveHops M keccak (AeroStable.newton (K := ℝ)) engine s route.hops) :
    ∃ chained : ℝ → ℝ, (∀ x, quoteRouteF64 M keccak engine s route x = some (chained x)) ∧
      MonotoneOn chained (Set.Ici 0) ∧ ConcaveOn ℝ (Set.Ici 0) chained ∧ chained 0 = 0 ∧
      ∀ minIn maxIn, 0 < minIn → minIn ≤ maxIn →
        (chained minIn - minIn ≤ 0 → ∀ x ∈ Set.Icc minIn maxIn, chained x - x ≤ 0) ∧
        (isPureV2 ℝ engine s route = some none →
          candidateSize M keccak Real.sqrt engine s route minIn maxIn = some none →
          ∀ x ∈ Set.Icc minIn maxIn, chained x - x ≤ 0) ∧
        ∀ k, ∃ lo hi, ternaryLoop (routeProfit M keccak engine s route) k (minIn, maxIn) = some (lo, hi) ∧
          hi - lo = (2 / 3) ^ k * (maxIn - minIn) ∧
          ∃ best ∈ Set.Icc lo hi, ∀ x ∈ Set.Icc minIn maxIn, chained x - x ≤ chained best - best := by
  obtain ⟨chained, hChained, hShape⟩ := quoteHopsF64_saturating hHops
  refine ⟨chained, hChained, hShape.mono, hShape.concave, hShape.zero, ?_⟩
  intro minIn maxIn hMin hRange
  have hProfit : ∀ x, routeProfit M keccak engine s route x = some (chained x - x) := by
    intro x
    rw [routeProfit, quoteRouteF64, hChained]
    rfl
  have hProbe : chained minIn - minIn ≤ 0 → ∀ x ∈ Set.Icc minIn maxIn, chained x - x ≤ 0 := by
    intro hNone x hx
    exact sub_nonpos.mpr (hShape.le_of_probe hMin (sub_nonpos.mp hNone) hx.1)
  have hConcave : ConcaveOn ℝ (Set.Ici 0) fun x => chained x - x := hShape.concave.sub (convexOn_id (convex_Ici 0))
  constructor
  · exact hProbe
  constructor
  · intro hMixed hGivenUp
    simp only [candidateSize, hMixed, hProfit, Option.bind_eq_bind, Option.bind_some] at hGivenUp
    split at hGivenUp
    · exact hProbe ‹_›
    · -- past the probe a size is found
      rw [ternarySearch, ternaryLoop_eq hProfit, Option.map_some, Option.bind_some, clampF64_eq hRange] at hGivenUp
      cases hGivenUp
  · intro k
    have hMax := exists_max hConcave hMin hRange
    have hInside : ConcaveOn ℝ (Set.Icc minIn maxIn) fun x => chained x - x :=
      hConcave.subset (fun x hx => hMin.le.trans hx.1) (convex_Icc minIn maxIn)
    obtain ⟨hHolds, hLength⟩ := iterate_thirds hInside (r := (minIn, maxIn)) hRange subset_rfl hMax k
    exact ⟨_, _, ternaryLoop_eq hProfit k (minIn, maxIn), hLength, hHolds⟩

/-- There and back through one pair. -/
def pairRoute : Route := ⟨0, 2#160, [⟨0, true, 2#160⟩, ⟨0, false, 3#160⟩]⟩

def pairEngine : Engine := ⟨[packedPair], [(1#160, 0)]⟩

theorem packedPair_reserves : pureReserves ℝ packedState 0 packedPair = some (1000, 2000) := by
  have hDecoded : decodeV2Packed (packedState.read 1#160 8#256) = (1000#128, 2000#128) := by decide
  have hPlan : packedState.plan 0 = some (.v2Packed 1#160 8#256) := rfl
  unfold pureReserves
  rw [hPlan]
  dsimp only
  rw [hDecoded]
  norm_num

theorem pairRoute_concave :
    ConcaveHops referenceMath referenceKeccak (AeroStable.newton (K := ℝ)) pairEngine packedState pairRoute.hops := by
  have hHop : ∀ zeroForOne, Saturating fun x : ℝ =>
      quoteF64With referenceMath referenceKeccak AeroStable.newton packedState packedPair x zeroForOne := by
    intro zeroForOne
    have hShape : ConstantProductHop ((inDirection zeroForOne ((1000 : ℝ), (2000 : ℝ))).1,
        (inDirection zeroForOne ((1000 : ℝ), (2000 : ℝ))).2, packedPair.feeBps) := by
      cases zeroForOne <;> constructor <;> norm_num [inDirection, packedPair]
    apply hShape.saturating.congr
    intro x _
    exact pureReserves_quote rfl packedPair_reserves x zeroForOne
  rintro hop (_ | ⟨_, _ | ⟨_, ⟨⟩⟩⟩)
  · exact ⟨packedPair, rfl, hHop true⟩
  · exact ⟨packedPair, rfl, hHop false⟩

theorem pairRoute_search : ∃ lo hi : ℝ,
    ternaryLoop (routeProfit referenceMath referenceKeccak pairEngine packedState pairRoute) 60 (1, 100) =
      some (lo, hi) ∧ hi - lo = (2 / 3) ^ 60 * (100 - 1) := by
  obtain ⟨chained, -, -, -, -, hSearch⟩ := search_sound pairRoute_concave
  obtain ⟨-, -, hTurns⟩ := hSearch 1 100 one_pos (by norm_num)
  obtain ⟨lo, hi, hLoop, hLength, -⟩ := hTurns 60
  exact ⟨lo, hi, hLoop, hLength⟩

end Routes

end Robinarb
