import Robinarb.Library.ConstantProduct
import Robinarb.Library.LinearFractional
import Robinarb.Routing.Optimizer
import Mathlib.Analysis.Real.Sqrt

/-! # The closed-form size

A chain of constant-product hops is one linear-fractional function, so that
`closed_form_optimal` sits at the peak of its profit, and the search range cuts it off at
the best size it allows.
-/

namespace Robinarb

open LinearFractional

section Chain

variable {K : Type} [Field K] [LinearOrder K]

/-- The hop-by-hop quote of `quote_route_f64` over constant-product hops. -/
def chainF64 : List (K × K × U32) → K → K
  | [], amt => amt
  | h :: rest, amt =>
    let out := V2.getAmountOutF64 amt h.1 h.2.1 h.2.2
    if out ≤ 0 then 0 else chainF64 rest out

/-- Positive reserves, and a fee below 100 %. -/
structure ConstantProductHop (h : K × K × U32) : Prop where
  reserveIn : 0 < h.1
  reserveOut : 0 < h.2.1
  fee : h.2.2.toNat < 10000

structure V2.HopCoef.Positive (coef : V2.HopCoef K) : Prop where
  a : 0 < coef.a
  b : 0 < coef.b
  c : 0 < coef.c

def V2.HopCoef.eval (coef : V2.HopCoef K) (x : K) : K := give coef.a coef.b coef.c x

theorem chainF64_zero (hops : List (K × K × U32)) : chainF64 hops 0 = 0 := by
  cases hops with
  | nil => rfl
  | cons h rest =>
    unfold chainF64 V2.getAmountOutF64
    simp only [le_refl, true_or, if_true]

theorem ConstantProductHop.getAmountOutF64_eq {h : K × K × U32} {x : K} (hHop : ConstantProductHop h) (hx : 0 ≤ x) :
    V2.getAmountOutF64 x h.1 h.2.1 h.2.2 = (V2.hopCoef h.1 h.2.1 h.2.2).eval x := by
  unfold V2.getAmountOutF64
  rcases hx.eq_or_lt with rfl | hPositive
  · rw [if_pos (.inl le_rfl), V2.HopCoef.eval, give_zero]
  · rw [if_neg (by simp only [hPositive.not_ge, hHop.reserveIn.not_ge, hHop.reserveOut.not_ge, or_self,
      not_false_eq_true])]
    simp only [V2.HopCoef.eval, V2.hopCoef, give]
    rw [mul_comm x, mul_right_comm]

variable [IsStrictOrderedRing K] {coef f g : V2.HopCoef K} {h : K × K × U32} {rest : List (K × K × U32)} {x y : K}

theorem ConstantProductHop.positive (hHop : ConstantProductHop h) : (V2.hopCoef h.1 h.2.1 h.2.2).Positive := by
  have hFactor : 0 < feeFactor K h.2.2 := feeFactor_pos hHop.fee
  constructor
  · exact mul_pos hFactor hHop.reserveOut
  · exact hHop.reserveIn
  · exact hFactor

theorem V2.HopCoef.Positive.compose (hf : f.Positive) (hg : g.Positive) : (V2.compose f g).Positive := by
  constructor
  · exact mul_pos hg.a hf.a
  · exact mul_pos hg.b hf.b
  · exact add_pos (mul_pos hg.b hf.c) (mul_pos hg.c hf.a)

theorem V2.HopCoef.Positive.eval_nonneg (hf : f.Positive) (hx : 0 ≤ x) : 0 ≤ f.eval x :=
  give_nonneg hf.a.le hf.b hf.c.le hx

theorem V2.HopCoef.Positive.eval_mono (hf : f.Positive) (hx : 0 ≤ x) (hxy : x ≤ y) : f.eval x ≤ f.eval y :=
  give_mono hf.a.le hf.b hf.c.le hx hxy

theorem V2.HopCoef.Positive.eval_compose (hf : f.Positive) (g : V2.HopCoef K) (hx : 0 ≤ x) :
    (V2.compose f g).eval x = g.eval (f.eval x) :=
  (give_give (divisor_pos hf.b hf.c.le hx).ne' _ _ _ _).symm

theorem ConstantProductHop.chainF64_cons (hHop : ConstantProductHop h) (rest : List (K × K × U32)) (hx : 0 ≤ x) :
    chainF64 (h :: rest) x = chainF64 rest ((V2.hopCoef h.1 h.2.1 h.2.2).eval x) := by
  rw [chainF64, hHop.getAmountOutF64_eq hx]
  split
  · rename_i hNone
    rw [le_antisymm hNone (hHop.positive.eval_nonneg hx), chainF64_zero]
  · rfl

theorem chainF64_mono {hops : List (K × K × U32)} (hHops : ∀ h ∈ hops, ConstantProductHop h) (hx : 0 ≤ x)
    (hxy : x ≤ y) : chainF64 hops x ≤ chainF64 hops y := by
  induction hops generalizing x y with
  | nil => exact hxy
  | cons h rest ih =>
    obtain ⟨hHop, hRest⟩ := List.forall_mem_cons.mp hHops
    rw [hHop.chainF64_cons rest hx, hHop.chainF64_cons rest (hx.trans hxy)]
    exact ih hRest (hHop.positive.eval_nonneg hx) (hHop.positive.eval_mono hx hxy)

/-- The loop of `closed_form_optimal`: what is composed so far, then the hops left. -/
theorem foldl_compose (hCoef : coef.Positive) (hHops : ∀ h ∈ rest, ConstantProductHop h) :
    let last := rest.foldl (fun coef h => V2.compose coef (V2.hopCoef h.1 h.2.1 h.2.2)) coef
    last.Positive ∧ ∀ x, 0 ≤ x → last.eval x = chainF64 rest (coef.eval x) := by
  induction rest generalizing coef with
  | nil => exact ⟨hCoef, fun _ _ => rfl⟩
  | cons h rest ih =>
    obtain ⟨hHop, hRest⟩ := List.forall_mem_cons.mp hHops
    obtain ⟨hLast, hEval⟩ := ih (hCoef.compose hHop.positive) hRest
    constructor
    · exact hLast
    · intro x hx
      rw [hHop.chainF64_cons rest (hCoef.eval_nonneg hx), ← hCoef.eval_compose _ hx]
      exact hEval x hx

theorem composeHops_eval {first : K × K × U32} (hHops : ∀ h ∈ first :: rest, ConstantProductHop h) :
    (composeHops first rest).Positive ∧
      ∀ x, 0 ≤ x → (composeHops first rest).eval x = chainF64 (first :: rest) x := by
  obtain ⟨hFirst, hRest⟩ := List.forall_mem_cons.mp hHops
  obtain ⟨hPositive, hEval⟩ := foldl_compose hFirst.positive hRest
  constructor
  · exact hPositive
  · intro x hx
    rw [hFirst.chainF64_cons rest hx]
    exact hEval x hx

end Chain

section Whole

/-- The floor divisions of a chain. -/
def exactChain : List (Nat × Nat × U32) → Nat → Nat
  | [], amt => amt
  | h :: rest, amt => exactChain rest (ConstantProduct.out (h.1 * 10000) h.2.1 (amt * (10000 - h.2.2.toNat)))

/-- The loop of `quote_route` over the reserve words of a chain. -/
def chainWords : List (U256 × U256 × U32) → U256 → Option (Option U256)
  | [], amt => some (some amt)
  | h :: rest, amt => do
    let out ← V2.getAmountOut amt h.1 h.2.1 h.2.2
    if out = 0#256 then return none else chainWords rest out

/-- No product of the chain reaches `2 ^ 256`. -/
def FitsAlong : List (U256 × U256 × U32) → U256 → Prop
  | [], _ => True
  | h :: rest, amt => V2.Fits h.1.toNat h.2.1.toNat h.2.2.toNat amt.toNat ∧
    ∀ out, V2.getAmountOut amt h.1 h.2.1 h.2.2 = some out → FitsAlong rest out

def wholeHop (h : U256 × U256 × U32) : Nat × Nat × U32 := (h.1.toNat, h.2.1.toNat, h.2.2)

theorem chainWords_toNat {words : List (U256 × U256 × U32)} {amt out : U256} (hIn : ∀ h ∈ words, h.1 ≠ 0#256)
    (hFee : ∀ h ∈ words, h.2.2.toNat ≤ 10000) (hFits : FitsAlong words amt)
    (hOut : chainWords words amt = some (some out)) : out.toNat = exactChain (words.map wholeHop) amt.toNat := by
  induction words generalizing amt with
  | nil =>
    cases hOut
    rfl
  | cons h rest ih =>
    obtain ⟨hHere, hLater⟩ := hFits
    obtain ⟨hIn, hRestIn⟩ := List.forall_mem_cons.mp hIn
    obtain ⟨hFee, hRestFee⟩ := List.forall_mem_cons.mp hFee
    obtain ⟨first, hFirst, hValue⟩ := V2.getAmountOut_toNat hFee hIn hHere
    rw [chainWords, hFirst] at hOut
    have hRest : chainWords rest first = some (some out) := by
      by_cases hZero : first = 0#256
      · rw [Option.bind_eq_bind, Option.bind_some, if_pos hZero] at hOut
        cases hOut
      · rw [Option.bind_eq_bind, Option.bind_some, if_neg hZero] at hOut
        exact hOut
    rw [ih hRestIn hRestFee (hLater first hFirst) hRest, hValue]
    rfl

variable {K : Type} [Field K] [LinearOrder K] [IsStrictOrderedRing K]

variable (K) in
def exactHop (h : Nat × Nat × U32) : K × K × U32 := ((h.1 : K), (h.2.1 : K), h.2.2)

theorem ConstantProductHop.out_le {h : Nat × Nat × U32} (hHop : ConstantProductHop (exactHop K h)) (n : Nat) :
    (ConstantProduct.out (h.1 * 10000) h.2.1 (n * (10000 - h.2.2.toNat)) : K) ≤
      (V2.hopCoef (h.1 : K) (h.2.1 : K) h.2.2).eval (n : K) := by
  have hFee : h.2.2.toNat ≤ 10000 := hHop.fee.le
  have hFactor : ((10000 - h.2.2.toNat : Nat) : K) = feeFactor K h.2.2 * 10000 := by
    rw [feeFactor_eq hFee, div_mul_cancel₀ _ (by norm_num)]
  refine (ConstantProduct.out_le_exact _ _ _).trans_eq ?_
  rw [Nat.cast_mul, Nat.cast_mul, hFactor]
  simp only [V2.HopCoef.eval, V2.hopCoef, give, Nat.cast_ofNat]
  rw [← mul_div_mul_right (feeFactor K h.2.2 * (h.2.1 : K) * n) _ (show (10000 : K) ≠ 0 by norm_num)]
  congr 1 <;> ring

theorem exactChain_le {whole : List (Nat × Nat × U32)}
    (hHops : ∀ h ∈ whole.map (exactHop K), ConstantProductHop h) (n : Nat) :
    (exactChain whole n : K) ≤ chainF64 (whole.map (exactHop K)) n := by
  induction whole generalizing n with
  | nil => exact le_rfl
  | cons h rest ih =>
    rw [List.map_cons] at hHops
    obtain ⟨hHop, hRest⟩ := List.forall_mem_cons.mp hHops
    have hn : (0 : K) ≤ n := Nat.cast_nonneg n
    rw [List.map_cons, hHop.chainF64_cons _ hn]
    exact (ih hRest _).trans (chainF64_mono hRest (Nat.cast_nonneg _) (hHop.out_le n))

end Whole

section Optimum

variable {first : ℝ × ℝ × U32} {rest : List (ℝ × ℝ × U32)} {x : ℝ}

theorem closedFormOptimal_none (hHops : ∀ h ∈ first :: rest, ConstantProductHop h)
    (h : closedFormOptimal Real.sqrt first rest = none) : (composeHops first rest).a ≤ (composeHops first rest).b := by
  obtain ⟨hPositive, -⟩ := composeHops_eval hHops
  by_contra hAbove
  have hAbove : (composeHops first rest).b < (composeHops first rest).a := not_le.mp hAbove
  have hRoot : (composeHops first rest).b < √((composeHops first rest).a * (composeHops first rest).b) := by
    apply Real.lt_sqrt_of_sq_lt
    rw [pow_two]
    exact mul_lt_mul_of_pos_right hAbove hPositive.b
  unfold closedFormOptimal at h
  dsimp only at h
  rw [if_neg (by simp only [hAbove.not_ge, hPositive.c.not_ge, or_self, not_false_eq_true]),
    if_pos (div_pos (sub_pos.mpr hRoot) hPositive.c)] at h
  cases h

theorem closedFormOptimal_some (h : closedFormOptimal Real.sqrt first rest = some x) :
    0 < x ∧ x = peak (√((composeHops first rest).a * (composeHops first rest).b)) (composeHops first rest).b
      (composeHops first rest).c := by
  unfold closedFormOptimal at h
  dsimp only at h
  split at h
  · cases h
  · split at h
    · cases h
      exact ⟨‹_›, rfl⟩
    · cases h

/-- Where the closed form has no size, no size profits. -/
theorem chainF64_loses (hHops : ∀ h ∈ first :: rest, ConstantProductHop h)
    (hNone : closedFormOptimal Real.sqrt first rest = none) {x : ℝ} (hx : 0 ≤ x) : chainF64 (first :: rest) x - x ≤ 0 := by
  obtain ⟨hPositive, hEval⟩ := composeHops_eval hHops
  rw [← hEval x hx, sub_nonpos]
  exact give_le_self hPositive.b hPositive.c.le (closedFormOptimal_none hHops hNone) hx

/-- Its size, moved into a range, is the best one of the range. -/
theorem chainF64_gain_le (hHops : ∀ h ∈ first :: rest, ConstantProductHop h) {best : ℝ}
    (hBest : closedFormOptimal Real.sqrt first rest = some best) {lo hi : ℝ} (hlo : 0 ≤ lo) {x : ℝ} (hx : x ∈ Set.Icc lo hi) :
    chainF64 (first :: rest) x - x ≤ chainF64 (first :: rest) (max lo (min best hi)) - max lo (min best hi) := by
  obtain ⟨hPositive, hEval⟩ := composeHops_eval hHops
  obtain ⟨-, hPeak⟩ := closedFormOptimal_some hBest
  have hProduct : 0 < (composeHops first rest).a * (composeHops first rest).b := mul_pos hPositive.a hPositive.b
  rw [← hEval x (hlo.trans hx.1), ← hEval _ (hlo.trans (le_max_left _ _)), hPeak]
  exact gain_le_of_mem hPositive.b hPositive.c (Real.sqrt_pos.mpr hProduct) (Real.mul_self_sqrt hProduct.le) hlo
    hx.1 hx.2

theorem clampF64_eq {K : Type} [Field K] [LinearOrder K] {x lo hi : K} (hRange : lo ≤ hi) :
    clampF64 x lo hi = some (max lo (min x hi)) := by
  unfold clampF64
  rw [if_pos hRange]
  congr 1
  split
  · rename_i hLow
    rw [min_eq_left (hLow.le.trans hRange), max_eq_left hLow.le]
  · rename_i hLow
    have hLow : lo ≤ x := not_lt.mp hLow
    split
    · rename_i hHigh
      rw [min_eq_right hHigh.le, max_eq_right hRange]
    · rename_i hHigh
      rw [min_eq_left (not_lt.mp hHigh), max_eq_right hLow]

/-- The closed form is the chain, its size the best one, in and out of a range, and no
whole amount does better. -/
theorem closedFormOptimal_best (hHops : ∀ h ∈ first :: rest, ConstantProductHop h) :
    (∀ x, 0 ≤ x → (composeHops first rest).a * x / ((composeHops first rest).b + (composeHops first rest).c * x) =
      chainF64 (first :: rest) x) ∧
    (closedFormOptimal Real.sqrt first rest = none → ∀ x, 0 ≤ x → chainF64 (first :: rest) x - x ≤ 0) ∧
    ∀ best, closedFormOptimal Real.sqrt first rest = some best → 0 < best ∧
      (∀ minIn maxIn, 0 ≤ minIn → minIn ≤ maxIn → ∃ size, clampF64 best minIn maxIn = some size ∧
        size ∈ Set.Icc minIn maxIn ∧
        ∀ x ∈ Set.Icc minIn maxIn, chainF64 (first :: rest) x - x ≤ chainF64 (first :: rest) size - size) ∧
      (∀ whole : List (Nat × Nat × U32), first :: rest = whole.map (exactHop ℝ) → ∀ n : Nat,
        (exactChain whole n : ℝ) - n ≤ chainF64 (first :: rest) best - best) ∧
      ∀ words : List (U256 × U256 × U32), first :: rest = (words.map wholeHop).map (exactHop ℝ) →
        ∀ amountIn out : U256, FitsAlong words amountIn → chainWords words amountIn = some (some out) →
          (out.toNat : ℝ) - amountIn.toNat ≤ chainF64 (first :: rest) best - best := by
  constructor
  · exact (composeHops_eval hHops).2
  constructor
  · intro hNone x hx
    exact chainF64_loses hHops hNone hx
  intro best hBest
  obtain ⟨hBestPositive, -⟩ := closedFormOptimal_some hBest
  have hPeakGain : ∀ x, 0 ≤ x → chainF64 (first :: rest) x - x ≤ chainF64 (first :: rest) best - best := by
    intro x hx
    have hWide := chainF64_gain_le hHops hBest le_rfl ⟨hx, le_max_left x best⟩
    rwa [min_eq_left (le_max_right _ _), max_eq_right hBestPositive.le] at hWide
  have hWhole : ∀ whole : List (Nat × Nat × U32), first :: rest = whole.map (exactHop ℝ) → ∀ n : Nat,
      (exactChain whole n : ℝ) - n ≤ chainF64 (first :: rest) best - best := by
    intro whole hSame n
    rw [hSame] at hHops
    have hFloor := exactChain_le hHops n
    rw [← hSame] at hFloor
    exact (sub_le_sub_right hFloor _).trans (hPeakGain n (Nat.cast_nonneg n))
  refine ⟨hBestPositive, fun lo hi hlo hRange => ?_, hWhole, fun words hSame amountIn out hFits hOut => ?_⟩
  · exact ⟨_, clampF64_eq hRange, ⟨le_max_left _ _, max_le hRange (min_le_right _ _)⟩,
      fun x hx => chainF64_gain_le hHops hBest hlo hx⟩
  · have hHop : ∀ h ∈ words, ConstantProductHop (exactHop ℝ (wholeHop h)) := by
      intro h hMem
      apply hHops
      rw [hSame]
      exact List.mem_map_of_mem (List.mem_map_of_mem hMem)
    have hIn : ∀ h ∈ words, h.1 ≠ 0#256 := by
      intro h hMem hZero
      have hReserve : (0 : ℝ) < h.1.toNat := (hHop h hMem).reserveIn
      rw [hZero] at hReserve
      exact lt_irrefl _ (hReserve.trans_eq Nat.cast_zero)
    rw [chainWords_toNat hIn (fun h hMem => (hHop h hMem).fee.le) hFits hOut]
    exact hWhole _ hSame _

/-- A two-hop cycle between pools at 2000 and at 1 / 1818. -/
theorem sampleCycle_best : ∃ best, closedFormOptimal Real.sqrt (100, 200000, 30#32) [(200000, 110, 30#32)] = some best ∧
    0 < best := by
  have hHops : ∀ h ∈ [((100, 200000, 30#32) : ℝ × ℝ × U32), (200000, 110, 30#32)], ConstantProductHop h := by
    rintro h (_ | ⟨_, _ | ⟨_, ⟨⟩⟩⟩) <;> constructor <;> norm_num
  obtain ⟨-, hNone, hSome⟩ := closedFormOptimal_best hHops
  cases hBest : closedFormOptimal Real.sqrt (100, 200000, 30#32) [(200000, 110, 30#32)] with
  | none =>
    have hLoss := hNone hBest 1 zero_le_one
    norm_num [chainF64, V2.getAmountOutF64, feeFactor] at hLoss
  | some best => exact ⟨best, rfl, (hSome best hBest).1⟩

end Optimum

section Routes

variable {K : Type} [Field K] [LinearOrder K] [FloorSemiring K] {ε : Type} {M : SwapMath ε} {keccak : Keccak}
  {solve : K → K → K → K} {engine : Engine} {s : ChainState}

theorem pureReserves_quote {idx : Nat} {pool : PoolMeta} {reserves : K × K} (hIdx : pool.idx = idx)
    (h : pureReserves K s idx pool = some reserves) (amountIn : K) (zeroForOne : Bool) :
    quoteF64With M keccak solve s pool amountIn zeroForOne = V2.getAmountOutF64 amountIn
      (inDirection zeroForOne reserves).1 (inDirection zeroForOne reserves).2 pool.feeBps := by
  subst hIdx
  unfold pureReserves at h
  unfold quoteF64With
  split at h
  · rename_i hPlan
    rw [hPlan]
    cases h
    rfl
  · rename_i hPlan
    split at h
    · rename_i hVolatile
      rw [hPlan]
      cases h
      dsimp only
      rw [if_neg (by rw [hVolatile]; decide)]
    · cases h
  · cases h

/-- Over a pure route the float quote is the chain of its reserves. -/
theorem quoteHopsF64_pure (hIndexed : ∀ i pool, engine.metaOf i = some pool → pool.idx = i) {hops : List Hop}
    {chain : List (K × K × U32)} (h : pureHops K engine s hops = some (some chain)) (x : K) :
    quoteHopsF64With M keccak solve engine s hops x = some (chainF64 chain x) := by
  induction hops generalizing chain x with
  | nil =>
    cases h
    rfl
  | cons hop rest ih =>
    rw [pureHops] at h
    obtain ⟨pool, hPool, h⟩ := Option.bind_eq_some_iff.mp h
    cases hReserves : pureReserves K s hop.pool pool with
    | none =>
      rw [hReserves] at h
      cases h
    | some reserves =>
      rw [hReserves] at h
      obtain ⟨later, hLater, h⟩ := Option.bind_eq_some_iff.mp h
      obtain ⟨tail, rfl, hChain⟩ := Option.map_eq_some_iff.mp (Option.some.inj h)
      have hChain : chain = ((inDirection hop.zeroForOne reserves).1, (inDirection hop.zeroForOne reserves).2,
        pool.feeBps) :: tail := hChain.symm
      rw [quoteHopsF64With, hPool, Option.bind_eq_bind, Option.bind_some,
        pureReserves_quote (hIndexed _ _ hPool) hReserves, hChain, chainF64]
      dsimp only
      split
      · rfl
      · exact ih hLater _

end Routes

end Robinarb
