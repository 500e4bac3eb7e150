import Robinarb.Math.SwapMath
import Mathlib.Algebra.Order.Floor.Div
import Mathlib.Tactic.SplitIfs

/-! # A reference instance of the swap primitives

The exact-input swap step with its own formulas, exact bit searches, and a price
curve that has the protocol's prices at the ticks -887272, -256, -1, 0, 1 and
887272 and is linear between them. All the laws the walk relies on hold of it.
-/

namespace Robinarb

/-- The price curve through the knots. -/
def referencePrice (t : Int) : Int :=
  if t < -256 then 4295128739 + (t + 887272) * 88183927752256746929080
  else if t < -1 then 78220554859095770638340573244 + (t + 256) * 3935868800485123655801448
  else if t < 0 then 79224201403219477170569942574
  else if t < 1 then 79228162514264337593543950336
  else if t < 887272 then
    79232123823359799118286999568 + (t - 1) * 1647125515750216228421802277298174991925169
  else 1461446703485210103287273052203988822378723970342

/-- The greatest tick of the curve priced at or below `price`. -/
def referenceTick (price : Int) : Int :=
  if price < 78220554859095770638340573244 then
    min (-257) (-887272 + (price - 4295128739) / 88183927752256746929080)
  else if price < 79224201403219477170569942574 then
    min (-2) (-256 + (price - 78220554859095770638340573244) / 3935868800485123655801448)
  else if price < 79228162514264337593543950336 then -1
  else if price < 79232123823359799118286999568 then 0
  else
    min 887271 (1 + (price - 79232123823359799118286999568) /
      1647125515750216228421802277298174991925169)

theorem referencePrice_strictMono {s t : Int} (hs : minTick ≤ s) (hst : s < t) (ht : t ≤ maxTick) :
    referencePrice s < referencePrice t := by
  unfold minTick at hs
  unfold maxTick at ht
  unfold referencePrice
  split_ifs <;> omega

theorem referencePrice_range {t : Int} (hLow : minTick ≤ t) (hHigh : t ≤ maxTick) :
    0 < referencePrice t ∧ referencePrice t < 2 ^ 160 := by
  unfold minTick at hLow
  unfold maxTick at hHigh
  unfold referencePrice
  split_ifs <;> omega

theorem referenceTick_floor (price : Int) (hLow : 4295128739 ≤ price)
    (hHigh : price < 1461446703485210103287273052203988822378723970342) :
    minTick ≤ referenceTick price ∧ referenceTick price < maxTick ∧
      referencePrice (referenceTick price) ≤ price ∧ price < referencePrice (referenceTick price + 1) := by
  unfold minTick maxTick referenceTick
  split_ifs <;> refine ⟨by omega, by omega, ?_, ?_⟩ <;> unfold referencePrice <;> split_ifs <;> omega

def mulDivUp (a b d : Nat) : Nat := (a * b + d - 1) / d

def divUp (a d : Nat) : Nat := (a + d - 1) / d

/-- Token0 between two prices, the lower one first. -/
def amount0Delta (low high liquidity : Nat) (up : Bool) : Nat :=
  if up then divUp (mulDivUp (liquidity * 2 ^ 96) (high - low) high) low
  else liquidity * 2 ^ 96 * (high - low) / high / low

/-- Token1 between two prices, the lower one first. -/
def amount1Delta (low high liquidity : Nat) (up : Bool) : Nat :=
  if up then mulDivUp liquidity (high - low) (2 ^ 96) else liquidity * (high - low) / 2 ^ 96

/-- The price after `amount` of the input token, rounded against the trader. -/
def priceFromInput (price liquidity amount : Nat) (zeroForOne : Bool) : Nat :=
  if zeroForOne then
    if amount = 0 then price
    else mulDivUp (liquidity * 2 ^ 96) price (liquidity * 2 ^ 96 + amount * price)
  else price + amount * 2 ^ 96 / liquidity

/-- The exact-input swap step: next price, amount in, amount out, fee. -/
def exactInputStep (price target liquidity remaining fee : Nat) : Nat × Nat × Nat × Nat :=
  let zeroForOne := decide (target ≤ price)
  let remainingLessFee := remaining * (1000000 - fee) / 1000000
  let toTarget :=
    if zeroForOne then amount0Delta target price liquidity true
    else amount1Delta price target liquidity true
  let next :=
    if toTarget ≤ remainingLessFee then target
    else priceFromInput price liquidity remainingLessFee zeroForOne
  let amountIn :=
    if next = target then toTarget
    else if zeroForOne then amount0Delta next price liquidity true
    else amount1Delta price next liquidity true
  let amountOut :=
    if zeroForOne then amount1Delta next price liquidity false
    else amount0Delta price next liquidity false
  let feeAmount := if next = target then mulDivUp amountIn fee (1000000 - fee) else remaining - amountIn
  (next, amountIn, amountOut, feeAmount)

theorem divUp_le_iff {a d k : Nat} (hd : 0 < d) : divUp a d ≤ k ↔ a ≤ k * d := by
  rw [divUp, ← Nat.ceilDiv_eq_add_pred_div, ceilDiv_le_iff_le_mul hd, Nat.mul_comm]

theorem mulDivUp_le_iff {a b d k : Nat} (hd : 0 < d) : mulDivUp a b d ≤ k ↔ a * b ≤ k * d :=
  divUp_le_iff hd

theorem amount0Delta_up_le_iff {low high liquidity k : Nat} (hLow : 0 < low) (hHigh : 0 < high) :
    amount0Delta low high liquidity true ≤ k ↔ liquidity * 2 ^ 96 * (high - low) ≤ k * low * high := by
  rw [amount0Delta, if_pos rfl, divUp_le_iff hLow, mulDivUp_le_iff hHigh]

theorem amount1Delta_up_le_iff {low high liquidity k : Nat} :
    amount1Delta low high liquidity true ≤ k ↔ liquidity * (high - low) ≤ k * 2 ^ 96 := by
  rw [amount1Delta, if_pos rfl, mulDivUp_le_iff (by decide)]

/-- With its fee an input fits into what remains exactly when it fits without the fee. -/
theorem add_fee_le_iff {amountIn fee remaining : Nat} (hFee : fee < 1000000) :
    amountIn + mulDivUp amountIn fee (1000000 - fee) ≤ remaining ↔
      amountIn ≤ remaining * (1000000 - fee) / 1000000 := by
  obtain ⟨rest, hRest⟩ : ∃ rest, rest + fee = 1000000 ∧ 0 < rest := ⟨1000000 - fee, by omega, by omega⟩
  have hSub : 1000000 - fee = rest := by omega
  rw [hSub, Nat.le_div_iff_mul_le (by decide)]
  constructor
  · intro h
    have hUp : amountIn * fee ≤ (remaining - amountIn) * rest := (mulDivUp_le_iff hRest.2).mp (by omega)
    have hSplit : remaining = (remaining - amountIn) + amountIn := by omega
    rw [← hRest.1, hSplit]
    nlinarith
  · intro h
    have hIn : amountIn ≤ remaining := by nlinarith [hRest.1]
    obtain ⟨more, rfl⟩ := Nat.exists_eq_add_of_le hIn
    have hUp : mulDivUp amountIn fee rest ≤ more := by
      rw [mulDivUp_le_iff hRest.2]
      rw [← hRest.1] at h
      nlinarith
    omega

theorem amount0Delta_zero_low (high liquidity : Nat) (up : Bool) : amount0Delta 0 high liquidity up = 0 := by
  cases up <;> simp [amount0Delta, divUp]

/-- Less than the input down to the target ends above the target and pays for its own move. -/
theorem priceFromInput_down {price target liquidity amount : Nat} (hTarget : target ≤ price)
    (hShort : amount < amount0Delta target price liquidity true) :
    priceFromInput price liquidity amount true ≠ target ∧
      amount0Delta (priceFromInput price liquidity amount true) price liquidity true ≤ amount := by
  have hLow : 0 < target := by
    by_contra hZero
    obtain rfl : target = 0 := by omega
    rw [amount0Delta_zero_low] at hShort
    omega
  have hPrice : 0 < price := hLow.trans_le hTarget
  have hNot : ¬liquidity * 2 ^ 96 * (price - target) ≤ amount * target * price :=
    (amount0Delta_up_le_iff hLow hPrice).not.mp (by omega)
  obtain ⟨gap, rfl⟩ := Nat.exists_eq_add_of_le hTarget
  rw [Nat.add_sub_cancel_left] at hNot
  obtain rfl | hAmount := Nat.eq_zero_or_pos amount
  · have hSame : priceFromInput (target + gap) liquidity 0 true = target + gap := by simp [priceFromInput]
    rw [hSame]
    refine ⟨fun hGap => hNot ?_, ?_⟩
    · obtain rfl : gap = 0 := by omega
      simp
    · rw [amount0Delta_up_le_iff hPrice hPrice]
      simp
  · have hNext : priceFromInput (target + gap) liquidity amount true =
        mulDivUp (liquidity * 2 ^ 96) (target + gap) (liquidity * 2 ^ 96 + amount * (target + gap)) := by
      rw [priceFromInput, if_pos rfl, if_neg hAmount.ne']
    have hDivisor : 0 < liquidity * 2 ^ 96 + amount * (target + gap) :=
      Nat.add_pos_right _ (Nat.mul_pos hAmount hPrice)
    have hEnough : liquidity * 2 ^ 96 * (target + gap) ≤
        mulDivUp (liquidity * 2 ^ 96) (target + gap) (liquidity * 2 ^ 96 + amount * (target + gap)) *
          (liquidity * 2 ^ 96 + amount * (target + gap)) := (mulDivUp_le_iff hDivisor).mp le_rfl
    rw [← hNext] at hEnough
    generalize priceFromInput (target + gap) liquidity amount true = next at hEnough
    refine ⟨fun hReached => hNot ?_, ?_⟩
    · subst hReached
      nlinarith
    · obtain rfl | hNextPos := Nat.eq_zero_or_pos next
      · rw [amount0Delta_zero_low]
        exact Nat.zero_le _
      · rw [amount0Delta_up_le_iff hNextPos hPrice, Nat.mul_sub]
        rw [Nat.mul_add next] at hEnough
        have hComm : next * (amount * (target + gap)) = amount * next * (target + gap) := by ring
        rw [hComm, Nat.mul_comm next] at hEnough
        omega

/-- Less than the input up to the target ends below the target and pays for its own move. -/
theorem priceFromInput_up {price target liquidity amount : Nat} (hTarget : price < target)
    (hShort : amount < amount1Delta price target liquidity true) :
    priceFromInput price liquidity amount false ≠ target ∧
      amount1Delta price (priceFromInput price liquidity amount false) liquidity true ≤ amount := by
  have hNot : ¬liquidity * (target - price) ≤ amount * 2 ^ 96 :=
    amount1Delta_up_le_iff.not.mp (Nat.not_le.mpr hShort)
  obtain ⟨gap, rfl⟩ := Nat.exists_eq_add_of_lt hTarget
  have hNext : priceFromInput price liquidity amount false = price + amount * 2 ^ 96 / liquidity := by
    simp [priceFromInput]
  rw [hNext]
  have hMul : liquidity * (amount * 2 ^ 96 / liquidity) ≤ amount * 2 ^ 96 := Nat.mul_div_le _ _
  refine ⟨fun hReached => hNot ?_, ?_⟩
  · have hGap : price + gap + 1 - price = amount * 2 ^ 96 / liquidity := by omega
    rw [hGap]
    exact hMul
  · rw [amount1Delta_up_le_iff, Nat.add_sub_cancel_left]
    exact hMul

/-- The input that moves the price to the target. -/
def inputTo (price target liquidity : Nat) : Nat :=
  if target ≤ price then amount0Delta target price liquidity true
  else amount1Delta price target liquidity true

theorem exactInputStep_reaching {price target liquidity remaining fee : Nat}
    (h : inputTo price target liquidity ≤ remaining * (1000000 - fee) / 1000000) :
    exactInputStep price target liquidity remaining fee =
      (target, inputTo price target liquidity,
        if target ≤ price then amount1Delta target price liquidity false
        else amount0Delta price target liquidity false,
        mulDivUp (inputTo price target liquidity) fee (1000000 - fee)) := by
  unfold inputTo at h ⊢
  simp only [exactInputStep, decide_eq_true_eq, h, if_true]

theorem exactInputStep_short {price target liquidity remaining fee : Nat}
    (h : remaining * (1000000 - fee) / 1000000 < inputTo price target liquidity) :
    (exactInputStep price target liquidity remaining fee).1 ≠ target ∧
      (exactInputStep price target liquidity remaining fee).2.1 +
        (exactInputStep price target liquidity remaining fee).2.2.2 = remaining := by
  have hLess : remaining * (1000000 - fee) / 1000000 ≤ remaining :=
    Nat.div_le_of_le_mul (by rw [Nat.mul_comm]; exact Nat.mul_le_mul_right _ (Nat.sub_le _ _))
  unfold inputTo at h
  by_cases hDown : target ≤ price
  · rw [if_pos hDown] at h
    obtain ⟨hNext, hPaid⟩ := priceFromInput_down hDown h
    simp only [exactInputStep, hDown, decide_true, if_true, Nat.not_le.mpr h, if_false, hNext]
    exact ⟨hNext, by omega⟩
  · rw [if_neg hDown] at h
    obtain ⟨hNext, hPaid⟩ := priceFromInput_up (Nat.not_le.mp hDown) h
    simp only [exactInputStep, hDown, decide_false, Bool.false_eq_true, if_false,
      Nat.not_le.mpr h, hNext]
    exact ⟨hNext, by omega⟩

theorem exactInputStep_spent {price target liquidity remaining fee : Nat} (hFee : fee < 1000000) :
    (exactInputStep price target liquidity remaining fee).2.1 +
        (exactInputStep price target liquidity remaining fee).2.2.2 ≤ remaining := by
  rcases Nat.lt_or_ge (remaining * (1000000 - fee) / 1000000) (inputTo price target liquidity) with h | h
  · exact (exactInputStep_short h).2.le
  · rw [exactInputStep_reaching h]
    exact (add_fee_le_iff hFee).mpr h

theorem exactInputStep_again {price target liquidity remaining other fee : Nat} (hFee : fee < 1000000)
    (hReached : (exactInputStep price target liquidity remaining fee).1 = target)
    (hOther : (exactInputStep price target liquidity remaining fee).2.1 +
        (exactInputStep price target liquidity remaining fee).2.2.2 ≤ other) :
    exactInputStep price target liquidity other fee = exactInputStep price target liquidity remaining fee := by
  rcases Nat.lt_or_ge (remaining * (1000000 - fee) / 1000000) (inputTo price target liquidity) with h | h
  · exact absurd hReached (exactInputStep_short h).1
  · rw [exactInputStep_reaching h] at hOther ⊢
    exact exactInputStep_reaching ((add_fee_le_iff hFee).mp hOther)

def findBit (order : List Nat) (x : U256) : Except Unit U8 :=
  match order.find? fun k => x.getLsbD k with
  | some k => .ok (BitVec.ofNat 8 k)
  | none => .error ()

def referenceMath : SwapMath Unit where
  mostSignificantBit := findBit (List.range 256).reverse
  leastSignificantBit := findBit (List.range 256)
  getSqrtRatioAtTick tick :=
    if minTick ≤ tick ∧ tick ≤ maxTick then .ok (BitVec.ofInt 256 (referencePrice tick)) else .error ()
  getTickAtSqrtRatio price :=
    if minSqrtRatio ≤ price ∧ price < maxSqrtRatio then .ok (referenceTick price.toNat) else .error ()
  computeSwapStep price target liquidity remaining fee :=
    let (next, amountIn, amountOut, feeAmount) :=
      exactInputStep price.toNat target.toNat liquidity.toNat remaining.toNat fee.toNat
    if min price.toNat target.toNat ≤ next ∧ next ≤ max price.toNat target.toNat then
      .ok (BitVec.ofNat 256 next, BitVec.ofNat 256 amountIn, BitVec.ofNat 256 amountOut,
        BitVec.ofNat 256 feeAmount)
    else .error ()
  addDelta x y :=
    if 0 ≤ (x.toNat : Int) + y.toInt ∧ (x.toNat : Int) + y.toInt < 2 ^ 128 then
      .ok (BitVec.ofInt 128 (x.toNat + y.toInt))
    else .error ()

theorem findBit_range_eq_some {x : U256} (order : List Nat) (hOrder : ∀ k, k ∈ order ↔ k < 256)
    (hx : x ≠ 0#256) : ∃ k, k < 256 ∧ order.find? (fun k => x.getLsbD k) = some k := by
  cases hFind : order.find? (fun k => x.getLsbD k) with
  | some k => exact ⟨k, (hOrder k).mp (List.mem_of_find?_eq_some hFind), rfl⟩
  | none =>
    refine absurd (BitVec.eq_of_getLsbD_eq fun k hk => ?_) hx
    rw [BitVec.getLsbD_zero]
    simpa using List.find?_eq_none.mp hFind k ((hOrder k).mpr hk)

theorem toNat_bit {k : Nat} (hk : k < 256) : (BitVec.ofNat 8 k).toNat = k := by
  rw [BitVec.toNat_ofNat, Nat.mod_eq_of_lt hk]

theorem first_of_findBit {R : Nat → Nat → Prop} {x : U256} {order : List Nat} (hPairs : order.Pairwise R)
    {k j : Nat} (hFind : order.find? (fun k => x.getLsbD k) = some k) (hj : j ∈ order)
    (hSet : x.getLsbD j = true) : j = k ∨ R k j := by
  obtain ⟨_, before, after, rfl, hBefore⟩ := List.find?_eq_some_iff_append.mp hFind
  obtain hj | hj := List.mem_append.mp hj
  · have hClear := hBefore j hj
    simp [hSet] at hClear
  · obtain rfl | hj := List.mem_cons.mp hj
    · exact .inl rfl
    · exact .inr (List.rel_of_pairwise_cons (List.pairwise_append.mp hPairs).2.1 hj)

theorem referenceMath_bitLaws : referenceMath.BitLaws where
  highest x hx := by
    obtain ⟨k, hk, hFind⟩ := findBit_range_eq_some (List.range 256).reverse (by simp) hx
    refine ⟨BitVec.ofNat 8 k, by simp only [referenceMath, findBit, hFind], ?_⟩
    rw [toNat_bit hk]
    refine ⟨List.find?_some hFind, fun j hj => ?_⟩
    by_contra hSet
    have hSet := Bool.eq_true_of_not_eq_false hSet
    rcases first_of_findBit (List.pairwise_reverse.mpr List.pairwise_lt_range) hFind
      (by simpa using BitVec.lt_of_getLsbD hSet) hSet with h | h <;> omega
  lowest x hx := by
    obtain ⟨k, hk, hFind⟩ := findBit_range_eq_some (List.range 256) (by simp) hx
    refine ⟨BitVec.ofNat 8 k, by simp only [referenceMath, findBit, hFind], ?_⟩
    rw [toNat_bit hk]
    refine ⟨List.find?_some hFind, fun j hj => ?_⟩
    by_contra hSet
    have hSet := Bool.eq_true_of_not_eq_false hSet
    rcases first_of_findBit List.pairwise_lt_range hFind
      (by simpa using BitVec.lt_of_getLsbD hSet) hSet with h | h <;> omega

theorem referenceMath_ratio {t : Int} (hLow : minTick ≤ t) (hHigh : t ≤ maxTick) :
    (referenceMath.ratio t : Int) = referencePrice t := by
  have hRange := referencePrice_range hLow hHigh
  rw [SwapMath.ratio_eq (r := BitVec.ofInt 256 (referencePrice t)) (by simp [referenceMath, hLow, hHigh])]
  rw [BitVec.toNat_ofInt]
  omega

theorem referenceMath_tickLaws : referenceMath.TickLaws where
  ratio_minTick := by decide
  ratio_maxTick := by decide
  ratio_strictMono s t hs hst ht := by
    have hPrice := referencePrice_strictMono hs hst ht
    rw [← referenceMath_ratio hs (by omega), ← referenceMath_ratio (by omega) ht] at hPrice
    exact_mod_cast hPrice
  tick_floor price tick hLow hHigh h := by
    simp only [referenceMath, hLow, hHigh, and_self, if_true] at h
    obtain rfl := Except.ok.inj h
    rw [BitVec.le_def] at hLow
    rw [BitVec.lt_def] at hHigh
    obtain ⟨hMin, hMax, hFloor, hCeil⟩ := referenceTick_floor price.toNat
      (by exact_mod_cast hLow) (by exact_mod_cast hHigh)
    rw [← referenceMath_ratio hMin hMax.le] at hFloor
    rw [← referenceMath_ratio (by omega) (by omega)] at hCeil
    exact ⟨hMin, hMax, by exact_mod_cast hFloor, by exact_mod_cast hCeil⟩

theorem referenceMath_tickWithin : referenceMath.TickWithin := by
  intro price tick h
  simp only [referenceMath] at h
  split at h
  · rename_i hRange
    obtain rfl := Except.ok.inj h
    rw [BitVec.le_def, BitVec.lt_def] at hRange
    obtain ⟨hMin, hMax, _⟩ := referenceTick_floor price.toNat
      (by exact_mod_cast hRange.1) (by exact_mod_cast hRange.2)
    exact ⟨hMin, hMax.le⟩
  · cases h

theorem referenceMath_stepBetween : referenceMath.StepBetween := by
  intro price target liquidity remaining fee next amountIn amountOut feeAmount _ _ _ _ h
  simp only [referenceMath] at h
  generalize exactInputStep price.toNat target.toNat liquidity.toNat remaining.toNat fee.toNat = step at h
  obtain ⟨n, i, o, f⟩ := step
  dsimp only at h
  split at h
  · rename_i hBetween
    cases h
    have hPrice := price.isLt
    have hTarget := target.isLt
    have hNext : (BitVec.ofNat 256 n).toNat = n := by
      rw [BitVec.toNat_ofNat]
      exact Nat.mod_eq_of_lt (by omega)
    simp only [BitVec.le_def, hNext]
    omega
  · cases h

theorem amount0Delta_lt {low high liquidity : Nat} (hLiquidity : liquidity < 2 ^ 128) :
    amount0Delta low high liquidity false < 2 ^ 224 := by
  have hScaled : liquidity * 2 ^ 96 * (high - low) / high ≤ liquidity * 2 ^ 96 :=
    Nat.div_le_of_le_mul (by
      rw [Nat.mul_comm high]
      exact Nat.mul_le_mul_left _ (Nat.sub_le high low))
  have hDelta : amount0Delta low high liquidity false ≤ liquidity * 2 ^ 96 :=
    (Nat.div_le_self _ low).trans hScaled
  omega

theorem amount1Delta_lt {low high liquidity : Nat} (hLiquidity : liquidity < 2 ^ 128) (hHigh : high < 2 ^ 160) :
    amount1Delta low high liquidity false < 2 ^ 224 := by
  have hMul : liquidity * (high - low) ≤ 2 ^ 128 * 2 ^ 160 := Nat.mul_le_mul hLiquidity.le (by omega)
  simp only [amount1Delta, Bool.false_eq_true, if_false]
  omega

theorem referenceMath_stepBounded : referenceMath.StepBounded := by
  intro price target liquidity remaining fee next amountIn amountOut feeAmount hPrice hTarget h
  have hOut : (exactInputStep price.toNat target.toNat liquidity.toNat remaining.toNat fee.toNat).2.2.1 <
      2 ^ 224 := by
    simp only [exactInputStep]
    split
    · exact amount1Delta_lt liquidity.isLt hPrice
    · exact amount0Delta_lt liquidity.isLt
  simp only [referenceMath] at h
  generalize exactInputStep price.toNat target.toNat liquidity.toNat remaining.toNat fee.toNat = step at h hOut
  obtain ⟨n, i, o, f⟩ := step
  dsimp only at h hOut
  split at h
  · rename_i hBetween
    cases h
    rw [BitVec.toNat_ofNat, BitVec.toNat_ofNat]
    exact ⟨(Nat.mod_le _ _).trans_lt (by omega), (Nat.mod_le _ _).trans_lt hOut⟩
  · cases h

theorem referenceMath_step {price target remaining : U256} {liquidity : U128} {fee : U32}
    {step : U256 × U256 × U256 × U256} :
    referenceMath.computeSwapStep price target liquidity remaining fee = .ok step ↔
      let exact := exactInputStep price.toNat target.toNat liquidity.toNat remaining.toNat fee.toNat
      (min price.toNat target.toNat ≤ exact.1 ∧ exact.1 ≤ max price.toNat target.toNat) ∧
        step = (BitVec.ofNat 256 exact.1, BitVec.ofNat 256 exact.2.1, BitVec.ofNat 256 exact.2.2.1,
          BitVec.ofNat 256 exact.2.2.2) := by
  simp only [referenceMath]
  split <;> simp_all [eq_comm]

theorem referenceMath_stepThreshold : referenceMath.StepThreshold := by
  intro price target liquidity remaining fee next amountIn amountOut feeAmount hPrice hTarget hRemaining hFee h
  obtain ⟨hBetween, hStep⟩ := referenceMath_step.mp h
  obtain ⟨rfl, rfl, rfl, rfl⟩ : next = _ ∧ amountIn = _ ∧ amountOut = _ ∧ feeAmount = _ := by
    simpa only [Prod.mk.injEq] using hStep
  have hSpent := @exactInputStep_spent price.toNat target.toNat liquidity.toNat remaining.toNat _ hFee
  have hReached : BitVec.ofNat 256
      (exactInputStep price.toNat target.toNat liquidity.toNat remaining.toNat fee.toNat).1 = target ↔
      (exactInputStep price.toNat target.toNat liquidity.toNat remaining.toNat fee.toNat).1 = target.toNat := by
    rw [← BitVec.toNat_inj, BitVec.toNat_ofNat, Nat.mod_eq_of_lt (by omega)]
  rw [ne_eq, hReached, BitVec.toNat_ofNat, BitVec.toNat_ofNat, Nat.mod_eq_of_lt (by omega),
    Nat.mod_eq_of_lt (by omega)]
  refine ⟨hSpent, fun hShort => ?_, fun hNext other hOther _ => ?_⟩
  · rcases Nat.lt_or_ge (remaining.toNat * (1000000 - fee.toNat) / 1000000)
      (inputTo price.toNat target.toNat liquidity.toNat) with hLess | hFits
    · exact (exactInputStep_short hLess).2
    · rw [exactInputStep_reaching hFits] at hShort
      exact absurd rfl hShort
  · rw [referenceMath_step, exactInputStep_again hFee hNext hOther]
    exact ⟨hBetween, rfl⟩

theorem referenceMath_stepDry : referenceMath.StepDry := by
  intro price target remaining fee next amountIn amountOut feeAmount h
  simp only [referenceMath] at h
  split at h
  · cases h
    simp [exactInputStep, amount0Delta, amount1Delta]
  · cases h

theorem referenceMath_deltaExact : referenceMath.DeltaExact := by
  intro x y z h
  simp only [referenceMath] at h
  split at h
  · rename_i hRange
    cases h
    rw [BitVec.toNat_ofInt]
    omega
  · cases h

end Robinarb
