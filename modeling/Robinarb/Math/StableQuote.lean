import Robinarb.Math.StableShallow

/-! # Stable-pool quotes, and where they hold

The target of the solver and the curve it walks on round in different orders, so that
the target can come out above the start. Then the iteration rises, and the output wraps.
-/

namespace Robinarb.AeroStable

open CheckedWord CubicNewton

/-- `10^decimals`, as the caller passes it. -/
def tenPow (decimals : Nat) : U256 := BitVec.ofNat 256 (10 ^ decimals)

def scaledReserve (reserve dec : U256) : U256 := reserve * e18 / dec

def amountAfterFee (amountIn : U256) (feeBps : U32) : U256 := amountIn - amountIn * feeBps.setWidth 256 / 10000#256

/-- The quote computes to the end, with no divisor zero and no difference below zero, and
gives at most the reserve. -/
def Holds (amountIn reserveIn reserveOut decIn decOut : U256) (feeBps : U32) : Prop :=
  ∃ out, getAmountOutChecked amountIn reserveIn reserveOut decIn decOut feeBps = .ok out ∧
    getAmountOut amountIn reserveIn reserveOut decIn decOut feeBps = some out ∧ out ≤ reserveOut

/-- The roundings do not reach the start of the iteration: two tokens or more are on the
side that is paid, or the target is at least eight units below the start, or the first pass
settles without rising. -/
def Clear (x0 xNew y0 : U256) : Prop :=
  (2000000000000000000#256 ≤ xNew ∧ x0 ≤ xNew) ∨
  (k x0 y0).toNat + 8 ≤ (f xNew y0).toNat ∨
  (((k x0 y0).toNat - (f xNew y0).toNat) * 10 ^ 18 < (d xNew y0).toNat ∧
    ((f xNew y0).toNat - (k x0 y0).toNat) * 10 ^ 18 < 2 * (d xNew y0).toNat)

instance (x0 xNew y0 : U256) : Decidable (Clear x0 xNew y0) := inferInstanceAs (Decidable (_ ∨ _ ∨ _ ∧ _))

/-- The branch that goes wrong: the pass from `y` rises past the start. -/
def Overshoots (x xy y0 y : U256) : Prop :=
  f x y < xy ∧ y0.toNat < y.toNat + (xy.toNat - (f x y).toNat) * 10 ^ 18 / (d x y).toNat

instance (x xy y0 y : U256) : Decidable (Overshoots x xy y0 y) := inferInstanceAs (Decidable (_ ∧ _))

/-- One of the next passes from `y` takes that branch. -/
def overruns (x xy y0 : U256) : Nat → U256 → Bool
  | 0, _ => false
  | n + 1, y =>
    decide (Overshoots x xy y0 y) ||
      (newtonStep x xy y).any fun next => !settled next y && overruns x xy y0 n next

/-- The roundings are too small to carry the iteration past its start, or the target is
below the start and they do not add up to it. -/
def StaysBelow (x0 xNew y0 : U256) : Prop :=
  Clear x0 xNew y0 ∨ (k x0 y0 < f xNew y0 ∧ overruns xNew (k x0 y0) y0 255 y0 = false)

instance (x0 xNew y0 : U256) : Decidable (StaysBelow x0 xNew y0) := inferInstanceAs (Decidable (_ ∨ _ ∧ _))

theorem tenPow_toNat {n : Nat} (h : n ≤ 18) : (tenPow n).toNat = 10 ^ n := by
  have hFits : 10 ^ n < 2 ^ 256 := (Nat.pow_le_pow_right (by decide) h).trans_lt (by norm_num)
  rw [tenPow, BitVec.toNat_ofNat, Nat.mod_eq_of_lt hFits]

theorem tenPow_ne_zero {n : Nat} (h : n ≤ 18) : tenPow n ≠ 0#256 := by
  intro hZero
  have hPower := tenPow_toNat h
  rw [hZero] at hPower
  exact (Nat.pow_pos (n := n) (show 0 < 10 by decide)).ne hPower

section Passes

variable {x xy y0 : U256}

theorem stepExact_le_of_held {y : U256} (hExact : Exact x y) (hHeld : ¬Overshoots x xy y0 y)
    (hBound : y.toNat ≤ y0.toNat) : stepExact x.toNat xy.toNat y.toNat ≤ y0.toNat := by
  rcases Nat.lt_or_ge (fExact x.toNat y.toNat) xy.toNat with hBelow | hAbove
  · have hRises : f x y < xy := by
      rw [BitVec.lt_def, hExact.1]
      exact hBelow
    have hPast := fun hPast => hHeld ⟨hRises, hPast⟩
    rw [hExact.1, hExact.2] at hPast
    unfold stepExact
    rw [if_pos hBelow]
    exact Nat.le_of_not_lt hPast
  · exact (stepExact_le hAbove).trans hBound

/-- Passes that never take the branch past the start end at or below it. -/
theorem getYLoopChecked_held (n : Nat) {y : U256} (hHeld : overruns x xy y0 n y = false)
    (hBound : y.toNat ≤ y0.toNat) (hSlope : Exact x y → dExact x.toNat y.toNat ≠ 0) :
    Ends (fun v => v.toNat ≤ y0.toNat) (getYLoopChecked x xy n y) := by
  induction n generalizing y with
  | zero => exact hBound
  | succ n ih =>
    obtain ⟨hHere, hLater⟩ := Bool.or_eq_false_iff.mp hHeld
    have hStep := fun hExact => stepExact_le_of_held hExact (of_decide_eq_false hHere) hBound
    refine pass_ends hSlope hStep fun hExact hMoved next hNext hCode => ?_
    rw [hCode, Option.any_some] at hLater
    have hOpen : settled next y = false := by
      rw [Bool.eq_false_iff, ne_eq, settled_iff, hNext]
      exact hMoved
    rw [hOpen, Bool.not_false, Bool.true_and] at hLater
    refine ih hLater ?_ fun _ => ?_
    · rw [hNext]
      exact hStep hExact
    · rw [hNext]
      exact slope_next (hSlope hExact) hMoved

theorem slope_of_exact {y : U256} (hSlope : d x y ≠ 0#256) (hExact : Exact x y) : dExact x.toNat y.toNat ≠ 0 := by
  rw [← hExact.2]
  exact fun hZero => hSlope (BitVec.eq_of_toNat_eq hZero)

/-- A start that is neither clear nor above its target is left upwards by the first pass. -/
theorem overruns_of_not_staysBelow {x0 xNew y0 : U256} (hSlope : d xNew y0 ≠ 0#256)
    (h : ¬StaysBelow x0 xNew y0) : overruns xNew (k x0 y0) y0 255 y0 = true := by
  obtain ⟨hClear, hLater⟩ := not_or.mp h
  by_cases hAbove : k x0 y0 < f xNew y0
  · exact Bool.eq_true_of_not_eq_false fun hHeld => hLater ⟨hAbove, hHeld⟩
  · have hBelow : (f xNew y0).toNat ≤ (k x0 y0).toNat := Nat.le_of_not_lt fun hLt => hAbove (BitVec.lt_def.mpr hLt)
    have hPositive : 0 < (d xNew y0).toNat := by
      by_contra hNot
      exact hSlope (BitVec.eq_of_toNat_eq (by simpa using hNot))
    -- with the target at or above the value, only a step of one unit or more is not clear
    have hMoves : (d xNew y0).toNat ≤ ((k x0 y0).toNat - (f xNew y0).toNat) * 10 ^ 18 := by
      by_contra hShort
      refine hClear (.inr (.inr ⟨Nat.not_le.mp hShort, ?_⟩))
      rw [Nat.sub_eq_zero_of_le hBelow]
      omega
    have hMove : 1 ≤ ((k x0 y0).toNat - (f xNew y0).toNat) * 10 ^ 18 / (d xNew y0).toNat :=
      (Nat.one_le_div_iff hPositive).mpr hMoves
    have hRises : f xNew y0 < k x0 y0 := by
      rw [BitVec.lt_def]
      omega
    have hOver : Overshoots xNew (k x0 y0) y0 y0 := ⟨hRises, by omega⟩
    change (decide (Overshoots xNew (k x0 y0) y0 y0) || _) = true
    rw [decide_eq_true hOver, Bool.true_or]

end Passes

section Start

variable {x xy y0 : Nat}

theorem settles_descends (hSlope : dExact x y0 ≠ 0) (hHeld : (xy - fExact x y0) * 10 ^ 18 < dExact x y0)
    (hNear : (fExact x y0 - xy) * 10 ^ 18 < 2 * dExact x y0) : Descends x xy y0 fun y => y = y0 := by
  have hMove : stepExact x xy y0 ≤ y0 ∧ y0 ≤ stepExact x xy y0 + 1 := by
    unfold stepExact
    split
    · rw [Nat.div_eq_of_lt hHeld]
      exact ⟨le_rfl, Nat.le_succ _⟩
    · have hOne : (fExact x y0 - xy) * 10 ^ 18 / dExact x y0 < 2 := by
        rwa [Nat.div_lt_iff_lt_mul (Nat.pos_of_ne_zero hSlope)]
      generalize (fExact x y0 - xy) * 10 ^ 18 / dExact x y0 = move at hOne
      omega
  constructor
  · rintro y rfl
    exact hSlope
  · rintro y rfl
    exact hMove.1
  · rintro y rfl hMoved
    exact absurd ⟨hMove.1.trans (Nat.le_succ _), hMove.2⟩ hMoved

theorem descends_of_room (hSlope : dExact x y0 ≠ 0) (hRoom : xy + 8 ≤ fExact x y0) :
    ∃ I, Descends x xy y0 I ∧ I y0 := by
  rcases Nat.lt_or_ge x (2 * 10 ^ 18) with hShallow | hDeep
  · refine ⟨_, shallow_descends hShallow hRoom, le_rfl, hSlope, ?_⟩
    have hValue := f_le x y0
    have hCast : (xy : ℝ) ≤ fExact x y0 := by exact_mod_cast (by omega : xy ≤ fExact x y0)
    linarith
  · refine ⟨_, deep_descends hDeep y0, le_rfl, ?_⟩
    intro hBelow
    omega

end Start

theorem descends_of_clear {x0 xNew y0 : U256} (hTarget : (k x0 y0).toNat = kExact x0.toNat y0.toNat)
    (hSlope : d xNew y0 ≠ 0#256) (hClear : Clear x0 xNew y0) (hExact : Exact xNew y0) :
    ∃ I, Descends xNew.toNat (k x0 y0).toNat y0.toNat I ∧ I y0.toNat := by
  have hNonzero := slope_of_exact hSlope hExact
  obtain ⟨hValue, hRate⟩ := hExact
  rcases hClear with ⟨hDeep, hGrown⟩ | hRoom | ⟨hHeld, hNear⟩
  · have hDepth : 2 * 10 ^ 18 ≤ xNew.toNat := BitVec.le_def.mp hDeep
    refine ⟨_, deep_descends hDepth y0.toNat, le_rfl, ?_⟩
    rw [hTarget]
    exact deep_start hDepth (BitVec.le_def.mp hGrown) y0.toNat
  · rw [hValue] at hRoom
    exact descends_of_room hNonzero hRoom
  · rw [hValue, hRate] at hHeld hNear
    exact ⟨_, settles_descends hNonzero hHeld hNear, rfl⟩

theorem getYChecked_staysBelow {x0 xNew y0 : U256} (hTarget : (k x0 y0).toNat = kExact x0.toNat y0.toNat)
    (hSlope : d xNew y0 ≠ 0#256) (hStays : StaysBelow x0 xNew y0) :
    Ends (fun v => v.toNat ≤ y0.toNat) (getYChecked xNew (k x0 y0) y0) := by
  obtain hClear | ⟨_, hHeld⟩ := hStays
  · exact getYChecked_ends fun hExact => descends_of_clear hTarget hSlope hClear hExact
  · exact getYLoopChecked_held 255 hHeld le_rfl (slope_of_exact hSlope)

section Quote

variable {amountIn reserveIn reserveOut : U256} {decIn decOut : Nat} {feeBps : U32}

/-- The reserve of the token paid after the trade, as the solver sees it. -/
def startAfter (amountIn reserveIn dec : U256) (feeBps : U32) : U256 :=
  scaledReserve reserveIn dec + scaledReserve (amountAfterFee amountIn feeBps) dec

theorem getY_flat {x y : U256} (hFlat : d x y = 0#256) (xy : U256) : getY x xy y = none := by
  have hDivide : ∀ a : U256, divWord a 0#256 = none := fun _ => if_pos rfl
  have hPass : newtonStep x xy y = none := by
    unfold newtonStep
    rw [hFlat]
    dsimp only
    rw [hDivide, hDivide]
    split <;> rfl
  unfold getY getYLoop
  rw [hPass]
  rfl

theorem bind_none_of {a : U256} {f : U256 → Option U256} (h : f a = none) : (some a >>= f) = none := h

theorem getAmountOut_flat (hAmount : amountIn ≠ 0#256) (hIn : reserveIn ≠ 0#256) (hOut : reserveOut ≠ 0#256)
    (hDecIn : decIn ≤ 18) (hDecOut : decOut ≤ 18)
    (hFlat : d (startAfter amountIn reserveIn (tenPow decIn) feeBps) (scaledReserve reserveOut (tenPow decOut)) = 0#256) :
    getAmountOut amountIn reserveIn reserveOut (tenPow decIn) (tenPow decOut) feeBps = none := by
  have hDivide : ∀ (a : U256) {n : Nat}, n ≤ 18 → divWord a (tenPow n) = some (a / tenPow n) :=
    fun a _ hn => if_neg (tenPow_ne_zero hn)
  unfold startAfter scaledReserve amountAfterFee at hFlat
  unfold getAmountOut
  rw [if_neg (by simp only [hAmount, hIn, hOut, or_self, not_false_eq_true])]
  simp only [hDivide _ hDecIn, hDivide _ hDecOut]
  apply bind_none_of
  apply bind_none_of
  apply bind_none_of
  rw [getY_flat hFlat]
  rfl

theorem getAmountOutChecked_ends (hAmount : amountIn ≠ 0#256) (hIn : reserveIn ≠ 0#256) (hOut : reserveOut ≠ 0#256)
    (hDecIn : decIn ≤ 18) (hDecOut : decOut ≤ 18) (hFee : feeBps.toNat ≤ 10000)
    (hSlope : d (startAfter amountIn reserveIn (tenPow decIn) feeBps) (scaledReserve reserveOut (tenPow decOut)) ≠ 0#256)
    (hStays : StaysBelow (scaledReserve reserveIn (tenPow decIn))
      (startAfter amountIn reserveIn (tenPow decIn) feeBps) (scaledReserve reserveOut (tenPow decOut))) :
    Ends (fun out => out ≤ reserveOut)
      (getAmountOutChecked amountIn reserveIn reserveOut (tenPow decIn) (tenPow decOut) feeBps) := by
  unfold getAmountOutChecked
  rw [if_neg (by simp only [hAmount, hIn, hOut, or_self, not_false_eq_true])]
  apply (ends_mul amountIn _).bind
  rintro _ ⟨rfl, hTaken⟩
  have hFeeBelow : (amountIn * feeBps.setWidth 256 / 10000#256).toNat ≤ amountIn.toNat := by
    rw [BitVec.toNat_udiv, hTaken, BitVec.toNat_setWidth_of_le (by decide)]
    apply Nat.div_le_of_le_mul
    rw [mul_comm]
    exact Nat.mul_le_mul_right _ hFee
  apply (ends_sub hFeeBelow).bind
  rintro _ ⟨rfl, -⟩
  apply (ends_mul reserveIn e18).bind
  rintro _ ⟨rfl, -⟩
  apply (ends_div (tenPow_ne_zero hDecIn)).bind
  rintro _ rfl
  apply (ends_mul reserveOut e18).bind
  rintro _ ⟨rfl, hScaledOut⟩
  apply (ends_div (tenPow_ne_zero hDecOut)).bind
  rintro _ rfl
  apply (ends_mul _ e18).bind
  rintro _ ⟨rfl, -⟩
  apply (ends_div (tenPow_ne_zero hDecIn)).bind
  rintro _ rfl
  apply (kChecked_ends _ _).bind
  rintro _ ⟨rfl, hTarget⟩
  apply (getYChecked_staysBelow hTarget hSlope hStays).bind
  rintro yNew hBelow
  apply (ends_sub hBelow).bind
  rintro _ ⟨rfl, hGiven⟩
  apply (ends_mul _ _).bind
  rintro _ ⟨rfl, hProduct⟩
  change _ ≤ reserveOut
  rw [BitVec.le_def, toNat_scaled, hProduct, hGiven, tenPow_toNat hDecOut]
  apply Nat.div_le_of_le_mul
  calc ((reserveOut * e18 / tenPow decOut).toNat - yNew.toNat) * 10 ^ decOut
      ≤ (reserveOut * e18 / tenPow decOut).toNat * 10 ^ decOut := Nat.mul_le_mul_right _ (Nat.sub_le _ _)
    _ ≤ (reserveOut * e18).toNat := by
      rw [BitVec.toNat_udiv, tenPow_toNat hDecOut]
      exact Nat.div_mul_le_self _ _
    _ = 10 ^ 18 * reserveOut.toNat := by
      rw [hScaledOut, mul_comm]
      rfl

end Quote

end Robinarb.AeroStable
