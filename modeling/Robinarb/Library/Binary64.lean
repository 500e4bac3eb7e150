import Mathlib.Algebra.Order.Field.Basic
import Mathlib.Algebra.Order.Floor.Semiring
import Mathlib.Algebra.Order.Ring.Pow
import Mathlib.Tactic.FieldSimp
import Mathlib.Tactic.GCongr
import Mathlib.Tactic.Linarith
import Mathlib.Tactic.Positivity
import Mathlib.Tactic.Ring

/-! # Rounding to doubles

Over an ordered field a double is a whole multiple of the least step `2^-1074` with 53
binary digits, and an operation gives the nearest one, in a tie the even one. There is no
largest exponent: what overflows to infinity stays a large number here.
-/

namespace Binary64

variable {K : Type*} [Field K] [LinearOrder K] {x y z : K}

section Rounding

variable [FloorSemiring K]

/-- The exponent of the least step, without its sign. -/
def leastExponent : Nat := 1074

/-- The nearest natural number, in a tie the even one. -/
def nearest (x : K) : Nat :=
  let n := ⌊x⌋₊
  if x - n < 1 / 2 ∨ (x - n = 1 / 2 ∧ n % 2 = 0) then n else n + 1

/-- The binary digits of a number of steps that a double has no place for. -/
def place (y : K) : Nat := ⌊y⌋₊.log2 - 52

/-- The nearest double to a number of steps. -/
def snap (y : K) : Nat := nearest (y / 2 ^ place y) * 2 ^ place y

def rounded (x : K) : K :=
  if x < 0 then -(snap (-x * 2 ^ leastExponent) / 2 ^ leastExponent)
  else snap (x * 2 ^ leastExponent) / 2 ^ leastExponent

/-- The loop of `powi`: the digits of the exponent from the lowest one up, and the base
squared between them. -/
def powiLoop : Nat → K → K → Nat → K
  | 0, _, r, _ => r
  | fuel + 1, a, r, n =>
    let r := if n % 2 = 1 then rounded (r * a) else r
    if n / 2 = 0 then r else powiLoop fuel (rounded (a * a)) r (n / 2)

/-- The power of an exponent of 32 bits. -/
def powi (a : K) (n : Nat) : K := powiLoop 32 a 1 n

/-- A number of 53 binary digits at least: above the denormals. -/
def Normal (x : K) : Prop := 2 ^ 52 ≤ x * 2 ^ leastExponent

/-- While the powers are doubles, the loop is exact. -/
theorem powiLoop_pow {most fuel n : Nat} (hExact : ∀ k ≤ most, rounded (x ^ k) = x ^ k)
    (hFuel : n < 2 ^ fuel) {p q : Nat} (hMost : q + p * n ≤ most) :
    powiLoop fuel (x ^ p) (x ^ q) n = x ^ (q + p * n) := by
  induction fuel generalizing n p q with
  | zero =>
    obtain rfl : n = 0 := by omega
    rw [Nat.mul_zero, Nat.add_zero]
    rfl
  | succ fuel ih =>
    have hHalf := Nat.div_add_mod n 2
    have hSplit : q + p * n = q + p * (n % 2) + (p + p) * (n / 2) := by
      calc q + p * n = q + p * (2 * (n / 2) + n % 2) := by rw [hHalf]
        _ = q + p * (n % 2) + (p + p) * (n / 2) := by ring
    have hStep : (if n % 2 = 1 then rounded (x ^ q * x ^ p) else x ^ q) = x ^ (q + p * (n % 2)) := by
      rcases Nat.mod_two_eq_zero_or_one n with hEven | hOdd
      · rw [hEven, if_neg (by decide), Nat.mul_zero, Nat.add_zero]
      · rw [hOdd, if_pos rfl, Nat.mul_one, ← pow_add]
        apply hExact
        rw [hOdd, Nat.mul_one] at hSplit
        omega
    rw [powiLoop, hStep]
    split
    next hLast => rw [hSplit, hLast, Nat.mul_zero, Nat.add_zero]
    next hMore =>
      have hDouble : p + p ≤ (p + p) * (n / 2) := Nat.le_mul_of_pos_right _ (Nat.pos_of_ne_zero hMore)
      rw [← pow_add, hExact _ (by omega), ih (by rw [pow_succ] at hFuel; omega) (by omega), hSplit]

theorem rounded_of_nonneg (h : 0 ≤ x) : rounded x = snap (x * 2 ^ leastExponent) / 2 ^ leastExponent := if_neg h.not_gt

variable [IsStrictOrderedRing K]

section Nearest

theorem nearest_natCast (n : Nat) : nearest (n : K) = n := by
  unfold nearest
  simp

theorem nearest_near (h : 0 ≤ x) : nearest x ≤ x + 1 / 2 ∧ x ≤ nearest x + 1 / 2 := by
  have hFloor := Nat.floor_le h
  have hNext := Nat.lt_floor_add_one x
  unfold nearest
  dsimp only
  split
  next hDown =>
    have hHalf : x - ⌊x⌋₊ ≤ 1 / 2 := hDown.elim le_of_lt fun hTie => hTie.1.le
    constructor <;> linarith
  next hUp =>
    have hHalf : 1 / 2 ≤ x - ⌊x⌋₊ := le_of_not_gt fun hLess => hUp (.inl hLess)
    push_cast
    constructor <;> linarith

theorem nearest_mono (hx : 0 ≤ x) (h : x ≤ y) : nearest x ≤ nearest y := by
  by_contra hNot
  have hStep : nearest y + 1 ≤ nearest x := Nat.not_le.mp hNot
  have hCast : (nearest y : K) + 1 ≤ nearest x := by exact_mod_cast hStep
  have hBack : y ≤ x := by
    have hAbove := (nearest_near hx).1
    have hBelow := (nearest_near (hx.trans h)).2
    linarith
  rw [le_antisymm h hBack] at hStep
  omega

end Nearest

section Places

theorem lt_of_place (y : K) : y < 2 ^ (53 + place y) := by
  have hFloor : ⌊y⌋₊ < 2 ^ (53 + place y) :=
    Nat.lt_log2_self.trans_le (Nat.pow_le_pow_right (by decide) (by unfold place; omega))
  have hCast : ((⌊y⌋₊ + 1 : Nat) : K) ≤ ((2 ^ (53 + place y) : Nat) : K) := Nat.cast_le.mpr hFloor
  push_cast at hCast
  exact (Nat.lt_floor_add_one y).trans_le hCast

theorem le_of_place (hy : 0 ≤ y) (h : 2 ^ 52 ≤ ⌊y⌋₊) : 2 ^ (52 + place y) ≤ y := by
  have hNonzero : ⌊y⌋₊ ≠ 0 := fun hZero => by
    rw [hZero] at h
    exact absurd h (by decide)
  have hLog : 52 ≤ ⌊y⌋₊.log2 := (Nat.le_log2 hNonzero).mpr h
  have hPower : 2 ^ (52 + place y) ≤ ⌊y⌋₊ := by
    rw [show 52 + place y = ⌊y⌋₊.log2 by unfold place; omega]
    exact Nat.log2_self_le hNonzero
  have hCast : ((2 ^ (52 + place y) : Nat) : K) ≤ (⌊y⌋₊ : K) := Nat.cast_le.mpr hPower
  push_cast at hCast
  exact hCast.trans (Nat.floor_le hy)

theorem place_mono (h : y ≤ z) : place y ≤ place z := by
  have hFloor := Nat.floor_le_floor h
  unfold place
  rcases Nat.eq_zero_or_pos ⌊y⌋₊ with hZero | hPos
  · rw [hZero, Nat.log2_zero]
    omega
  · have hLog : ⌊y⌋₊.log2 ≤ ⌊z⌋₊.log2 := (Nat.le_log2 (by omega)).mpr ((Nat.log2_self_le hPos.ne').trans hFloor)
    omega

end Places

section Snap

theorem snap_of_places {k : Nat} (h : y = k * 2 ^ place y) : (snap y : K) = y := by
  have hPower : (2 : K) ^ place y ≠ 0 := pow_ne_zero _ two_ne_zero
  have hQuotient : y / 2 ^ place y = k := by
    rw [div_eq_iff hPower]
    exact h
  rw [snap, hQuotient, nearest_natCast]
  push_cast
  exact h.symm

/-- A number of at most 53 digits, with zeros behind them, is a double. -/
theorem snap_digits {m q : Nat} (h : m ≤ 2 ^ 53) : snap ((m * 2 ^ q : Nat) : K) = m * 2 ^ q := by
  have hExact : (snap ((m * 2 ^ q : Nat) : K) : K) = ((m * 2 ^ q : Nat) : K) := by
    rcases Nat.lt_or_ge q (place ((m * 2 ^ q : Nat) : K)) with hFar | hNear
    · -- only the power of two itself has a digit more
      have hFloor : ⌊((m * 2 ^ q : Nat) : K)⌋₊ = m * 2 ^ q := Nat.floor_natCast _
      have hLog : q + 53 ≤ (m * 2 ^ q).log2 := by
        unfold place at hFar
        rw [hFloor] at hFar
        omega
      have hNonzero : m * 2 ^ q ≠ 0 := fun hZero => by
        rw [hZero, Nat.log2_zero] at hLog
        omega
      have hPower := (Nat.le_log2 hNonzero).mp hLog
      rw [Nat.pow_add, Nat.mul_comm] at hPower
      obtain rfl : m = 2 ^ 53 := le_antisymm h (Nat.le_of_mul_le_mul_right hPower (Nat.two_pow_pos q))
      have hPlace : place ((2 ^ 53 * 2 ^ q : Nat) : K) = q + 1 := by
        rw [place, hFloor, ← Nat.pow_add, Nat.log2_two_pow]
        omega
      apply @snap_of_places _ _ _ _ _ _ (2 ^ 52)
      rw [hPlace]
      push_cast
      ring
    · apply @snap_of_places _ _ _ _ _ _ (m * 2 ^ (q - place ((m * 2 ^ q : Nat) : K)))
      generalize place ((m * 2 ^ q : Nat) : K) = p at hNear
      obtain ⟨more, rfl⟩ := Nat.exists_eq_add_of_le hNear
      rw [Nat.add_sub_cancel_left]
      push_cast
      ring
  exact_mod_cast hExact

theorem nearest_quotient_le (hy : 0 ≤ y) : nearest (y / 2 ^ place y) ≤ 2 ^ 53 := by
  have hWithin : y / 2 ^ place y ≤ ((2 ^ 53 : Nat) : K) := by
    have hBound := (lt_of_place y).le
    rw [pow_add] at hBound
    rw [div_le_iff₀ (by positivity), Nat.cast_pow]
    exact hBound
  exact (nearest_mono (by positivity) hWithin).trans_eq (nearest_natCast _)

theorem le_nearest_quotient (hy : 0 ≤ y) (h : 2 ^ 52 ≤ ⌊y⌋₊) : 2 ^ 52 ≤ nearest (y / 2 ^ place y) := by
  have hWithin : ((2 ^ 52 : Nat) : K) ≤ y / 2 ^ place y := by
    have hBound := le_of_place hy h
    rw [pow_add] at hBound
    rw [le_div_iff₀ (by positivity), Nat.cast_pow]
    exact hBound
  exact (nearest_natCast (K := K) _).symm.trans_le (nearest_mono (by positivity) hWithin)

theorem snap_mono (hy : 0 ≤ y) (h : y ≤ z) : snap y ≤ snap z := by
  unfold snap
  rcases (place_mono h).eq_or_lt with hSame | hLess
  · rw [hSame]
    apply Nat.mul_le_mul_right
    apply nearest_mono (by positivity)
    gcongr
  · have hLarge : 2 ^ 52 ≤ ⌊z⌋₊ := by
      have hLog : 52 ≤ ⌊z⌋₊.log2 := by
        unfold place at hLess
        omega
      exact (Nat.pow_le_pow_right (by decide) hLog).trans (Nat.log2_self_le fun hZero => by
        rw [hZero, Nat.log2_zero] at hLog
        omega)
    calc nearest (y / 2 ^ place y) * 2 ^ place y ≤ 2 ^ 53 * 2 ^ place y :=
          Nat.mul_le_mul_right _ (nearest_quotient_le hy)
      _ = 2 ^ 52 * 2 ^ (place y + 1) := by ring
      _ ≤ nearest (z / 2 ^ place z) * 2 ^ place z :=
          Nat.mul_le_mul (le_nearest_quotient (hy.trans h) hLarge) (Nat.pow_le_pow_right (by decide) hLess)

theorem snap_snap (hy : 0 ≤ y) : snap (snap y : K) = snap y := by
  have hDigits := nearest_quotient_le hy
  unfold snap at *
  exact snap_digits hDigits

theorem snap_near (h : 2 ^ 52 ≤ y) : y * (1 - 1 / 2 ^ 53) ≤ snap y ∧ snap y ≤ y * (1 + 1 / 2 ^ 53) := by
  have hy : 0 ≤ y := le_trans (by positivity) h
  have hFloor : 2 ^ 52 ≤ ⌊y⌋₊ := Nat.le_floor (by rw [Nat.cast_pow]; exact h)
  have hPlace := le_of_place hy hFloor
  have hPower : (0 : K) < 2 ^ place y := by positivity
  obtain ⟨hAbove, hBelow⟩ := nearest_near (x := y / 2 ^ place y) (by positivity)
  have hUp := mul_le_mul_of_nonneg_right hAbove hPower.le
  have hDown := mul_le_mul_of_nonneg_right hBelow hPower.le
  rw [add_mul, div_mul_cancel₀ _ hPower.ne'] at hUp
  rw [add_mul, div_mul_cancel₀ _ hPower.ne'] at hDown
  have hHalf : 1 / 2 * 2 ^ place y ≤ y / 2 ^ 53 := by
    rw [le_div_iff₀ (by positivity)]
    calc 1 / 2 * 2 ^ place y * 2 ^ 53 = 2 ^ (52 + place y) := by ring
      _ ≤ y := hPlace
  have hCast : (snap y : K) = nearest (y / 2 ^ place y) * 2 ^ place y := by
    unfold snap
    push_cast
    rfl
  rw [hCast]
  constructor <;> linarith

end Snap

section Round

theorem rounded_nonneg (h : 0 ≤ x) : 0 ≤ rounded x := by
  rw [rounded_of_nonneg h]
  positivity

theorem rounded_neg (x : K) : rounded (-x) = -rounded x := by
  have hZero : snap (0 : K) = 0 := by
    have hDigits := snap_digits (K := K) (m := 0) (q := 0) (by decide)
    simpa using hDigits
  rcases lt_trichotomy x 0 with hNeg | rfl | hPos
  · rw [rounded_of_nonneg (by linarith : 0 ≤ -x), rounded, if_pos hNeg, neg_neg]
  · simp [rounded, hZero]
  · rw [rounded, if_pos (by linarith), neg_neg, rounded_of_nonneg hPos.le]

theorem rounded_mono (h : x ≤ y) : rounded x ≤ rounded y := by
  have hUp : ∀ {x y : K}, 0 ≤ x → x ≤ y → rounded x ≤ rounded y := by
    intro x y hx hxy
    rw [rounded_of_nonneg hx, rounded_of_nonneg (hx.trans hxy)]
    have hSnap : snap (x * 2 ^ leastExponent) ≤ snap (y * 2 ^ leastExponent) := snap_mono (by positivity) (by gcongr)
    gcongr
  rcases le_total 0 x with hx | hx
  · exact hUp hx h
  · rcases le_total 0 y with hy | hy
    · have hNeg := rounded_nonneg (neg_nonneg.mpr hx)
      rw [rounded_neg] at hNeg
      have hPos := rounded_nonneg hy
      linarith
    · have hFlip := hUp (neg_nonneg.mpr hy) (neg_le_neg h)
      rw [rounded_neg, rounded_neg] at hFlip
      linarith

theorem rounded_rounded (x : K) : rounded (rounded x) = rounded x := by
  have hUp : ∀ {x : K}, 0 ≤ x → rounded (rounded x) = rounded x := by
    intro x hx
    rw [rounded_of_nonneg (rounded_nonneg hx), rounded_of_nonneg hx, div_mul_cancel₀ _ (by positivity),
      snap_snap (by positivity)]
  rcases le_total 0 x with hx | hx
  · exact hUp hx
  · have hFlip := hUp (neg_nonneg.mpr hx)
    rwa [rounded_neg, rounded_neg, neg_inj] at hFlip

theorem normal_of_le {k : Nat} (hk : k ≤ 1022) (h : 1 ≤ x * 2 ^ k) : Normal x := by
  obtain ⟨more, hMore⟩ := Nat.exists_eq_add_of_le hk
  have hSplit : (2 : K) ^ leastExponent = 2 ^ k * 2 ^ (more + 52) := by
    rw [← pow_add]
    congr 1
    unfold leastExponent
    omega
  have hWide : (2 : K) ^ 52 ≤ 2 ^ (more + 52) := pow_le_pow_right₀ one_le_two (by omega)
  calc (2 : K) ^ 52 ≤ 1 * 2 ^ (more + 52) := by rw [one_mul]; exact hWide
    _ ≤ x * 2 ^ k * 2 ^ (more + 52) := by gcongr
    _ = x * 2 ^ leastExponent := by rw [hSplit]; ring

omit [FloorSemiring K] in
theorem Normal.pos (h : Normal x) : 0 < x := by
  have hPower : (0 : K) < 2 ^ leastExponent := by positivity
  exact pos_of_mul_pos_left (lt_of_lt_of_le (by positivity) h) hPower.le

/-- Above the denormals a rounding is off by one part in `2^53` at most. -/
theorem rounded_near (h : Normal x) : x * (1 - 1 / 2 ^ 53) ≤ rounded x ∧ rounded x ≤ x * (1 + 1 / 2 ^ 53) := by
  obtain ⟨hDown, hUp⟩ := snap_near h
  rw [rounded_of_nonneg h.pos.le, le_div_iff₀ (by positivity), div_le_iff₀ (by positivity)]
  constructor <;> linarith

theorem rounded_of_steps {m q : Nat} (h : m ≤ 2 ^ 53) (hx : x * 2 ^ leastExponent = ((m * 2 ^ q : Nat) : K)) :
    rounded x = x := by
  have hNonneg : 0 ≤ x := by
    apply nonneg_of_mul_nonneg_left _ (show (0 : K) < 2 ^ leastExponent by positivity)
    rw [hx]
    positivity
  rw [rounded_of_nonneg hNonneg, hx, snap_digits h, ← hx, mul_div_cancel_right₀ _ (by positivity)]

theorem rounded_digits {m q : Nat} (h : m ≤ 2 ^ 53) : rounded ((m : K) * 2 ^ q) = m * 2 ^ q := by
  apply @rounded_of_steps _ _ _ _ _ _ m (q + leastExponent) h
  push_cast
  ring

theorem rounded_natCast_of_le {n : Nat} (h : n ≤ 2 ^ 53) : rounded (n : K) = n := by
  have hDigits := rounded_digits (K := K) (q := 0) h
  rwa [pow_zero, mul_one] at hDigits

theorem rounded_one : rounded (1 : K) = 1 := by
  have hOne := rounded_natCast_of_le (K := K) (n := 1) (by decide)
  rwa [Nat.cast_one] at hOne

theorem rounded_two_pow (k : Nat) : rounded ((2 : K) ^ k) = 2 ^ k := by
  have hDigits := rounded_digits (K := K) (m := 1) (q := k) (by decide)
  rwa [Nat.cast_one, one_mul] at hDigits

/-- A power of ten has its digits in 53 bits up to the 22nd. -/
theorem rounded_ten_pow {n : Nat} (h : n ≤ 22) : rounded ((10 : K) ^ n) = 10 ^ n := by
  have hTen : (10 : K) ^ n = ((5 ^ n : Nat) : K) * 2 ^ n := by
    rw [Nat.cast_pow, ← mul_pow]
    norm_num
  rw [hTen]
  exact rounded_digits ((Nat.pow_le_pow_right (by decide) h).trans (by decide))

/-- A bound below by a power of two stands through the rounding. -/
theorem le_rounded_mul {k : Nat} (hk : k ≤ leastExponent) (h : 1 ≤ x * 2 ^ k) : 1 ≤ rounded x * 2 ^ k := by
  have hPower : (0 : K) < 2 ^ k := by positivity
  have hUnit : rounded ((1 : K) / 2 ^ k) = 1 / 2 ^ k := by
    apply @rounded_of_steps _ _ _ _ _ _ 1 (leastExponent - k) (by decide)
    obtain ⟨more, hMore⟩ := Nat.exists_eq_add_of_le hk
    rw [hMore, Nat.add_sub_cancel_left, pow_add]
    push_cast
    field_simp
  have hMono := rounded_mono ((div_le_iff₀ hPower).mpr h)
  rw [hUnit] at hMono
  exact (div_le_iff₀ hPower).mp hMono

theorem one_le_rounded (h : 1 ≤ x) : 1 ≤ rounded x := rounded_one.symm.trans_le (rounded_mono h)

/-- A whole number rounds to a whole number. -/
theorem rounded_natCast (n : Nat) : ∃ m : Nat, rounded (n : K) = m := by
  rcases Nat.lt_or_ge (2 ^ 53) n with hLarge | hSmall
  · have hLog : 53 ≤ n.log2 := (Nat.le_log2 (by omega)).mpr hLarge.le
    have hCast : (n : K) * 2 ^ leastExponent = ((n * 2 ^ leastExponent : Nat) : K) := by push_cast; rfl
    have hPlace : leastExponent ≤ place ((n : K) * 2 ^ leastExponent) := by
      rw [hCast, place, Nat.floor_natCast]
      have hProduct : leastExponent + 53 ≤ (n * 2 ^ leastExponent).log2 := by
        rw [Nat.le_log2 (by positivity), Nat.pow_add, Nat.mul_comm]
        exact Nat.mul_le_mul_right _ hLarge.le
      omega
    obtain ⟨more, hMore⟩ := Nat.exists_eq_add_of_le hPlace
    refine ⟨nearest ((n : K) * 2 ^ leastExponent / 2 ^ place ((n : K) * 2 ^ leastExponent)) * 2 ^ more, ?_⟩
    rw [rounded_of_nonneg (Nat.cast_nonneg n), snap, hMore, div_eq_iff (by positivity)]
    push_cast
    ring
  · exact ⟨n, rounded_natCast_of_le hSmall⟩

end Round

end Rounding

section Chains

/-- `x` is `y` after up to `n` roundings. -/
def Near (n : Nat) (x y : K) : Prop := y * (1 - 1 / 2 ^ 53) ^ n ≤ x ∧ x ≤ y * (1 + 1 / 2 ^ 53) ^ n

/-- What `n` roundings leave of a number at least. -/
def kept (K : Type*) [Field K] (n : Nat) : K := 1 - n / 2 ^ 53

variable {m n : Nat} {a b : K}

theorem Near.refl (x : K) : Near 0 x x := by simp [Near]

variable [IsStrictOrderedRing K]

theorem one_sub_unit_nonneg : (0 : K) ≤ 1 - 1 / 2 ^ 53 := by
  rw [sub_nonneg, div_le_one (by positivity)]
  exact one_le_pow₀ one_le_two

theorem Near.rounded [FloorSemiring K] (h : Near n x y) (hNormal : Normal x) : Near (n + 1) (rounded x) y := by
  obtain ⟨hDown, hUp⟩ := rounded_near hNormal
  constructor
  · calc y * (1 - 1 / 2 ^ 53) ^ (n + 1) = y * (1 - 1 / 2 ^ 53) ^ n * (1 - 1 / 2 ^ 53) := by ring
      _ ≤ x * (1 - 1 / 2 ^ 53) := mul_le_mul_of_nonneg_right h.1 one_sub_unit_nonneg
      _ ≤ Binary64.rounded x := hDown
  · calc Binary64.rounded x ≤ x * (1 + 1 / 2 ^ 53) := hUp
      _ ≤ y * (1 + 1 / 2 ^ 53) ^ n * (1 + 1 / 2 ^ 53) := mul_le_mul_of_nonneg_right h.2 (by positivity)
      _ = y * (1 + 1 / 2 ^ 53) ^ (n + 1) := by ring

theorem Near.mul (h : Near n x y) (hOther : Near m a b) (hy : 0 ≤ y) (hb : 0 ≤ b) (hx : 0 ≤ x) (ha : 0 ≤ a) :
    Near (n + m) (x * a) (y * b) := by
  have hUnit := one_sub_unit_nonneg (K := K)
  constructor
  · calc y * b * (1 - 1 / 2 ^ 53) ^ (n + m) = y * (1 - 1 / 2 ^ 53) ^ n * (b * (1 - 1 / 2 ^ 53) ^ m) := by ring
      _ ≤ x * a := mul_le_mul h.1 hOther.1 (mul_nonneg hb (pow_nonneg hUnit m)) hx
  · calc x * a ≤ y * (1 + 1 / 2 ^ 53) ^ n * (b * (1 + 1 / 2 ^ 53) ^ m) :=
          mul_le_mul h.2 hOther.2 ha (mul_nonneg hy (by positivity))
      _ = y * b * (1 + 1 / 2 ^ 53) ^ (n + m) := by ring

theorem Near.mul_right (h : Near n x y) (ha : 0 ≤ a) : Near n (x * a) (y * a) := by
  constructor
  · rw [mul_right_comm]
    exact mul_le_mul_of_nonneg_right h.1 ha
  · rw [mul_right_comm]
    exact mul_le_mul_of_nonneg_right h.2 ha

theorem Near.div_right (h : Near n x y) (ha : 0 ≤ a) : Near n (x / a) (y / a) := by
  rw [div_eq_mul_inv, div_eq_mul_inv]
  exact h.mul_right (inv_nonneg.mpr ha)

/-- Each rounding loses one part in `2^53` at most. -/
theorem Near.ge (h : Near n x y) (hy : 0 ≤ y) : y * kept K n ≤ x := by
  have hBernoulli := one_add_mul_le_pow (a := (-(1 / 2 ^ 53) : K)) (by
    have hUnit := one_sub_unit_nonneg (K := K)
    linarith) n
  refine (mul_le_mul_of_nonneg_left ?_ hy).trans h.1
  calc kept K n = 1 + n * -(1 / 2 ^ 53 : K) := by unfold kept; ring
    _ ≤ (1 + -(1 / 2 ^ 53)) ^ n := hBernoulli
    _ = (1 - 1 / 2 ^ 53) ^ n := by rw [sub_eq_add_neg]

theorem kept_nonneg (h : n ≤ 2 ^ 53) : 0 ≤ kept K n := by
  unfold kept
  rw [sub_nonneg, div_le_one (by positivity)]
  exact_mod_cast h

theorem kept_add_le (m n : Nat) : kept K (m + n) ≤ kept K m * kept K n := by
  have hBoth : (0 : K) ≤ m / 2 ^ 53 * (n / 2 ^ 53) := by positivity
  unfold kept
  push_cast
  linarith

/-- What the rest of the loop multiplies by, when no product falls below one. -/
theorem powiLoop_near [FloorSemiring K] {fuel : Nat} (hFuel : n < 2 ^ fuel) {p q : Nat} (hx : 0 ≤ x) (hy : 0 ≤ y)
    (ha : 1 ≤ a) (hb : 1 ≤ b) (hBase : Near p a x) (hPower : Near q b y) :
    Near (q + n * (p + 1)) (powiLoop fuel a b n) (y * x ^ n) ∧ 1 ≤ powiLoop fuel a b n := by
  have hNormal : ∀ {z : K}, 1 ≤ z → Normal z := fun hz => normal_of_le (Nat.zero_le _) (by rwa [pow_zero, mul_one])
  induction fuel generalizing n p q x y a b with
  | zero =>
    obtain rfl : n = 0 := by omega
    rw [Nat.zero_mul, Nat.add_zero, pow_zero, mul_one]
    exact ⟨hPower, hb⟩
  | succ fuel ih =>
    have hHalf := Nat.div_add_mod n 2
    have hStep : Near (q + n % 2 * (p + 1)) (if n % 2 = 1 then Binary64.rounded (b * a) else b) (y * x ^ (n % 2)) ∧
        1 ≤ if n % 2 = 1 then Binary64.rounded (b * a) else b := by
      rcases Nat.mod_two_eq_zero_or_one n with hEven | hOdd
      · rw [hEven, if_neg (by decide), Nat.zero_mul, Nat.add_zero, pow_zero, mul_one]
        exact ⟨hPower, hb⟩
      · have hProduct : 1 ≤ b * a := one_le_mul_of_one_le_of_one_le hb ha
        have hNear := (hPower.mul hBase hy hx (zero_le_one.trans hb) (zero_le_one.trans ha)).rounded (hNormal hProduct)
        rw [hOdd, if_pos rfl, Nat.one_mul, pow_one, ← Nat.add_assoc]
        exact ⟨hNear, one_le_rounded hProduct⟩
    rw [powiLoop]
    split
    next hLast =>
      rw [hLast, Nat.mul_zero, Nat.zero_add] at hHalf
      rwa [hHalf] at hStep ⊢
    next hMore =>
      have hSquare : 1 ≤ a * a := one_le_mul_of_one_le_of_one_le ha ha
      have hNext := (hBase.mul hBase hx hx (zero_le_one.trans ha) (zero_le_one.trans ha)).rounded (hNormal hSquare)
      have hRest := ih (show n / 2 < 2 ^ fuel by rw [pow_succ] at hFuel; omega) (mul_nonneg hx hx)
        (mul_nonneg hy (pow_nonneg hx _)) (one_le_rounded hSquare) hStep.2 hNext hStep.1
      have hCount : q + n % 2 * (p + 1) + n / 2 * (p + p + 1 + 1) = q + n * (p + 1) := by
        calc q + n % 2 * (p + 1) + n / 2 * (p + p + 1 + 1) = q + (2 * (n / 2) + n % 2) * (p + 1) := by ring
          _ = q + n * (p + 1) := by rw [hHalf]
      have hValue : y * x ^ (n % 2) * (x * x) ^ (n / 2) = y * x ^ n := by
        rw [mul_assoc, ← pow_two, ← pow_mul, ← pow_add, Nat.add_comm, hHalf]
      rwa [hCount, hValue] at hRest

theorem powi_near [FloorSemiring K] (hx : 1 ≤ x) (hn : n < 2 ^ 32) : Near n (powi x n) (x ^ n) ∧ 1 ≤ powi x n := by
  have hLoop := powiLoop_near hn (zero_le_one.trans hx) zero_le_one hx le_rfl (.refl x) (.refl 1)
  rwa [Nat.zero_add, Nat.zero_add, Nat.mul_one, one_mul] at hLoop

theorem powi_ten [FloorSemiring K] (h : n ≤ 22) : powi (10 : K) n = 10 ^ n := by
  have hLoop := powiLoop_pow (x := (10 : K)) (fun k hk => rounded_ten_pow hk) (show n < 2 ^ 32 by omega)
    (p := 1) (q := 0) (by omega)
  rwa [pow_one, pow_zero, Nat.zero_add, Nat.one_mul] at hLoop

end Chains

end Binary64
