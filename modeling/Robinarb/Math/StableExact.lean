import Mathlib.Data.Nat.Cast.Order.Field
import Mathlib.Data.Real.Basic
import Mathlib.Tactic.FieldSimp
import Robinarb.Library.CubicNewton
import Robinarb.Math.StableChecked

/-! # The numbers of a stable-pool quote

The checked functions over the natural numbers. -/

namespace Robinarb.AeroStable

open CheckedWord CubicNewton

def kExact (x y : Nat) : Nat := x * y / 10 ^ 18 * (x * x / 10 ^ 18 + y * y / 10 ^ 18) / 10 ^ 18

def cubeExact (x : Nat) : Nat := x * x / 10 ^ 18 * x / 10 ^ 18

def fExact (x y : Nat) : Nat := x * cubeExact y / 10 ^ 18 + cubeExact x * y / 10 ^ 18

def dExact (x y : Nat) : Nat := 3 * x * (y * y / 10 ^ 18) / 10 ^ 18 + cubeExact x

theorem toNat_scaled (a : U256) : (a / e18).toNat = a.toNat / 10 ^ 18 := BitVec.toNat_udiv

theorem toNat_scaled_add (a b : U256) : (a / e18 + b / e18).toNat = a.toNat / 10 ^ 18 + b.toNat / 10 ^ 18 := by
  rw [BitVec.toNat_add, toNat_scaled, toNat_scaled]
  apply Nat.mod_eq_of_lt
  have ha := a.isLt
  have hb := b.isLt
  omega

theorem kChecked_ends (x y : U256) :
    Ends (fun v => v = k x y ∧ v.toNat = kExact x.toNat y.toNat) (kChecked x y) := by
  apply (ends_mul x y).bind
  rintro _ ⟨rfl, hxy⟩
  apply (ends_mul x x).bind
  rintro _ ⟨rfl, hxx⟩
  apply (ends_mul y y).bind
  rintro _ ⟨rfl, hyy⟩
  apply (ends_mul _ _).bind
  rintro _ ⟨rfl, hab⟩
  refine ⟨rfl, ?_⟩
  rw [toNat_scaled, hab, toNat_scaled, toNat_scaled_add, hxy, hxx, hyy, kExact]

theorem fChecked_ends (x0 y : U256) :
    Ends (fun v => v = f x0 y ∧ v.toNat = fExact x0.toNat y.toNat) (fChecked x0 y) := by
  apply (ends_mul y y).bind
  rintro _ ⟨rfl, hyy⟩
  apply (ends_mul _ y).bind
  rintro _ ⟨rfl, hyyy⟩
  apply (ends_mul x0 _).bind
  rintro _ ⟨rfl, hxy3⟩
  apply (ends_mul x0 x0).bind
  rintro _ ⟨rfl, hxx⟩
  apply (ends_mul _ x0).bind
  rintro _ ⟨rfl, hxxx⟩
  apply (ends_mul _ y).bind
  rintro _ ⟨rfl, hx3y⟩
  refine ⟨rfl, ?_⟩
  rw [toNat_scaled_add, hxy3, hx3y, toNat_scaled, toNat_scaled, hyyy, hxxx, toNat_scaled, toNat_scaled, hyy, hxx,
    fExact, cubeExact, cubeExact]

theorem dChecked_ends (x0 y : U256) :
    Ends (fun v => v = d x0 y ∧ v.toNat = dExact x0.toNat y.toNat) (dChecked x0 y) := by
  apply (ends_mul y y).bind
  rintro _ ⟨rfl, hyy⟩
  apply (ends_mul 3#256 x0).bind
  rintro _ ⟨rfl, hThree⟩
  apply (ends_mul _ _).bind
  rintro _ ⟨rfl, hxy2⟩
  apply (ends_mul x0 x0).bind
  rintro _ ⟨rfl, hxx⟩
  apply (ends_mul _ x0).bind
  rintro _ ⟨rfl, hxxx⟩
  refine ⟨rfl, ?_⟩
  rw [toNat_scaled_add, hxy2, hxxx, hThree, toNat_scaled, toNat_scaled, hyy, hxx, dExact, cubeExact]
  rfl

section Bounds

/-- A number of units, each `1e18`. -/
noncomputable def units (n : Nat) : ℝ := n / 10 ^ 18

theorem units_nonneg (n : Nat) : 0 ≤ units n := by
  unfold units
  positivity

theorem units_mul (m n : Nat) : units (m * n) = m * units n := by
  unfold units
  rw [Nat.cast_mul, mul_div_assoc]

theorem units_le {m n : Nat} (h : m ≤ n) : units m ≤ units n := by
  unfold units
  gcongr

theorem units_sub {m n : Nat} (h : m ≤ n) : units (n - m) = units n - units m := by
  unfold units
  rw [Nat.cast_sub h, sub_div]

theorem cast_eq_units (n : Nat) : (n : ℝ) = 10 ^ 18 * units n := by
  unfold units
  field_simp

theorem scaled_le (n : Nat) : ((n / 10 ^ 18 : Nat) : ℝ) ≤ units n := by
  have h : ((n / 10 ^ 18 : Nat) : ℝ) ≤ n / (10 ^ 18 : Nat) := Nat.cast_div_le
  rwa [Nat.cast_pow, Nat.cast_ofNat] at h

theorem units_lt_scaled (n : Nat) : units n < ((n / 10 ^ 18 : Nat) : ℝ) + 1 := by
  have hBelow : n < 10 ^ 18 * (n / 10 ^ 18 + 1) := Nat.lt_mul_div_succ n (by decide)
  have hCast : (n : ℝ) < 10 ^ 18 * (((n / 10 ^ 18 : Nat) : ℝ) + 1) := by exact_mod_cast hBelow
  unfold units
  rw [div_lt_iff₀ (by positivity)]
  linarith

theorem square_le (y : Nat) : ((y * y / 10 ^ 18 : Nat) : ℝ) ≤ y * units y :=
  (scaled_le _).trans_eq (units_mul y y)

theorem square_gt (y : Nat) : y * units y - 1 < ((y * y / 10 ^ 18 : Nat) : ℝ) := by
  have h := units_lt_scaled (y * y)
  rw [units_mul] at h
  linarith

theorem cube_le (y : Nat) : (cubeExact y : ℝ) ≤ y * units y ^ 2 := by
  have hSquare := mul_le_mul_of_nonneg_right (square_le y) (units_nonneg y)
  calc (cubeExact y : ℝ)
      ≤ units (y * y / 10 ^ 18 * y) := scaled_le _
    _ = (y * y / 10 ^ 18 : Nat) * units y := units_mul _ _
    _ ≤ y * units y * units y := hSquare
    _ = y * units y ^ 2 := by ring

theorem cube_gt (y : Nat) : y * units y ^ 2 - units y - 1 < cubeExact y := by
  have hSquare := mul_le_mul_of_nonneg_right (square_gt y).le (units_nonneg y)
  have hCube := units_lt_scaled (y * y / 10 ^ 18 * y)
  rw [units_mul] at hCube
  unfold cubeExact
  linarith

theorem f_le (x y : Nat) : (fExact x y : ℝ) ≤ level (x : ℝ) (cubeExact x) (units y) := by
  have hLeft : ((x * cubeExact y / 10 ^ 18 : Nat) : ℝ) ≤ x * units y ^ 3 := by
    calc ((x * cubeExact y / 10 ^ 18 : Nat) : ℝ)
        ≤ units (cubeExact y * x) := by
          rw [mul_comm]
          exact scaled_le _
      _ = cubeExact y * units x := units_mul _ _
      _ ≤ y * units y ^ 2 * units x := mul_le_mul_of_nonneg_right (cube_le y) (units_nonneg x)
      _ = x * units y ^ 3 := by
        unfold units
        ring
  have hRight : ((cubeExact x * y / 10 ^ 18 : Nat) : ℝ) ≤ cubeExact x * units y :=
    (scaled_le _).trans_eq (units_mul _ _)
  unfold fExact level
  rw [Nat.cast_add]
  exact add_le_add hLeft hRight

theorem f_gt (x y : Nat) :
    level (x : ℝ) (cubeExact x) (units y) - (2 + units x + units x * units y) < fExact x y := by
  have hCube := mul_le_mul_of_nonneg_right (cube_gt y).le (units_nonneg x)
  have hLeft := units_lt_scaled (cubeExact y * x)
  have hRight := units_lt_scaled (cubeExact x * y)
  have hSame : y * units y ^ 2 * units x = x * units y ^ 3 := by
    unfold units
    ring
  rw [units_mul] at hLeft hRight
  unfold fExact level
  rw [Nat.cast_add, mul_comm x]
  linarith

theorem units_triple (x n : Nat) : units (3 * x * n) = 3 * (units x * n) := by
  unfold units
  push_cast
  ring

theorem d_gt (x y : Nat) : tangent (x : ℝ) (cubeExact x) (units y) - (3 * units x + 1) < dExact x y := by
  have hSquare := mul_le_mul_of_nonneg_left (square_gt y).le (units_nonneg x)
  have hLeft := units_lt_scaled (3 * x * (y * y / 10 ^ 18))
  have hSame : units x * (y * units y) = x * units y ^ 2 := by
    unfold units
    ring
  rw [units_triple] at hLeft
  unfold dExact tangent
  rw [Nat.cast_add]
  linarith

theorem k_le (x y : Nat) : (kExact x y : ℝ) ≤ level (x : ℝ) (x * units x ^ 2) (units y) := by
  have hProduct : ((x * y / 10 ^ 18 : Nat) : ℝ) ≤ x * units y := (scaled_le _).trans_eq (units_mul _ _)
  have hSquares : ((x * x / 10 ^ 18 + y * y / 10 ^ 18 : Nat) : ℝ) ≤ x * units x + y * units y := by
    rw [Nat.cast_add]
    exact add_le_add (square_le x) (square_le y)
  calc (kExact x y : ℝ)
      ≤ units (x * y / 10 ^ 18 * (x * x / 10 ^ 18 + y * y / 10 ^ 18)) := scaled_le _
    _ = ((x * y / 10 ^ 18 : Nat) : ℝ) * (x * x / 10 ^ 18 + y * y / 10 ^ 18 : Nat) / 10 ^ 18 := by
      rw [units, Nat.cast_mul]
    _ ≤ x * units y * (x * units x + y * units y) / 10 ^ 18 := by
      gcongr
      exact mul_nonneg (Nat.cast_nonneg x) (units_nonneg y)
    _ = level (x : ℝ) (x * units x ^ 2) (units y) := by
      unfold level units
      ring

end Bounds

end Robinarb.AeroStable
