import Robinarb.Library.Numerals
import Robinarb.Library.TopBits
import Robinarb.Math.Quote
import Mathlib.Algebra.Order.Floor.Semiring

/-! # Quotes and rates of the optimizer

The `f64` functions of `math`, in exact arithmetic over an ordered field. What the
source does to a word before it is a float, it does here too: `u256_to_f64` keeps the
top 52 bits.
-/

namespace Robinarb

open scoped Numerals

def bitLen (v : U256) : Nat := if v = 0#256 then 0 else v.toNat.log2 + 1

section Words

def u256ToF64 (K : Type) [Field K] (v : U256) : K :=
  let bits := bitLen v
  if bits ≤ 52 then (v.toNat : K)
  else
    let shift := bits - 52
    ((v >>> shift).toNat : K) * 2 ^ shift

theorem u256ToF64_eq_keep {K : Type} [Field K] (w : U256) : u256ToF64 K w = (TopBits.keep 52 w.toNat : Nat) := by
  have hLength : bitLen w = TopBits.length w.toNat := by
    unfold bitLen TopBits.length
    by_cases hZero : w = 0#256
    · rw [if_pos hZero, hZero]
      rfl
    · have hNonzero : w.toNat ≠ 0 := fun h => hZero (BitVec.eq_of_toNat_eq h)
      rw [if_neg hZero, if_neg hNonzero]
  unfold u256ToF64
  dsimp only
  split
  · rename_i hShort
    rw [TopBits.keep_of_length_le (hLength ▸ hShort)]
  · rw [TopBits.keep, ← hLength, Nat.cast_mul, Nat.cast_pow, Nat.cast_ofNat, BitVec.toNat_ushiftRight]

/-- The word survives `u256_to_f64` whole. -/
def ReadExactly (w : U256) : Prop := TopBits.keep 52 w.toNat = w.toNat

theorem u256ToF64_of_readExactly {K : Type} [Field K] {w : U256} (h : ReadExactly w) : u256ToF64 K w = w.toNat := by
  rw [u256ToF64_eq_keep]
  exact congrArg Nat.cast h

def feeFactor (K : Type) [Field K] (feeBps : U32) : K := ((10000 - feeBps.toNat : Int) : K) / 10000

theorem feeFactor_eq {K : Type} [Field K] {feeBps : U32} (hFee : feeBps.toNat ≤ 10000) :
    feeFactor K feeBps = ((10000 - feeBps.toNat : Nat) : K) / 10000 := by
  rw [feeFactor, Nat.cast_sub hFee]
  push_cast
  rfl

variable {K : Type} [Field K] [LinearOrder K] [IsStrictOrderedRing K] {feeBps : U32}

theorem u256ToF64_le (w : U256) : u256ToF64 K w ≤ w.toNat := by
  rw [u256ToF64_eq_keep]
  exact Nat.cast_le.mpr (TopBits.keep_le 52 w.toNat)

theorem le_u256ToF64 (w : U256) : (w.toNat : K) * (1 - 1 / 2 ^ 51) ≤ u256ToF64 K w := by
  have hLost : ((w.toNat - TopBits.keep 52 w.toNat : Nat) : K) * 2 ^ 51 ≤ w.toNat := by
    exact_mod_cast TopBits.lost_le (w := w.toNat) (by decide : 0 < 52)
  rw [Nat.cast_sub (TopBits.keep_le _ _)] at hLost
  have hShare : (w.toNat : K) - (TopBits.keep 52 w.toNat : Nat) ≤ w.toNat / 2 ^ 51 :=
    (le_div_iff₀ (by positivity)).mpr hLost
  rw [u256ToF64_eq_keep, mul_sub, mul_one, mul_one_div]
  exact sub_le_comm.mp hShare

theorem u256ToF64_pos {w : U256} (hw : w ≠ 0#256) : 0 < u256ToF64 K w := by
  have hPositive : (0 : K) < w.toNat :=
    Nat.cast_pos.mpr (Nat.pos_of_ne_zero fun hZero => hw (BitVec.eq_of_toNat_eq hZero))
  exact (mul_pos hPositive (by norm_num)).trans_le (le_u256ToF64 w)

theorem feeFactor_nonneg (hFee : feeBps.toNat ≤ 10000) : 0 ≤ feeFactor K feeBps := by
  rw [feeFactor_eq hFee]
  exact div_nonneg (Nat.cast_nonneg _) (by norm_num)

theorem feeFactor_pos (hFee : feeBps.toNat < 10000) : 0 < feeFactor K feeBps := by
  have hRate : 0 < (10000 - feeBps.toNat : Int) := by omega
  exact div_pos (Int.cast_pos.mpr hRate) (by norm_num)

end Words

section Curves

variable {K : Type} [Field K] [LinearOrder K]

namespace V2

def getAmountOutF64 (amountIn reserveIn reserveOut : K) (feeBps : U32) : K :=
  if amountIn ≤ 0 ∨ reserveIn ≤ 0 ∨ reserveOut ≤ 0 then 0
  else
    let ain := amountIn * feeFactor K feeBps
    ain * reserveOut / (reserveIn + ain)

/-- One hop as `a * x / (b + c * x)`. -/
structure HopCoef (K : Type) where
  a : K
  b : K
  c : K

def hopCoef (reserveIn reserveOut : K) (feeBps : U32) : HopCoef K where
  a := feeFactor K feeBps * reserveOut
  b := reserveIn
  c := feeFactor K feeBps

def compose (f g : HopCoef K) : HopCoef K where
  a := g.a * f.a
  b := g.b * f.b
  c := g.b * f.c + g.c * f.a

end V2

namespace AeroStable

/-- The Newton loop, with the iterations it has left. -/
def solveLoop (xNew kk : K) : Nat → K → K
  | 0, y => y
  | n + 1, y =>
    let fy := xNew * xNew * xNew * y + xNew * y * y * y
    let dy := 3 * xNew * y * y + xNew * xNew * xNew
    let step := (fy - kk) / dy
    let ny := y - step
    if |ny - y| < 1 / 10 ^ 18 then ny else solveLoop xNew kk n ny

/-- `get_amount_out_f64` with its solver for `x_new^3 y + x_new y^3 = kk`, which starts at `y0`. -/
def getAmountOutWith (solve : K → K → K → K) (amountIn reserveIn reserveOut decIn decOut : K) (feeBps : U32) : K :=
  if amountIn ≤ 0 ∨ reserveIn ≤ 0 ∨ reserveOut ≤ 0 then 0
  else
    let x0 := reserveIn / decIn
    let y0 := reserveOut / decOut
    let amt := amountIn * feeFactor K feeBps / decIn
    let kk := x0 * x0 * x0 * y0 + x0 * y0 * y0 * y0
    let xNew := x0 + amt
    let y := solve xNew kk y0
    max ((y0 - y) * decOut) 0

def newton (xNew kk y0 : K) : K := solveLoop xNew kk 64 y0

def getAmountOutF64 : K → K → K → K → K → U32 → K := getAmountOutWith newton

end AeroStable

end Curves

section Pools

variable {K : Type} [Field K] [LinearOrder K]

def inDirection {α : Type} (zeroForOne : Bool) (r : α × α) : α × α := if zeroForOne then r else (r.2, r.1)

section Quote

variable [FloorSemiring K] {ε : Type} (M : SwapMath ε) (keccak : Keccak) (solve : K → K → K → K)

/-- `U256::from(x.max(0.0) as u128)`: the cast truncates and saturates. -/
def wholeAmount (x : K) : U256 := BitVec.ofNat 256 (min ⌊max x 0⌋₊ (2 ^ 128 - 1))

/-- `quote_f64`, with the solver of its stable pools. -/
def quoteF64With (s : ChainState) (pool : PoolMeta) (amountIn : K) (zeroForOne : Bool) : K :=
  match s.plan pool.idx with
  | none => 0
  | some (.v2Packed addr slot) =>
    let (r0, r1) := decodeV2Packed (s.read addr slot)
    let (rin, rout) := inDirection zeroForOne ((r0.toNat : K), (r1.toNat : K))
    V2.getAmountOutF64 amountIn rin rout pool.feeBps
  | some (.v2TwoSlot addr r0) =>
    let w0 := s.read addr r0
    let w1 := s.read addr (r0 + 1#256)
    let (rin, rout) := inDirection zeroForOne (u256ToF64 K w0, u256ToF64 K w1)
    if pool.dex = .aeroStable then
      let (din, dout) := inDirection zeroForOne ((10 : K) ^ pool.dec0.toNat, (10 : K) ^ pool.dec1.toNat)
      AeroStable.getAmountOutWith solve amountIn rin rout din dout pool.feeBps
    else V2.getAmountOutF64 amountIn rin rout pool.feeBps
  | some (.cl _) =>
    -- the exact path, which never panics on such a pool
    ((quote M keccak s pool (wholeAmount amountIn) zeroForOne).map (u256ToF64 K)).getD 0

def quoteF64 (s : ChainState) (pool : PoolMeta) (amountIn : K) (zeroForOne : Bool) : K :=
  quoteF64With M keccak AeroStable.newton s pool amountIn zeroForOne

end Quote

/-- The tier-1 marginal rate after fees. -/
def spotRate (s : ChainState) (pool : PoolMeta) (zeroForOne : Bool) : K :=
  match s.plan pool.idx with
  | none => 0
  | some (.v2Packed addr slot) =>
    let (r0, r1) := decodeV2Packed (s.read addr slot)
    let (rin, rout) := inDirection zeroForOne ((r0.toNat : K), (r1.toNat : K))
    if rin ≤ 0 ∨ rout ≤ 0 then 0 else feeFactor K pool.feeBps * rout / rin
  | some (.v2TwoSlot addr r0) =>
    let w0 := s.read addr r0
    let w1 := s.read addr (r0 + 1#256)
    if pool.dex = .aeroStable then
      let x := u256ToF64 K w0 / 10 ^ pool.dec0.toNat
      let y := u256ToF64 K w1 / 10 ^ pool.dec1.toNat
      if x ≤ 0 ∨ y ≤ 0 then 0
      else
        let (a, b) := inDirection zeroForOne (x, y)
        let num := 3 * a * a * b + b * b * b
        let den := a * a * a + 3 * a * b * b
        if den ≤ 0 then 0 else feeFactor K pool.feeBps * num / den
    else
      let (rin, rout) := inDirection zeroForOne (u256ToF64 K w0, u256ToF64 K w1)
      if rin ≤ 0 ∨ rout ≤ 0 then 0 else feeFactor K pool.feeBps * rout / rin
  | some (.cl plan) =>
    let word0 := s.read plan.addr plan.slot0
    let sp := u256ToF64 K (decodeV3Slot0 word0).1
    let ratio := sp / 2 ^ 96
    let price1Per0 := ratio * ratio
    if price1Per0 ≤ 0 then 0
    else
      let gamma := ((1000000 - (plan.fee.pips pool word0).toNat : Int) : K) / 1000000
      if zeroForOne then gamma * price1Per0 else gamma / price1Per0

end Pools

end Robinarb
