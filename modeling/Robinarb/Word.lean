import Mathlib.Algebra.Order.Ring.Int
import Mathlib.Tactic.Common
import Mathlib.Tactic.Linarith
import Mathlib.Tactic.Ring

/-! # Machine words of the quoter

Unsigned and signed Rust integers wider than a tick are bit vectors; `i32` and
`i16` values are integers, and the arithmetic on them wraps as in a release
build.
-/

namespace Robinarb

abbrev U8 := BitVec 8
abbrev U32 := BitVec 32
abbrev U64 := BitVec 64
abbrev U128 := BitVec 128
/-- Two's complement. -/
abbrev I128 := BitVec 128
abbrev U256 := BitVec 256
/-- Two's complement. -/
abbrev I256 := BitVec 256
abbrev B256 := BitVec 256
abbrev Address := BitVec 160

instance : LawfulBEq Address := inferInstance

/-- The `i32` a sum, difference or product wraps to. -/
def wrapI32 (x : Int) : Int := x.bmod (2 ^ 32)

/-- The cast `as i16`. -/
def asI16 (x : Int) : Int := x.bmod (2 ^ 16)

theorem wrapI32_eq {x : Int} (hLow : -2 ^ 31 ≤ x) (hHigh : x < 2 ^ 31) : wrapI32 x = x := by
  apply Int.bmod_eq_of_le <;> omega

theorem asI16_eq {x : Int} (hLow : -2 ^ 15 ≤ x) (hHigh : x < 2 ^ 15) : asI16 x = x := by
  apply Int.bmod_eq_of_le <;> omega

def minTick : Int := -887272
def maxTick : Int := 887272

def minSqrtRatio : U256 := 4295128739#256
def maxSqrtRatio : U256 := 1461446703485210103287273052203988822378723970342#256

end Robinarb
