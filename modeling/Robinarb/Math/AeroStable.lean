import Robinarb.Math.V2

/-! # Stable-pool quotes

`aero_stable::get_amount_out`: the invariant `x^3 y + x y^3` at scale `1e18`, and
Newton's iteration for the new reserve, which divides by the derivative.
-/

namespace Robinarb.AeroStable

def e18 : U256 := 1000000000000000000#256

def k (x y : U256) : U256 :=
  let a := x * y / e18
  let b := x * x / e18 + y * y / e18
  a * b / e18

def f (x0 y : U256) : U256 :=
  let y2 := y * y / e18
  let y3 := y2 * y / e18
  let a := x0 * y3 / e18
  let x2 := x0 * x0 / e18
  let x3 := x2 * x0 / e18
  let b := x3 * y / e18
  a + b

def d (x0 y : U256) : U256 :=
  let y2 := y * y / e18
  let a := 3#256 * x0 * y2 / e18
  let x2 := x0 * x0 / e18
  let x3 := x2 * x0 / e18
  a + x3

def newtonStep (x0 xy y : U256) : Option U256 :=
  let kVal := f x0 y
  if kVal < xy then do
    let dy ← divWord ((xy - kVal) * e18) (d x0 y)
    return y + dy
  else do
    let dy ← divWord ((kVal - xy) * e18) (d x0 y)
    return y - dy

/-- The stopping test: the step moved by at most one. -/
def settled (y yPrev : U256) : Bool :=
  if yPrev < y then decide (y - yPrev ≤ 1#256) else decide (yPrev - y ≤ 1#256)

/-- The loop of `get_y`, with the iterations it has left. -/
def getYLoop (x0 xy : U256) : Nat → U256 → Option U256
  | 0, y => some y
  | n + 1, yPrev => do
    let y ← newtonStep x0 xy yPrev
    if settled y yPrev then return y else getYLoop x0 xy n y

def getY (x0 xy y : U256) : Option U256 := getYLoop x0 xy 255 y

def getAmountOut (amountIn reserveIn reserveOut decIn decOut : U256) (feeBps : U32) : Option U256 :=
  if amountIn = 0#256 ∨ reserveIn = 0#256 ∨ reserveOut = 0#256 then
    some 0#256
  else do
    let fee := amountIn * feeBps.setWidth 256 / 10000#256
    let amountInAfter := amountIn - fee
    let x0 ← divWord (reserveIn * e18) decIn
    let y0 ← divWord (reserveOut * e18) decOut
    let amt ← divWord (amountInAfter * e18) decIn
    let yNew ← getY (x0 + amt) (k x0 y0) y0
    return (y0 - yNew) * decOut / e18

end Robinarb.AeroStable
