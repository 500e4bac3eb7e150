import Robinarb.Library.CheckedWord
import Robinarb.Math.AeroStable

/-! # Stable-pool quotes, checked

`aero_stable::get_amount_out` with a check at each product, each division and each
subtraction: its result is the quote, and the numbers it goes through are those of the
formulas over the natural numbers, where nothing wraps.
-/

namespace Robinarb.AeroStable

open CheckedWord

def kChecked (x y : U256) : Except Fault U256 := do
  let xy ← mul x y
  let xx ← mul x x
  let yy ← mul y y
  let ab ← mul (xy / e18) (xx / e18 + yy / e18)
  return ab / e18

def fChecked (x0 y : U256) : Except Fault U256 := do
  let yy ← mul y y
  let y2y ← mul (yy / e18) y
  let xy3 ← mul x0 (y2y / e18)
  let xx ← mul x0 x0
  let x2x ← mul (xx / e18) x0
  let x3y ← mul (x2x / e18) y
  return xy3 / e18 + x3y / e18

def dChecked (x0 y : U256) : Except Fault U256 := do
  let yy ← mul y y
  let threeX ← mul 3#256 x0
  let xy2 ← mul threeX (yy / e18)
  let xx ← mul x0 x0
  let x2x ← mul (xx / e18) x0
  return xy2 / e18 + x2x / e18

def newtonStepChecked (x0 xy y : U256) : Except Fault U256 := do
  let kVal ← fChecked x0 y
  if kVal < xy then
    let gap ← sub xy kVal
    let scaled ← mul gap e18
    let slope ← dChecked x0 y
    let dy ← div scaled slope
    return y + dy
  else
    let gap ← sub kVal xy
    let scaled ← mul gap e18
    let slope ← dChecked x0 y
    let dy ← div scaled slope
    sub y dy

def getYLoopChecked (x0 xy : U256) : Nat → U256 → Except Fault U256
  | 0, y => return y
  | n + 1, yPrev => do
    let y ← newtonStepChecked x0 xy yPrev
    if settled y yPrev then return y else getYLoopChecked x0 xy n y

def getYChecked (x0 xy y : U256) : Except Fault U256 := getYLoopChecked x0 xy 255 y

def getAmountOutChecked (amountIn reserveIn reserveOut decIn decOut : U256) (feeBps : U32) : Except Fault U256 :=
  if amountIn = 0#256 ∨ reserveIn = 0#256 ∨ reserveOut = 0#256 then
    return 0#256
  else do
    let taken ← mul amountIn (feeBps.setWidth 256)
    let amountInAfter ← sub amountIn (taken / 10000#256)
    let scaledIn ← mul reserveIn e18
    let x0 ← div scaledIn decIn
    let scaledOut ← mul reserveOut e18
    let y0 ← div scaledOut decOut
    let scaledAmount ← mul amountInAfter e18
    let amt ← div scaledAmount decIn
    let xy ← kChecked x0 y0
    let yNew ← getYChecked (x0 + amt) xy y0
    let outScaled ← sub y0 yNew
    let out ← mul outScaled decOut
    return out / e18

section Refinement

theorem follows_div (a b : U256) : Follows (div a b) (divWord a b) := by
  unfold div divWord
  split <;> rfl

theorem kChecked_follows (x y : U256) : Follows (kChecked x y) (some (k x y)) := by
  apply (follows_mul x y).bind_some
  apply (follows_mul x x).bind_some
  apply (follows_mul y y).bind_some
  apply (follows_mul _ _).bind_some
  rfl

theorem fChecked_follows (x0 y : U256) : Follows (fChecked x0 y) (some (f x0 y)) := by
  apply (follows_mul y y).bind_some
  apply (follows_mul _ y).bind_some
  apply (follows_mul x0 _).bind_some
  apply (follows_mul x0 x0).bind_some
  apply (follows_mul _ x0).bind_some
  apply (follows_mul _ y).bind_some
  rfl

theorem dChecked_follows (x0 y : U256) : Follows (dChecked x0 y) (some (d x0 y)) := by
  apply (follows_mul y y).bind_some
  apply (follows_mul 3#256 x0).bind_some
  apply (follows_mul _ _).bind_some
  apply (follows_mul x0 x0).bind_some
  apply (follows_mul _ x0).bind_some
  rfl

theorem newtonStepChecked_follows (x0 xy y : U256) : Follows (newtonStepChecked x0 xy y) (newtonStep x0 xy y) := by
  apply (fChecked_follows x0 y).bind_some
  unfold newtonStep
  dsimp only
  split
  · apply (follows_sub _ _).bind_some
    apply (follows_mul _ _).bind_some
    apply (dChecked_follows x0 y).bind_some
    apply (follows_div _ _).bind
    intro dy
    rfl
  · apply (follows_sub _ _).bind_some
    apply (follows_mul _ _).bind_some
    apply (dChecked_follows x0 y).bind_some
    apply (follows_div _ _).bind
    intro dy
    exact follows_sub y dy

theorem getYLoopChecked_follows (x0 xy : U256) (n : Nat) (y : U256) :
    Follows (getYLoopChecked x0 xy n y) (getYLoop x0 xy n y) := by
  induction n generalizing y with
  | zero => rfl
  | succ n ih =>
    apply (newtonStepChecked_follows x0 xy y).bind
    intro next
    split
    · rfl
    · exact ih next

/-- What the checked run ends in is the quote, and where it divides by zero the quote panics. -/
theorem getAmountOutChecked_follows (amountIn reserveIn reserveOut decIn decOut : U256) (feeBps : U32) :
    Follows (getAmountOutChecked amountIn reserveIn reserveOut decIn decOut feeBps)
      (getAmountOut amountIn reserveIn reserveOut decIn decOut feeBps) := by
  unfold getAmountOutChecked getAmountOut
  split
  · rfl
  · apply (follows_mul _ _).bind_some
    apply (follows_sub _ _).bind_some
    apply (follows_mul _ _).bind_some
    apply (follows_div _ _).bind
    intro x0
    apply (follows_mul _ _).bind_some
    apply (follows_div _ _).bind
    intro y0
    apply (follows_mul _ _).bind_some
    apply (follows_div _ _).bind
    intro amt
    apply (kChecked_follows x0 y0).bind_some
    apply (getYLoopChecked_follows _ _ 255 y0).bind
    intro yNew
    apply (follows_sub _ _).bind_some
    apply (follows_mul _ _).bind_some
    rfl

end Refinement

end Robinarb.AeroStable
