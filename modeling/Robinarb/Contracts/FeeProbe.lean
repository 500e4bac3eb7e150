import Robinarb.Word
import Mathlib.Logic.Function.Basic

/-! # The transfer probe

`FeeProbe` over any token it may be pointed at. Its code runs at two accounts at once:
the holder, which sends, and the relay, which forwards what it then has.
-/

namespace Robinarb

/-- What the probe calls of a token, with the caller first; `none` is a revert. -/
structure Erc20 (W : Type) where
  transfer : Address → Address → Nat → W → Option W
  balanceOf : Address → W → Nat

namespace FeeProbe

variable {W : Type} (token : Erc20 W)

/-- `relay`, at the account `this`. -/
def relay (this dummy : Address) (amount : Nat) (w : W) : Option Nat := do
  let before := token.balanceOf dummy w
  let w ← token.transfer this dummy amount w
  if before ≤ token.balanceOf dummy w then
    return token.balanceOf dummy w - before
  else none

/-- `probe`, at the account `this`. -/
def probe (this relay_ dummy : Address) (amount : Nat) (w : W) : Option Nat := do
  let w ← token.transfer this relay_ amount w
  let gotByRelay := token.balanceOf relay_ w
  relay token relay_ dummy gotByRelay w

end FeeProbe

end Robinarb
