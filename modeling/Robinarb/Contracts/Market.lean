import Robinarb.Contracts.Legs
import Robinarb.Library.DealChain

/-! # Markets

What the contract's routes run against: pools that answer a swap as they like, tokens
and WETH that move what they are asked to, and the PoolManager's flash accounting, by
which every currency's delta is to be zero when an unlock ends. The books say what a
handler's memory comes to of the contract's own funds and debts.
-/

namespace Robinarb.ArbExecutor

open Fallible

/-- How pools behave on what they remember, `none` where a swap does not fill. -/
structure Market (M : Type) where
  tokens : Address → Address × Address
  reserves : M → Address → BitVec 112 × BitVec 112 × U32
  amountOut : M → Address → U256 → Address → U256
  paid : M → Address → Address → U256 → M
  pairSwap : M → Address → U256 → U256 → Option M
  v3Swap : M → Address → Bool → U256 → Option (U256 × M)
  v4Swap : M → V4Key → Bool → U256 → Option (U256 × M)

/-- The contract's balances, native ETH under the zero address, and its account with the
PoolManager. -/
structure Books (M : Type) where
  held : Address → Nat
  delta : Address → Int
  unlocked : Bool
  synced : Address
  received : Nat
  venues : M

section Accounts

def credit (f : Address → Nat) (token : Address) (amount : Nat) : Address → Nat :=
  fun t => if t = token then f t + amount else f t

def debit (f : Address → Nat) (token : Address) (amount : Nat) : Address → Nat :=
  fun t => if t = token then f t - amount else f t

def account (f : Address → Int) (currency : Address) (amount : Int) : Address → Int :=
  fun c => if c = currency then f c + amount else f c

theorem credit_self (f : Address → Nat) (token : Address) (amount : Nat) :
    credit f token amount token = f token + amount := if_pos rfl

theorem debit_credit (f : Address → Nat) (token : Address) (amount : Nat) :
    debit (credit f token amount) token amount = f := by
  funext t
  simp only [debit, credit]
  split <;> omega

theorem debit_self_add {f : Address → Nat} {token : Address} {amount : Nat} (hHeld : amount ≤ f token) :
    debit f token amount token + amount = f token := by
  rw [debit, if_pos rfl]
  exact Nat.sub_add_cancel hHeld

theorem credit_zero (f : Address → Nat) (token : Address) : credit f token 0 = f := by
  funext t
  simp only [credit, Nat.add_zero, ite_self]

theorem debit_zero (f : Address → Nat) (token : Address) : debit f token 0 = f := by
  funext t
  simp only [debit, Nat.sub_zero, ite_self]

theorem debit_credit_comm {f : Address → Nat} {tokenIn : Address} {amountIn : Nat} (hHeld : amountIn ≤ f tokenIn)
    (tokenOut : Address) (amountOut : Nat) :
    debit (credit f tokenOut amountOut) tokenIn amountIn = credit (debit f tokenIn amountIn) tokenOut amountOut := by
  funext t
  simp only [debit, credit]
  split
  next hIn =>
    subst hIn
    split <;> omega
  · rfl

def priceLimit (zeroForOne : Bool) : U256 := if zeroForOne then MIN_SQRT_RATIO else MAX_SQRT_RATIO

/-- A `BalanceDelta`: what is owed in, negative, and what is due out, by currency order. -/
def packDelta (zeroForOne : Bool) (amountIn amountOut : U256) : U256 :=
  let owed : I128 := -amountIn.setWidth 128
  let due : I128 := amountOut.setWidth 128
  if zeroForOne then (owed ++ due : BitVec (128 + 128)) else (due ++ owed : BitVec (128 + 128))

/-- The deltas of a pool swap, the pool's gain positive. -/
def poolDeltas (zeroForOne : Bool) (amountIn amountOut : U256) : I256 × I256 :=
  if zeroForOne then (amountIn, -amountOut) else (-amountOut, amountIn)

end Accounts

section Answers

variable {M : Type} (market : Market M) (contract : Address)

/-- What one call does to the books, `none` where nothing is promised. Counterparties are
taken to have what they owe. -/
def Books.answer (b : Books M) : Request → Option (List U256 × Books M)
  | .transfer token recipient amount =>
    if token = zeroAddress ∨ recipient = contract ∨ b.held token < amount.toNat then none
    else
      let sent := { b with held := debit b.held token amount.toNat }
      if recipient = POOL_MANAGER then
        some ([1#256], if token = b.synced then { sent with received := b.received + amount.toNat } else sent)
      else some ([1#256], { sent with venues := market.paid b.venues token recipient amount })
  | .token0 pool => some ([(market.tokens pool).1.setWidth 256], b)
  | .token1 pool => some ([(market.tokens pool).2.setWidth 256], b)
  | .getReserves pool =>
    let (r0, r1, timestamp) := market.reserves b.venues pool
    some ([r0.setWidth 256, r1.setWidth 256, timestamp.setWidth 256], b)
  | .getAmountOut pool amountIn tokenIn => some ([market.amountOut b.venues pool amountIn tokenIn], b)
  | .pairSwap pool amount0Out amount1Out recipient =>
    if recipient = contract then
      (market.pairSwap b.venues pool amount0Out amount1Out).map fun m =>
        ([], { b with
          held := credit (credit b.held (market.tokens pool).1 amount0Out.toNat) (market.tokens pool).2
            amount1Out.toNat
          venues := m })
    else none
  | .managerSwap key hooks zeroForOne amountSpecified limit =>
    -- a negative amount is an exact input
    if b.unlocked = true ∧ hooks = zeroAddress ∧ limit = priceLimit zeroForOne ∧
        -(2 ^ 127) < amountSpecified.toInt ∧ amountSpecified.toInt ≤ 0 then
      match market.v4Swap b.venues key zeroForOne (-amountSpecified) with
      | some (out, m) =>
        if out.toNat < 2 ^ 127 then
          let c := key.currencies zeroForOne
          some ([packDelta zeroForOne (-amountSpecified) out],
            { b with
              delta := account (account b.delta c.1 amountSpecified.toInt) c.2 out.toNat
              venues := m })
        else none
      | none => none
    else none
  | .sync currency => some ([], { b with synced := currency, received := 0 })
  | .settle value =>
    if b.unlocked = false then none
    else if b.synced = zeroAddress then
      if b.held zeroAddress < value.toNat then none
      else
        some ([value],
          { b with
            held := debit b.held zeroAddress value.toNat
            delta := account b.delta zeroAddress value.toNat })
    else if value = 0#256 then
      some ([BitVec.ofNat 256 b.received],
        { b with delta := account b.delta b.synced b.received, synced := zeroAddress, received := 0 })
    else none
  | .take currency recipient amount =>
    if b.unlocked = true ∧ recipient = contract then
      some ([],
        { b with
          held := credit b.held currency amount.toNat
          delta := account b.delta currency (-amount.toNat) })
    else none
  | .wethWithdraw amount =>
    if b.held WETH < amount.toNat then none
    else some ([], { b with held := credit (debit b.held WETH amount.toNat) zeroAddress amount.toNat })
  | .wethDeposit value =>
    if b.held zeroAddress < value.toNat then none
    else some ([], { b with held := credit (debit b.held zeroAddress value.toNat) WETH value.toNat })
  | _ => none

end Answers

section Laws

variable {E M α : Type}

/-- The contract's storage is the same, balances aside. -/
def SameStorage (w w' : World) : Prop := w' = { w with balance := w'.balance }

/-- From storage `w` and books `b` a program succeeds with `a`, and leaves `w'` and `b'`. -/
def Takes (view : E → Books M) (w : World) (b : Books M) (x : Exec E α) (a : α) (w' : World)
    (b' : Books M) : Prop :=
  ∀ st, SameStorage w st.world → view st.env = b →
    ∃ st', x st = .ok (a, st') ∧ SameStorage w' st'.world ∧ view st'.env = b'

variable (market : Market M) (contract : Address) (view : E → Books M)

/-- The handler does what the books say, and leaves the contract's storage alone. -/
def Follows (ext : Handler E) : Prop :=
  ∀ w b request reply b', Books.answer market contract b request = some (reply, b') →
    Takes view w b (ext request) reply w b'

/-- A V3 pool gives its output, calls back for its input, and returns when it has it. The
three callbacks share one body. -/
def CallsBack (ext : Handler E) : Prop :=
  ∃ inner, Follows market contract view inner ∧
    ∀ w b pool zeroForOne amountIn out m b', market.v3Swap b.venues pool zeroForOne amountIn = some (out, m) →
      let t := directed zeroForOne (market.tokens pool)
      let deltas := poolDeltas zeroForOne amountIn out
      let given := { b with held := credit b.held t.2 out.toNat, venues := m }
      Takes view w given (swapCallback inner pool deltas.1 deltas.2) () w b' →
      b'.held t.1 + amountIn.toNat = given.held t.1 →
      Takes view w b (ext (.v3Swap pool contract zeroForOne amountIn (priceLimit zeroForOne)))
        [deltas.1, deltas.2] w b'

/-- The PoolManager's `unlock`: one callback, after which every delta has to be zero. -/
def Unlocks (ext : Handler E) : Prop :=
  ∃ inner, Follows market contract view inner ∧
    ∀ w b data words b', b.unlocked = false → (∀ c, b.delta c = 0) →
      Takes view w { b with unlocked := true } (unlockCallback contract inner POOL_MANAGER (some data)) words w
        b' →
      (∀ c, b'.delta c = 0) →
      Takes view w b (ext (.unlock data)) words w { b' with unlocked := false }

structure Trades (ext : Handler E) : Prop where
  follows : Follows market contract view ext
  callsBack : CallsBack market contract view ext
  unlocks : Unlocks market contract view ext

end Laws

section Deals

variable {M : Type} (market : Market M) (keys : List V4Key)

/-- The output of a UniV2 pair: the input less the fee, on the constant product. -/
def v2Out (reserves : BitVec 112 × BitVec 112) (feeBps : U16) (amountIn : U256) : U256 :=
  let amountInWithFee := amountIn.toNat * (10000 - feeBps.toNat)
  BitVec.ofNat 256
    (amountInWithFee * reserves.2.toNat / (reserves.1.toNat * 10000 + amountInWithFee))

/-- A pair that is paid first and then asked for an output. -/
def pairDeal (m : M) (h : Hop) (amountIn out : U256) : Option (U256 × M) :=
  let t := directed h.zeroForOne (market.tokens h.pool)
  let asked := directed h.zeroForOne (0#256, out)
  (market.pairSwap (market.paid m t.1 h.pool amountIn) h.pool asked.1 asked.2).map fun m' => (out, m')

def hopDeal (m : M) (h : Hop) (amountIn : U256) : Option (U256 × M) :=
  let t := directed h.zeroForOne (market.tokens h.pool)
  if h.kind = 0#8 then
    let (r0, r1, _) := market.reserves m h.pool
    pairDeal market m h amountIn (v2Out (if h.zeroForOne then (r0, r1) else (r1, r0)) h.feeBps amountIn)
  else if h.kind = 1#8 then pairDeal market m h amountIn (market.amountOut m h.pool amountIn t.1)
  else if h.kind = 2#8 ∨ h.kind = 4#8 then
    (market.v3Swap m h.pool h.zeroForOne amountIn).map fun r =>
      (r.1, if amountIn = 0#256 then r.2 else market.paid r.2 t.1 h.pool amountIn)
  else
    match keys[h.feeBps.toNat]? with
    | some key => market.v4Swap m key h.zeroForOne amountIn
    | none => none

/-- A swap that fills, with a positive output below `2 ^ 127`. -/
def filledDeal (m : M) (h : Hop) (amountIn : U256) : Option (U256 × M) :=
  (hopDeal market keys m h amountIn).filter fun r => 0 < r.1.toNat ∧ r.1.toNat < 2 ^ 127

def exchanged (held : Address → Nat) (tokenIn : Address) (amountIn : U256) (tokenOut : Address)
    (amountOut : U256) : Address → Nat :=
  credit (debit held tokenIn amountIn.toNat) tokenOut amountOut.toNat

def incurred (delta : Address → Int) (currencyIn : Address) (amountIn : U256) (currencyOut : Address)
    (amountOut : U256) : Address → Int :=
  account (account delta currencyIn (-amountIn.toNat)) currencyOut amountOut.toNat

theorem exchanged_telescopes : DealChain.Telescopes exchanged := by
  intro held i a j b k c
  funext t
  simp only [exchanged, credit, debit]
  split <;> split <;> omega

theorem incurred_telescopes : DealChain.Telescopes incurred := by
  intro delta i a j b k c
  funext t
  simp only [incurred, account]
  split <;> split <;> split <;> omega

end Deals

end Robinarb.ArbExecutor
