import Robinarb.Contracts.FeeProbe
import Mathlib.Tactic.Linarith
import Mathlib.Tactic.Ring

/-! # Fee-on-transfer detection

`probe_one` and `probe_token`, and the tokens they look for: a token that takes a share
of every transfer between accounts it does not exempt.
-/

namespace Robinarb

namespace FeeProbe

def RELAY : Address := 0xEE1A4001#160
def DUMMY_RECIPIENT : Address := 0xC0FFEE01#160
def TOLERANCE_BPS : Nat := 1

/-- A thousandth of a token, or one unit of a token with few decimals. -/
def probeAmount (decimals : U8) : Nat := max (10 ^ min decimals.toNat 18 / 1000) 1

/-- What has to arrive for a transfer to count as whole. -/
def minOk (amount : Nat) : Nat := amount - amount * TOLERANCE_BPS / 10000

variable {W : Type} (token : Erc20 W)

/-- `none` is inconclusive. -/
def probeOne (w : W) (holder : Address) (decimals : U8) : Option Bool :=
  (probe token holder RELAY DUMMY_RECIPIENT (probeAmount decimals) w).map fun received =>
    decide (received < minOk (probeAmount decimals))

/-- The holders in turn, up to the first that shows a shortfall. -/
def probeToken (w : W) (decimals : U8) (holders : List Address) (anyConclusive : Bool) : Option Bool :=
  match holders with
  | [] => if anyConclusive then some false else none
  | holder :: rest =>
    match probeOne token w holder decimals with
    | some true => some true
    | some false => probeToken w decimals rest true
    | none => probeToken w decimals rest anyConclusive

end FeeProbe

/-- A token that keeps `rate` basis points of a transfer unless one side is exempt. Of
its state only what the recipient sees is fixed. -/
structure FeeToken (W : Type) extends Erc20 W where
  rate : Nat
  exempt : Address → Bool
  atLeastOnePercent : 100 ≤ rate
  atMostAll : rate ≤ 10000
  delivers : ∀ source recipient amount w w', transfer source recipient amount w = some w' →
    balanceOf recipient w' + (if source = recipient then amount else 0) = balanceOf recipient w +
      (amount - if exempt source || exempt recipient then 0 else amount * rate / 10000)

namespace FeeToken

open FeeProbe

variable {W : Type} (token : FeeToken W)

def fee (source recipient : Address) (amount : Nat) : Nat :=
  if token.exempt source || token.exempt recipient then 0 else amount * token.rate / 10000

/-- What the relay has to forward once the holder has sent: with what it had before. -/
def forwarded (w : W) (holder : Address) (amount : Nat) : Nat :=
  token.balanceOf RELAY w + (amount - token.fee holder RELAY amount) - if holder = RELAY then amount else 0

variable {token}

theorem sub_fee_lt_iff {amount rate bound : Nat} (hRate : rate ≤ 10000) (hBound : 0 < bound) :
    amount - amount * rate / 10000 < bound ↔ amount * (10000 - rate) ≤ (bound - 1) * 10000 := by
  have hAll : amount * rate ≤ amount * 10000 := Nat.mul_le_mul_left amount hRate
  rw [Nat.mul_sub]
  generalize amount * rate = taxed at hAll ⊢
  omega

theorem minOk_pos {amount : Nat} (hPos : 0 < amount) : 0 < minOk amount := by
  rw [minOk, TOLERANCE_BPS]
  omega

theorem probeAmount_pos (decimals : U8) : 0 < probeAmount decimals := Nat.lt_of_lt_of_le Nat.one_pos (le_max_right _ _)

/-- The dummy's own balance cancels out, the relay's does not. -/
theorem probe_received (hRelay : token.exempt RELAY = false) (hDummy : token.exempt DUMMY_RECIPIENT = false) {w : W}
    {holder : Address} {amount received : Nat}
    (hProbe : probe token.toErc20 holder RELAY DUMMY_RECIPIENT amount w = some received) :
    received = token.forwarded w holder amount - token.forwarded w holder amount * token.rate / 10000 := by
  obtain ⟨sent, hSend, hRelayed⟩ := Option.bind_eq_some_iff.mp hProbe
  have hGot : token.balanceOf RELAY sent = token.forwarded w holder amount := by
    have hDelivered := token.delivers holder RELAY amount w sent hSend
    rw [forwarded, fee]
    omega
  obtain ⟨last, hForward, hRest⟩ := Option.bind_eq_some_iff.mp hRelayed
  obtain ⟨-, hDone⟩ := Option.ite_none_right_eq_some.mp hRest
  have hDelivered := token.delivers RELAY DUMMY_RECIPIENT _ sent last hForward
  rw [if_neg (by decide), hRelay, hDummy, hGot] at hDelivered
  rw [← Option.some.inj hDone]
  exact Nat.sub_eq_of_eq_add' hDelivered

/-- The verdict of a probe that went through, in what the relay forwards. -/
theorem probeOne_verdict (hRelay : token.exempt RELAY = false) (hDummy : token.exempt DUMMY_RECIPIENT = false) {w : W}
    {holder : Address} {decimals : U8}
    (hProbe : (probe token.toErc20 holder RELAY DUMMY_RECIPIENT (probeAmount decimals) w).isSome) :
    probeOne token.toErc20 w holder decimals = some true ↔
      token.forwarded w holder (probeAmount decimals) - token.forwarded w holder (probeAmount decimals) * token.rate / 10000 <
        minOk (probeAmount decimals) := by
  obtain ⟨received, hReceived⟩ := Option.isSome_iff_exists.mp hProbe
  rw [probeOne, hReceived, Option.map_some, Option.some.injEq, decide_eq_true_iff, probe_received hRelay hDummy hReceived]

/-- The probe sees the fee exactly when the untaxed share of all the relay forwards
stays below what the probe takes for a whole transfer. -/
theorem probeOne_reveals_fee_iff (token : FeeToken W) (hRelay : token.exempt RELAY = false)
    (hDummy : token.exempt DUMMY_RECIPIENT = false) (w : W) (holder : Address) (decimals : U8)
    (hProbe : (probe token.toErc20 holder RELAY DUMMY_RECIPIENT (probeAmount decimals) w).isSome) :
    probeOne token.toErc20 w holder decimals = some true ↔
      token.forwarded w holder (probeAmount decimals) * (10000 - token.rate) ≤
        (minOk (probeAmount decimals) - 1) * 10000 := by
  rw [probeOne_verdict hRelay hDummy hProbe]
  exact sub_fee_lt_iff token.atMostAll (minOk_pos (probeAmount_pos decimals))

theorem tolerance_le {amount : Nat} (hAmount : 100 ≤ amount) : amount / 10000 * 10000 + 10000 ≤ amount * 100 := by
  obtain hSmall | hLarge := Nat.lt_or_ge amount 10000
  · rw [Nat.div_eq_of_lt hSmall]
    linarith
  · have hFloor := Nat.div_mul_le_self amount 10000
    linarith

theorem forwarded_share_le {w : W} {holder : Address} {amount : Nat} (hEmpty : token.balanceOf RELAY w = 0)
    (hAmount : 100 ≤ amount) : token.forwarded w holder amount * (10000 - token.rate) ≤ (minOk amount - 1) * 10000 := by
  have hForwarded : token.forwarded w holder amount ≤ amount := by
    rw [forwarded, hEmpty]
    omega
  have hRate := token.atLeastOnePercent
  have hTolerance := tolerance_le hAmount
  calc token.forwarded w holder amount * (10000 - token.rate) ≤ amount * 9900 :=
        Nat.mul_le_mul hForwarded (by omega)
    _ ≤ amount * 10000 - amount / 10000 * 10000 - 1 * 10000 := by
        apply Nat.le_sub_of_add_le
        apply Nat.le_sub_of_add_le
        linarith
    _ = (minOk amount - 1) * 10000 := by rw [minOk, TOLERANCE_BPS, Nat.mul_one, Nat.sub_mul, Nat.sub_mul]

/-- An empty relay and five decimals are enough, for every rate and every holder. -/
theorem probeOne_reveals_fee (hRelay : token.exempt RELAY = false) (hDummy : token.exempt DUMMY_RECIPIENT = false)
    {w : W} {holder : Address} {decimals : U8} (hEmpty : token.balanceOf RELAY w = 0) (hDecimals : 5#8 ≤ decimals)
    (hProbe : (probe token.toErc20 holder RELAY DUMMY_RECIPIENT (probeAmount decimals) w).isSome) :
    probeOne token.toErc20 w holder decimals = some true := by
  rw [probeOne_verdict hRelay hDummy hProbe, sub_fee_lt_iff token.atMostAll (minOk_pos (probeAmount_pos decimals))]
  have hScale : 10 ^ 5 ≤ 10 ^ min decimals.toNat 18 :=
    Nat.pow_le_pow_right (by decide) (le_min hDecimals (by decide))
  have hAmount : 100 ≤ probeAmount decimals := by
    rw [probeAmount]
    omega
  exact forwarded_share_le hEmpty hAmount

end FeeToken

section Sample

open FeeProbe FeeToken

/-- Balances, with the fee burnt. -/
def burning (rate : Nat) (hLow : 100 ≤ rate) (hHigh : rate ≤ 10000) : FeeToken (Address → Nat) where
  transfer source recipient amount balances :=
    if balances source < amount then none
    else
      let debited := Function.update balances source (balances source - amount)
      some (Function.update debited recipient (debited recipient + (amount - amount * rate / 10000)))
  balanceOf account balances := balances account
  rate := rate
  exempt _ := false
  atLeastOnePercent := hLow
  atMostAll := hHigh
  delivers source recipient amount balances after hTransfer := by
    obtain ⟨hCovered, hAfter⟩ := Option.ite_none_left_eq_some.mp hTransfer
    rw [← Option.some.inj hAfter, Function.update_self]
    split
    · rename_i hSelf
      rw [hSelf, Function.update_self]
      rw [hSelf] at hCovered
      simp
      omega
    · rename_i hOther
      rw [Function.update_of_ne (Ne.symm hOther)]
      simp

/-- A token of one percent, six decimals, and a pool that holds ten units of it. -/
def sampleHoldings (relayHolds : Nat) : Address → Nat := fun account =>
  if account = 1#160 then 10000000 else if account = RELAY then relayHolds else 0

theorem onePercent_revealed :
    probeOne (burning 100 (by decide) (by decide)).toErc20 (sampleHoldings 0) 1#160 6#8 = some true :=
  (probeOne_reveals_fee_iff (burning 100 (by decide) (by decide)) rfl rfl (sampleHoldings 0) 1#160 6#8
    (by decide +kernel)).mpr (by decide +kernel)

/-- A hundred units at the relay's address cover the fee twice over. -/
theorem relay_balance_masks_fee : ¬∀ (token : FeeToken (Address → Nat)) (balances : Address → Nat) (holder : Address)
    (decimals : U8), token.exempt RELAY = false → token.exempt DUMMY_RECIPIENT = false →
    (probe token.toErc20 holder RELAY DUMMY_RECIPIENT (probeAmount decimals) balances).isSome →
    probeOne token.toErc20 balances holder decimals = some true := by
  intro h
  have hMissed : probeOne (burning 100 (by decide) (by decide)).toErc20 (sampleHoldings 100) 1#160 6#8 = some false := by
    decide +kernel
  have hProbed : (probe (burning 100 (by decide) (by decide)).toErc20 1#160 RELAY DUMMY_RECIPIENT (probeAmount 6#8)
      (sampleHoldings 100)).isSome := by
    decide +kernel
  have hSeen := hMissed.symm.trans (h _ _ _ _ rfl rfl hProbed)
  cases hSeen

end Sample

end Robinarb
