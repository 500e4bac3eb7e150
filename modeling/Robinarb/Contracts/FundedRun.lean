import Robinarb.Contracts.HopByHop

/-! # A funded run

`executeArb` over a market, in both funding modes. The contract's own balance or a loan
pays the first hop, and what comes back at the end of the route is the contract's.
-/

namespace Robinarb.ArbExecutor

open Fallible

section Funding

variable {E M : Type} (market : Market M) (contract : Address) (view : E → Books M)

/-- A token says what the contract holds of it. -/
structure Serves (ext : Handler E) : Prop where
  trades : Trades market contract view ext
  holdings : ∀ w b token, b.held token < 2 ^ 256 →
    Takes view w b (ext (.balanceOf token contract)) [BitVec.ofNat 256 (b.held token)] w b

/-- Morpho's `flashLoan`: the assets in, the callback once, the assets out. -/
def LendsOnce (ext : Handler E) : Prop :=
  ∃ inner, Serves market contract view inner ∧
    ∀ w b token assets data w' b',
      Takes view w { b with held := credit b.held token assets.toNat }
        (onMorphoFlashLoan contract inner MORPHO assets (some data)) () w' b' →
      assets.toNat ≤ b'.held token →
      Takes view w b (ext (.flashLoan token assets data)) [] w' { b' with held := debit b'.held token assets.toNat }

structure Funds (ext : Handler E) : Prop where
  serves : Serves market contract view ext
  lends : LendsOnce market contract view ext

/-- The books after a route from a token back to it: the profit, and the venues as they were traded with. -/
def Books.earned {M : Type} (b : Books M) (anchor : Address) (profit : Nat) (venues : M) : Books M :=
  { b with held := credit b.held anchor profit, venues := venues }

end Funding

section Runs

variable {E M : Type} {market : Market M} {contract : Address} {view : E → Books M} {ext : Handler E} {w : World}
  {b : Books M} {hops : List Hop} {keys : List V4Key} {anchor : Address} {amountIn minProfit : U256}

theorem Books.Quiet.earned (hQuiet : b.Quiet) (anchor : Address) (profit : Nat) (venues : M) :
    (b.earned anchor profit venues).Quiet :=
  ⟨hQuiet.locked, hQuiet.even, ⟨hQuiet.settled.synced, hQuiet.settled.received⟩⟩

theorem balanceOf_takes (hServes : Serves market contract view ext) {token : Address} (hFits : b.held token < 2 ^ 256) :
    Takes view w b (balanceOf ext token contract) (BitVec.ofNat 256 (b.held token)) w b :=
  (hServes.holdings w b token hFits).bind (Takes.of_reads (decodeWord_reads rfl (BitVec.isLt _)))

theorem profitCheck_takes {start stop : Nat} (hStart : start < 2 ^ 256) (hStop : stop < 2 ^ 256)
    (hProfit : start + minProfit.toNat ≤ stop) :
    Takes view w b (profitCheck (BitVec.ofNat 256 start) (BitVec.ofNat 256 stop) minProfit) () w b := by
  have hStartWord : (BitVec.ofNat 256 start).toNat = start := by rw [BitVec.toNat_ofNat, Nat.mod_eq_of_lt hStart]
  have hStopWord : (BitVec.ofNat 256 stop).toNat = stop := by rw [BitVec.toNat_ofNat, Nat.mod_eq_of_lt hStop]
  have hFits : (BitVec.ofNat 256 start).toNat + minProfit.toNat < 2 ^ 256 := by
    rw [hStartWord]
    exact hProfit.trans_lt hStop
  refine Takes.reads (checkedAdd_reads hFits) (Takes.of_reads (require_reads (decide_eq_true ?_)))
  rw [BitVec.le_def, BitVec.toNat_add_of_lt hFits, hStartWord, hStopWord]
  exact hProfit

theorem guardedHops_takes (hServes : Serves market contract view ext) (hManager : POOL_MANAGER ≠ contract)
    (hQuiet : b.Quiet) {d : DealChain.Deal U256 M (Address → Nat)}
    (hRoute : FilledRoute market contract keys b hops amountIn d) (anchor : Address) (hStart : b.held anchor < 2 ^ 256)
    (hStop : d.funds anchor < 2 ^ 256) (hProfit : b.held anchor + minProfit.toNat ≤ d.funds anchor) :
    ∃ w', Takes view w b (guardedHops contract ext hops keys anchor amountIn minProfit) () w' (b.dealt d) := by
  obtain ⟨w', hHops⟩ := _runHops_takes (w := w) hServes.trades hManager hQuiet hRoute
  refine ⟨w', (balanceOf_takes hServes hStart).bind (hHops.bind ?_)⟩
  exact (balanceOf_takes hServes hStop).bind (profitCheck_takes hStart hStop hProfit)

/-- What a closed route moves is the anchor alone. -/
theorem FilledRoute.funds_eq {d : DealChain.Deal U256 M (Address → Nat)} (hRoute : FilledRoute market contract keys b hops amountIn d)
    (hClosed : ClosedCycle market.tokens keys anchor hops) (hSome : hops ≠ []) :
    d.funds = exchanged b.held anchor amountIn anchor d.amount ∧ amountIn.toNat ≤ b.held anchor := by
  obtain ⟨first, rest, rfl⟩ := List.exists_cons_of_ne_nil hSome
  have hStarts := hClosed.starts first rfl
  have hEnds := hClosed.ends _ (List.getLast?_eq_getLast_of_ne_nil hSome)
  have hHeld := hRoute.held first rfl
  rw [hStarts] at hHeld
  refine ⟨?_, hHeld⟩
  rw [DealChain.run_funds exchanged_telescopes hRoute.connected hRoute.filled, hStarts, hEnds]

/-- The same route on other funds that can pay for it. -/
theorem FilledRoute.refund {d : DealChain.Deal U256 M (Address → Nat)} (hRoute : FilledRoute market contract keys b hops amountIn d)
    (hClosed : ClosedCycle market.tokens keys anchor hops) {held : Address → Nat} (hHeld : amountIn.toNat ≤ held anchor) :
    ∃ funds, FilledRoute market contract keys { b with held := held } hops amountIn ⟨d.amount, d.venues, funds⟩ := by
  obtain ⟨funds, hFilled⟩ := DealChain.run_watched hRoute.filled held
  refine ⟨funds, hRoute.apart, hRoute.inRange, hRoute.connected, hRoute.small, fun h hFirst => ?_, hFilled⟩
  rw [hClosed.starts h hFirst]
  exact hHeld

theorem exchanged_back {held : Address → Nat} {token : Address} {amountIn amountOut : U256}
    (hHeld : amountIn.toNat ≤ held token) (hGain : amountIn.toNat ≤ amountOut.toNat) :
    exchanged held token amountIn token amountOut = credit held token (amountOut.toNat - amountIn.toNat) := by
  funext t
  simp only [exchanged, credit, debit]
  split
  next hToken =>
    subst hToken
    omega
  · rfl

/-- A closed route that gives back more than it takes, and the profit asked for on top, goes
through in both funding modes and leaves the contract with the difference. `funded` are
books that can pay the first hop: the contract's own, or those a loan adds to. -/
theorem executeArb_takes (hFunds : Funds market contract view ext) (hManager : POOL_MANAGER ≠ contract)
    (hQuiet : b.Quiet) (hClosed : ClosedCycle market.tokens keys anchor hops) (hSome : hops ≠ [])
    {funded : Books M} (hFunded : funded = { b with held := credit b.held anchor amountIn.toNat })
    {d : DealChain.Deal U256 M (Address → Nat)} (hRoute : FilledRoute market contract keys funded hops amountIn d)
    (hProfit : amountIn.toNat + minProfit.toNat ≤ d.amount.toNat) (hRoom : b.held anchor + d.amount.toNat < 2 ^ 256)
    (useFlashloan : Bool) (hOwn : useFlashloan = false → amountIn.toNat ≤ b.held anchor) {sender : Address}
    (hSender : w.executors sender = true) :
    ∃ w', Takes view w b (executeArb contract ext sender hops keys anchor amountIn minProfit useFlashloan) () w'
      (b.earned anchor (d.amount.toNat - amountIn.toNat) d.venues) := by
  have hGain : amountIn.toNat ≤ d.amount.toNat := by omega
  have hOnly : Takes view w b (onlyExecutor sender : Exec E Unit) () w b := by
    refine Takes.getWorld fun w' hStorage => Takes.of_reads (require_reads ?_)
    rw [hStorage]
    exact hSender
  cases useFlashloan with
  | false =>
    have hHeld := hOwn rfl
    obtain ⟨funds, hHere⟩ := hRoute.refund hClosed hHeld
    rw [hFunded] at hHere
    obtain ⟨hEnd, -⟩ := hHere.funds_eq hClosed hSome
    rw [exchanged_back hHeld hGain] at hEnd
    dsimp only at hEnd
    have hAfter : funds anchor = b.held anchor + (d.amount.toNat - amountIn.toNat) := by rw [hEnd, credit_self]
    have hProfitHere : b.held anchor + minProfit.toNat ≤ funds anchor := by omega
    obtain ⟨w', hGuarded⟩ := guardedHops_takes (w := w) hFunds.serves hManager hQuiet hHere anchor (by omega)
      (by dsimp only; omega) hProfitHere
    refine ⟨w', hOnly.bind ?_⟩
    rw [Books.earned, ← hEnd]
    exact hGuarded
  | true =>
    obtain ⟨inner, hInner, hLoan⟩ := hFunds.lends
    obtain ⟨hEnd, hPayable⟩ := hRoute.funds_eq hClosed hSome
    rw [exchanged_back hPayable hGain, hFunded] at hEnd
    dsimp only at hEnd
    have hStart : funded.held anchor = b.held anchor + amountIn.toNat := by rw [hFunded]; exact credit_self _ _ _
    have hAfter : d.funds anchor = b.held anchor + d.amount.toNat := by
      rw [hEnd, credit_self, credit_self]
      omega
    have hLoaned : funded.Quiet := by
      rw [hFunded]
      exact ⟨hQuiet.locked, hQuiet.even, hQuiet.settled.synced, hQuiet.settled.received⟩
    have hProfitHere : funded.held anchor + minProfit.toNat ≤ d.funds anchor := by omega
    obtain ⟨w', hGuarded⟩ := guardedHops_takes (w := { w with inFlight := true }) hInner hManager hLoaned hRoute anchor
      (by omega) (by omega) hProfitHere
    have hCallback : Takes view { w with inFlight := true } funded
        (onMorphoFlashLoan contract inner MORPHO amountIn (some ⟨hops, keys, anchor, minProfit⟩)) () w'
        (funded.dealt d) := by
      refine Takes.require (decide_eq_true rfl) (Takes.getWorld fun v hStorage => Takes.require ?_ hGuarded)
      rw [hStorage]
    rw [hFunded] at hCallback
    have hRepaid := hLoan _ b anchor amountIn _ _ _ hCallback (by
      change amountIn.toNat ≤ d.funds anchor
      omega)
    refine ⟨{ w' with inFlight := false }, hOnly.bind ?_⟩
    refine Takes.bind (Takes.setWorld fun v hStored => ?_) (hRepaid.bind ?_)
    · rw [hStored]
      rfl
    · have hSettled : debit (d.funds) anchor amountIn.toNat = credit b.held anchor (d.amount.toNat - amountIn.toNat) := by
        rw [hEnd]
        funext t
        simp only [debit, credit]
        split <;> omega
      rw [Books.earned, ← hSettled]
      refine Takes.setWorld fun v hStored => ?_
      rw [hStored]
      rfl

end Runs

section Venues

variable {M : Type} (market : Market M) (contract : Address)

/-- Tokens that say what the contract holds of them, with the venues. -/
noncomputable def holdingCalls : Handler (Books M)
  | .balanceOf token owner => do
    require (owner = contract) .foreign
    let b ← getBooks
    return [BitVec.ofNat 256 (b.held token)]
  | request => venueCalls market contract request

/-- And a lender that lends once. -/
noncomputable def lendingCalls : Handler (Books M)
  | .flashLoan token assets data => do
    let b ← getBooks
    setBooks { b with held := credit b.held token assets.toNat }
    onMorphoFlashLoan contract (holdingCalls market contract) MORPHO assets (some data)
    let back ← getBooks
    require (assets.toNat ≤ back.held token) .foreign
    setBooks { back with held := debit back.held token assets.toNat }
    return []
  | request => holdingCalls market contract request

variable {market contract}

theorem holdingCalls_serves : Serves market contract id (holdingCalls market contract) where
  trades := {
    follows := by
      intro w b request reply b' hAnswer
      cases request with
      | balanceOf token owner => cases hAnswer
      | _ => exact venueCalls_follows w b _ reply b' hAnswer
    callsBack := venueCalls_callsBack
    unlocks := venueCalls_unlocks }
  holdings := fun _ _ _ _ => Takes.require (decide_eq_true rfl) (Takes.getBooks (Takes.pure _))

theorem lendingCalls_funds : Funds market contract id (lendingCalls market contract) where
  serves := {
    trades := {
      follows := by
        intro w b request reply b' hAnswer
        cases request with
        | flashLoan token assets data => cases hAnswer
        | _ => exact holdingCalls_serves.trades.follows w b _ reply b' hAnswer
      callsBack := venueCalls_callsBack
      unlocks := venueCalls_unlocks }
    holdings := (@holdingCalls_serves M market contract).holdings }
  lends := by
    refine ⟨holdingCalls market contract, holdingCalls_serves, ?_⟩
    intro w b token assets data w' b' hCallback hRepaid
    refine Takes.getBooks ((setBooks_takes b _).bind (hCallback.bind (Takes.getBooks ?_)))
    exact Takes.require (decide_eq_true hRepaid) ((setBooks_takes b' _).bind (Takes.pure []))

end Venues

end Robinarb.ArbExecutor
