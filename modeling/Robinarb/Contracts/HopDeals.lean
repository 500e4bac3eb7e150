import Robinarb.Contracts.PairOutput
import Robinarb.Contracts.Settlement

/-! # One hop, or one segment

What each swap function of the contract does to the books: it deals with its venue, the
input goes out of the contract's balance and the output comes in.
-/

namespace Robinarb.ArbExecutor

open Fallible

variable {E M : Type} {market : Market M} {self : Address} {view : E → Books M} {ext : Handler E}
  {w : World} {b : Books M} {keys : List V4Key}

/-- A pool contract that is a party of its own, with two ERC20 tokens. -/
structure Market.Apart (market : Market M) (contract pool : Address) : Prop where
  contract : pool ≠ contract
  poolManager : pool ≠ POOL_MANAGER
  token0 : (market.tokens pool).1 ≠ zeroAddress
  token1 : (market.tokens pool).2 ≠ zeroAddress

section Pools

variable {h : Hop} {amountIn out : U256} {m : M}

theorem Market.Apart.input (hApart : market.Apart self h.pool) :
    (directed h.zeroForOne (market.tokens h.pool)).1 ≠ zeroAddress := by
  cases h.zeroForOne with
  | true => exact hApart.token0
  | false => exact hApart.token1

theorem token0_takes (hFollows : Follows market self view ext) (pool : Address) :
    Takes view w b (token0 ext pool) (market.tokens pool).1 w b :=
  (hFollows w b (.token0 pool) _ _ rfl).bind (Takes.of_reads (decodeAddress_reads _))

theorem token1_takes (hFollows : Follows market self view ext) (pool : Address) :
    Takes view w b (token1 ext pool) (market.tokens pool).2 w b :=
  (hFollows w b (.token1 pool) _ _ rfl).bind (Takes.of_reads (decodeAddress_reads _))

theorem pay_takes (hFollows : Follows market self view ext) {token pool : Address} (hToken : token ≠ zeroAddress)
    (hOther : pool ≠ self) (hManager : pool ≠ POOL_MANAGER) (hHeld : amountIn.toNat ≤ b.held token) :
    Takes view w b (transfer ext token pool amountIn) () w
      { b with
        held := debit b.held token amountIn.toNat
        venues := market.paid b.venues token pool amountIn } := by
  apply transfer_takes hFollows
  have hAllowed : ¬ (token = zeroAddress ∨ pool = self ∨ b.held token < amountIn.toNat) := by
    rintro (hZero | hOwn | hShort)
    · exact hToken hZero
    · exact hOther hOwn
    · exact Nat.not_lt.mpr hHeld hShort
  unfold Books.answer
  dsimp only
  rw [if_neg hAllowed, if_neg hManager]

theorem pair_takes (hFollows : Follows market self view ext) (hApart : market.Apart self h.pool)
    (hHeld : amountIn.toNat ≤ b.held (directed h.zeroForOne (market.tokens h.pool)).1)
    (hDeal : pairDeal market b.venues h amountIn out = some (out, m)) :
    Takes view w b (do
      transfer ext (directed h.zeroForOne (market.tokens h.pool)).1 h.pool amountIn
      let (a0, a1) := if h.zeroForOne then (0#256, out) else (out, 0#256)
      let _ ← ext (.pairSwap h.pool a0 a1 self)
      return out) out w
      { b with
        held := exchanged b.held (directed h.zeroForOne (market.tokens h.pool)).1 amountIn
          (directed h.zeroForOne (market.tokens h.pool)).2 out
        venues := m } := by
  refine (pay_takes hFollows hApart.input hApart.contract hApart.poolManager hHeld).bind ?_
  obtain ⟨m', hSwap, hSame⟩ := Option.map_eq_some_iff.mp hDeal
  cases hSame
  have hAnswer : ∀ a0 a1, (a0, a1) = directed h.zeroForOne (0#256, out) →
      Books.answer market self
        { b with
          held := debit b.held (directed h.zeroForOne (market.tokens h.pool)).1 amountIn.toNat
          venues := market.paid b.venues (directed h.zeroForOne (market.tokens h.pool)).1 h.pool amountIn }
        (.pairSwap h.pool a0 a1 self) =
          some ([], { b with
            held := credit (credit (debit b.held (directed h.zeroForOne (market.tokens h.pool)).1 amountIn.toNat)
              (market.tokens h.pool).1 a0.toNat) (market.tokens h.pool).2 a1.toNat
            venues := m }) := by
    intro a0 a1 hAsked
    rw [← hAsked] at hSwap
    unfold Books.answer
    dsimp only at hSwap ⊢
    rw [if_pos rfl, hSwap]
    rfl
  unfold exchanged
  cases hDir : h.zeroForOne with
  | true =>
    rw [hDir] at hAnswer
    have hGives := hFollows w _ _ _ _ (hAnswer 0#256 out rfl)
    rw [BitVec.toNat_zero, credit_zero] at hGives
    exact hGives.bind (Takes.pure out)
  | false =>
    rw [hDir] at hAnswer
    have hGives := hFollows w _ _ _ _ (hAnswer out 0#256 rfl)
    rw [BitVec.toNat_zero, credit_zero] at hGives
    exact hGives.bind (Takes.pure out)

theorem _swapV2_takes (hFollows : Follows market self view ext) (hApart : market.Apart self h.pool)
    (hKind : h.kind = 0#8) (hAmount : amountIn.toNat < 2 ^ 127)
    (hHeld : amountIn.toNat ≤ b.held (directed h.zeroForOne (market.tokens h.pool)).1)
    (hFilled : filledDeal market keys b.venues h amountIn = some (out, m)) :
    Takes view w b (_swapV2 self ext h amountIn) out w
      { b with
        held := exchanged b.held (directed h.zeroForOne (market.tokens h.pool)).1 amountIn
          (directed h.zeroForOne (market.tokens h.pool)).2 out
        venues := m } := by
  obtain ⟨hDeal, hPositive, -⟩ := filledDeal_ok hFilled
  unfold hopDeal at hDeal
  dsimp only at hDeal
  rw [if_pos hKind] at hDeal
  have hOut : out = v2Out (if h.zeroForOne then ((market.reserves b.venues h.pool).1,
      (market.reserves b.venues h.pool).2.1) else ((market.reserves b.venues h.pool).2.1,
      (market.reserves b.venues h.pool).1)) h.feeBps amountIn := by
    obtain ⟨m', -, hSame⟩ := Option.map_eq_some_iff.mp hDeal
    exact (Prod.ext_iff.mp hSame).1.symm
  rw [← hOut] at hDeal
  obtain ⟨hFee, hDivisor⟩ := computable_of_output (hOut ▸ hPositive)
  have hWide : amountIn.toNat < 2 ^ 128 := by omega
  have hPair := pair_takes (w := w) hFollows hApart hHeld hDeal
  have hReserves := hFollows w b (.getReserves h.pool) _ _ rfl
  have hWord : ∀ r : BitVec 112, (r.setWidth 256 : U256).toNat < 2 ^ 112 := by
    intro r
    rw [reserve_toNat]
    exact r.isLt
  have hTime : ∀ t : U32, (t.setWidth 256 : U256).toNat < 2 ^ 32 := by
    intro t
    rw [BitVec.toNat_setWidth_of_le (by decide)]
    exact t.isLt
  refine hReserves.bind ?_
  refine Takes.reads (decodeWord_reads rfl (hWord _)) ?_
  refine Takes.reads (decodeWord_reads rfl (hWord _)) ?_
  refine Takes.reads (decodeWord_reads rfl (hTime _)) ?_
  cases hDir : h.zeroForOne with
  | true =>
    rw [hDir] at hOut hPair hDivisor
    rw [hOut] at hPair ⊢
    refine (token0_takes hFollows h.pool).bind ?_
    exact Takes.of_eq (v2_computes hFee hWide hDivisor _) hPair
  | false =>
    rw [hDir] at hOut hPair hDivisor
    rw [hOut] at hPair ⊢
    refine (token1_takes hFollows h.pool).bind ?_
    exact Takes.of_eq (v2_computes hFee hWide hDivisor _) hPair

theorem _swapAero_takes (hFollows : Follows market self view ext) (hApart : market.Apart self h.pool)
    (hKind : h.kind = 1#8)
    (hHeld : amountIn.toNat ≤ b.held (directed h.zeroForOne (market.tokens h.pool)).1)
    (hFilled : filledDeal market keys b.venues h amountIn = some (out, m)) :
    Takes view w b (_swapAero self ext h amountIn) out w
      { b with
        held := exchanged b.held (directed h.zeroForOne (market.tokens h.pool)).1 amountIn
          (directed h.zeroForOne (market.tokens h.pool)).2 out
        venues := m } := by
  obtain ⟨hDeal, -, -⟩ := filledDeal_ok hFilled
  unfold hopDeal at hDeal
  dsimp only at hDeal
  rw [if_neg (by rw [hKind]; decide), if_pos hKind] at hDeal
  have hOut : out = market.amountOut b.venues h.pool amountIn (directed h.zeroForOne (market.tokens h.pool)).1 := by
    obtain ⟨m', -, hSame⟩ := Option.map_eq_some_iff.mp hDeal
    exact (Prod.ext_iff.mp hSame).1.symm
  rw [← hOut] at hDeal
  have hPair := pair_takes (w := w) hFollows hApart hHeld hDeal
  have hQuote := hFollows w b (.getAmountOut h.pool amountIn (directed h.zeroForOne (market.tokens h.pool)).1) _ _ rfl
  rw [← hOut] at hQuote
  unfold _swapAero
  cases hDir : h.zeroForOne with
  | true =>
    rw [hDir] at hQuote hPair
    refine (token0_takes hFollows h.pool).bind (hQuote.bind ?_)
    exact Takes.reads (decodeWord_reads rfl (BitVec.isLt _)) hPair
  | false =>
    rw [hDir] at hQuote hPair
    refine (token1_takes hFollows h.pool).bind (hQuote.bind ?_)
    exact Takes.reads (decodeWord_reads rfl (BitVec.isLt _)) hPair

theorem poolDeltas_true (a o : U256) : poolDeltas true a o = (a, -o) := rfl

theorem poolDeltas_false (a o : U256) : poolDeltas false a o = (-o, a) := rfl

theorem swapCallback_takes (hFollows : Follows market self view ext) {pool : Address}
    (hApart : market.Apart self pool) (hExpected : w.expectedCaller = pool) (zeroForOne : Bool)
    (hAmount : amountIn.toNat < 2 ^ 127) (hOut : out.toNat < 2 ^ 127)
    (hHeld : amountIn.toNat ≤ b.held (directed zeroForOne (market.tokens pool)).1) :
    Takes view w b
      (swapCallback ext pool (poolDeltas zeroForOne amountIn out).1 (poolDeltas zeroForOne amountIn out).2) () w
      { b with
        held := debit b.held (directed zeroForOne (market.tokens pool)).1 amountIn.toNat
        venues := if amountIn = 0#256 then b.venues
          else market.paid b.venues (directed zeroForOne (market.tokens pool)).1 pool amountIn } := by
  have hGiven : ¬ 0 < (-out).toInt := by
    rw [toInt_neg_small hOut]
    omega
  refine Takes.getWorld fun w' hSame => Takes.require ?_ ?_
  · rw [hSame]
    exact decide_eq_true hExpected.symm
  cases hZero : decide (amountIn = 0#256) with
  | true =>
    have hNothing : amountIn = 0#256 := of_decide_eq_true hZero
    subst hNothing
    have hNone : ¬ 0 < (0#256).toInt := by decide
    rw [if_pos rfl, BitVec.toNat_zero, debit_zero]
    cases zeroForOne with
    | true =>
      rw [poolDeltas_true, if_neg hNone, if_neg hGiven]
      exact Takes.pure ()
    | false =>
      rw [poolDeltas_false, if_neg hGiven, if_neg hNone]
      exact Takes.pure ()
  | false =>
    have hSome : amountIn ≠ 0#256 := of_decide_eq_false hZero
    have hPositive : 0 < amountIn.toInt := by
      rw [toInt_small hAmount]
      have hNat : amountIn.toNat ≠ 0 := fun hNat => hSome (BitVec.eq_of_toNat_eq hNat)
      omega
    rw [if_neg hSome]
    cases zeroForOne with
    | true =>
      rw [poolDeltas_true, if_pos hPositive]
      exact (token0_takes hFollows pool).bind
        (pay_takes hFollows hApart.token0 hApart.contract hApart.poolManager hHeld)
    | false =>
      rw [poolDeltas_false, if_neg hGiven, if_pos hPositive]
      exact (token1_takes hFollows pool).bind
        (pay_takes hFollows hApart.token1 hApart.contract hApart.poolManager hHeld)

theorem _swapV3_takes (hTrades : Trades market self view ext) (hApart : market.Apart self h.pool)
    (hKind : h.kind = 2#8 ∨ h.kind = 4#8) (hAmount : amountIn.toNat < 2 ^ 127)
    (hHeld : amountIn.toNat ≤ b.held (directed h.zeroForOne (market.tokens h.pool)).1)
    (hFilled : filledDeal market keys b.venues h amountIn = some (out, m)) :
    Takes view w b (_swapV3 self ext h amountIn) out { w with expectedCaller := zeroAddress }
      { b with
        held := exchanged b.held (directed h.zeroForOne (market.tokens h.pool)).1 amountIn
          (directed h.zeroForOne (market.tokens h.pool)).2 out
        venues := m } := by
  obtain ⟨hDeal, -, hSmall⟩ := filledDeal_ok hFilled
  unfold hopDeal at hDeal
  dsimp only at hDeal
  rw [if_neg (by rcases hKind with hKind | hKind <;> rw [hKind] <;> decide),
    if_neg (by rcases hKind with hKind | hKind <;> rw [hKind] <;> decide), if_pos hKind] at hDeal
  obtain ⟨⟨out', m₁⟩, hSwap, hSame⟩ := Option.map_eq_some_iff.mp hDeal
  cases hSame
  dsimp only at hSmall
  obtain ⟨inner, hInner, hSwaps⟩ := hTrades.callsBack
  have hGivenHeld : amountIn.toNat ≤ credit b.held (directed h.zeroForOne (market.tokens h.pool)).2 out'.toNat
      (directed h.zeroForOne (market.tokens h.pool)).1 := by
    unfold credit
    split
    · exact Nat.le_add_right_of_le hHeld
    · exact hHeld
  have hCallback := swapCallback_takes (w := { w with expectedCaller := h.pool })
    (b := { b with
      held := credit b.held (directed h.zeroForOne (market.tokens h.pool)).2 out'.toNat
      venues := m₁ }) hInner hApart rfl h.zeroForOne hAmount hSmall hGivenHeld
  have hPaid := debit_self_add hGivenHeld
  have hPool := hSwaps _ b h.pool h.zeroForOne amountIn out' m₁ _ hSwap hCallback hPaid
  dsimp only at hPool
  rw [debit_credit_comm hHeld] at hPool
  refine Takes.bind (Takes.setWorld fun v hStored => ?_) ?_
  · rw [hStored]
    rfl
  refine hPool.bind ?_
  refine Takes.reads (decodeWord_reads rfl (BitVec.isLt _)) ?_
  refine Takes.reads (decodeWord_reads rfl (BitVec.isLt _)) ?_
  refine Takes.bind (Takes.setWorld fun v hStored => ?_) ?_
  · rw [hStored]
    rfl
  have hMin : -out' ≠ BitVec.intMin 256 := by
    intro hMin
    have hBack : -(-out') = -BitVec.intMin 256 := congrArg (- ·) hMin
    rw [BitVec.neg_neg, BitVec.neg_intMin] at hBack
    exact ne_intMin_small hSmall hBack
  have hNeg := checkedNeg_reads (E := E) hMin
  rw [BitVec.neg_neg] at hNeg
  cases h.zeroForOne with
  | true => exact Takes.of_reads hNeg
  | false => exact Takes.of_reads hNeg

end Pools

section Segments

/-- Between two unlocks nothing is open with the PoolManager. -/
structure Books.Quiet (b : Books M) : Prop where
  locked : b.unlocked = false
  even : ∀ c, b.delta c = 0
  settled : b.Settled

theorem mapM_index_reads {segment : List Hop} {segKeys : List V4Key}
    (hKeys : segment.mapM (fun hop => keys[hop.feeBps.toNat]?) = some segKeys) :
    Reads (segment.mapM fun hop => (index keys hop.feeBps.toNat : Exec E V4Key)) fun _ => segKeys := by
  induction segment generalizing segKeys with
  | nil =>
    cases hKeys
    exact fun st => rfl
  | cons hop rest ih =>
    rw [List.mapM_cons] at hKeys ⊢
    obtain ⟨key, hKey, hAfter⟩ := Option.bind_eq_some_iff.mp hKeys
    obtain ⟨others, hOthers, hReturn⟩ := Option.bind_eq_some_iff.mp hAfter
    cases hReturn
    intro st
    rw [(index_reads hKey).bind, (ih hOthers).bind]
    rfl

theorem tokens_of_v4 {declared : Address → Address × Address} {h : Hop} (hV4 : ¬ h.InPool) :
    h.tokens declared keys = (asToken (h.currencies declared keys).1, asToken (h.currencies declared keys).2) := by
  unfold Hop.tokens
  exact if_neg hV4

theorem segmentKeys_reads {hops segment : List Hop} {i j : Nat} {segKeys : List V4Key}
    (hSegment : (hops.drop i).take (j - i) = segment)
    (hKeys : segment.mapM (fun hop => keys[hop.feeBps.toNat]?) = some segKeys) :
    Reads (segmentKeys hops keys i j : Exec E _) fun _ => (segKeys, segment.map Hop.zeroForOne) := by
  intro st
  unfold segmentKeys
  rw [hSegment]
  exact (mapM_index_reads hKeys).bind _ st

/-- The callback of a segment, on the balances of the route's own tokens. -/
theorem segmentCallback_takes (hFollows : Follows market self view ext) (hSelf : POOL_MANAGER ≠ self)
    {rest : List Hop} {h : Hop} {segKeys : List V4Key} {amountIn : U256}
    {d : DealChain.Deal U256 M (Address → Nat)}
    (hKeys : (h :: rest).mapM (fun hop => keys[hop.feeBps.toNat]?) = some segKeys)
    (hV4 : ∀ h' ∈ h :: rest, ¬ h'.InPool)
    (hCurrencies : DealChain.Joins (Hop.currencies market.tokens keys) (h :: rest))
    (hTokens : DealChain.Joins (Hop.tokens market.tokens keys) (h :: rest)) (hOpen : w.inV4 = true)
    (hQuiet : b.Quiet) (hAmount : amountIn.toNat < 2 ^ 127)
    (hHeld : amountIn.toNat ≤ b.held (h.tokens market.tokens keys).1)
    (hRun : DealChain.run (filledDeal market keys) (Hop.tokens market.tokens keys) exchanged
      ⟨amountIn, b.venues, b.held⟩ (h :: rest) = some d) :
    Takes view w { b with unlocked := true }
      (unlockCallback self ext POOL_MANAGER (some ⟨segKeys, (h :: rest).map Hop.zeroForOne, amountIn⟩))
      [d.amount] w { b with unlocked := true, held := d.funds, venues := d.venues } := by
  have hFirst : ¬ h.InPool := hV4 h List.mem_cons_self
  have hLast := hV4 _ (List.getLast_mem (List.cons_ne_nil h rest))
  obtain ⟨delta, hDeltas⟩ : ∃ delta, DealChain.run (filledDeal market keys) (Hop.currencies market.tokens keys) incurred
      ⟨amountIn, b.venues, b.delta⟩ (h :: rest) = some ⟨d.amount, d.venues, delta⟩ :=
    DealChain.run_watched hRun b.delta
  have hFunds := DealChain.run_funds exchanged_telescopes hTokens hRun
  rw [tokens_of_v4 hFirst] at hHeld
  rw [tokens_of_v4 hFirst, tokens_of_v4 hLast] at hFunds
  have hSettled : Books.Settled { b with unlocked := true } := ⟨hQuiet.settled.synced, hQuiet.settled.received⟩
  have hCallback := unlockCallback_takes hFollows hSelf hKeys hV4 hCurrencies hOpen rfl hSettled hAmount hHeld
    hDeltas
  dsimp only at hFunds hCallback
  rw [← hFunds] at hCallback
  exact hCallback

theorem _runV4Segment_takes (hTrades : Trades market self view ext) (hSelf : POOL_MANAGER ≠ self)
    {hops rest : List Hop} {h : Hop} {i j : Nat} {segKeys : List V4Key} {amountIn : U256}
    {d : DealChain.Deal U256 M (Address → Nat)} (hSegment : (hops.drop i).take (j - i) = h :: rest)
    (hKeys : (h :: rest).mapM (fun hop => keys[hop.feeBps.toNat]?) = some segKeys)
    (hV4 : ∀ h' ∈ h :: rest, ¬ h'.InPool)
    (hCurrencies : DealChain.Joins (Hop.currencies market.tokens keys) (h :: rest))
    (hTokens : DealChain.Joins (Hop.tokens market.tokens keys) (h :: rest)) (hQuiet : b.Quiet)
    (hAmount : amountIn.toNat < 2 ^ 127) (hHeld : amountIn.toNat ≤ b.held (h.tokens market.tokens keys).1)
    (hRun : DealChain.run (filledDeal market keys) (Hop.tokens market.tokens keys) exchanged
      ⟨amountIn, b.venues, b.held⟩ (h :: rest) = some d) :
    Takes view w b (_runV4Segment ext hops keys i j amountIn) d.amount { w with inV4 := false }
      { b with held := d.funds, venues := d.venues } := by
  obtain ⟨inner, hInner, hUnlocks⟩ := hTrades.unlocks
  have hCallback := segmentCallback_takes (w := { w with inV4 := true }) hInner hSelf hKeys hV4 hCurrencies hTokens
    rfl hQuiet hAmount hHeld hRun
  have hUnlock := hUnlocks _ b _ _ _ hQuiet.locked hQuiet.even hCallback hQuiet.even
  dsimp only at hUnlock
  rw [← hQuiet.locked] at hUnlock
  refine Takes.reads (segmentKeys_reads hSegment hKeys) ?_
  refine Takes.bind (Takes.setWorld fun v hStored => ?_) ?_
  · rw [hStored]
    rfl
  refine hUnlock.bind ?_
  refine Takes.bind (Takes.setWorld fun v hStored => ?_) ?_
  · rw [hStored]
    rfl
  exact Takes.of_reads (decodeWord_reads rfl (BitVec.isLt _))

end Segments

end Robinarb.ArbExecutor
