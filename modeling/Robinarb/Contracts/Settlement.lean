import Robinarb.Contracts.Market

/-! # Settlement of a segment

The swaps of an unlock leave two open deltas, the input of the first and the output of
the last. The callback pays the one and takes the other, native ETH through WETH.
-/

namespace Robinarb.ArbExecutor

open Fallible

section Rules

variable {E M α β : Type} {view : E → Books M} {w w₁ w₂ : World} {b b₁ b₂ : Books M}

theorem Takes.bind {x : Exec E α} {f : α → Exec E β} {a : α} {c : β} (hFirst : Takes view w b x a w₁ b₁)
    (hNext : Takes view w₁ b₁ (f a) c w₂ b₂) : Takes view w b (x >>= f) c w₂ b₂ := by
  intro st hStorage hView
  obtain ⟨st₁, hx, hStorage₁, hView₁⟩ := hFirst st hStorage hView
  obtain ⟨st₂, hf, hEnd⟩ := hNext st₁ hStorage₁ hView₁
  exact ⟨st₂, bind_eq_ok.mpr ⟨a, st₁, hx, hf⟩, hEnd⟩

theorem Takes.pure (a : α) : Takes view w b (pure a : Exec E α) a w b :=
  fun st hStorage hView => ⟨st, rfl, hStorage, hView⟩

theorem Takes.reads {x : Exec E α} {f : α → Exec E β} {a : α} {c : β} (hRead : Reads x fun _ => a)
    (hNext : Takes view w b (f a) c w₁ b₁) : Takes view w b (x >>= f) c w₁ b₁ := by
  intro st hStorage hView
  obtain ⟨st₁, hf, hEnd⟩ := hNext st hStorage hView
  exact ⟨st₁, (hRead.bind f st).trans hf, hEnd⟩

theorem Takes.of_eq {x y : Exec E α} {a : α} (hSame : x = y) (hTakes : Takes view w b y a w₁ b₁) :
    Takes view w b x a w₁ b₁ := hSame ▸ hTakes

theorem Takes.of_reads {x : Exec E α} {a : α} (hRead : Reads x fun _ => a) : Takes view w b x a w b :=
  fun st hStorage hView => ⟨st, hRead st, hStorage, hView⟩

theorem Takes.getWorld {f : World → Exec E β} {c : β}
    (hNext : ∀ w', SameStorage w w' → Takes view w b (f w') c w₁ b₁) :
    Takes view w b (getWorld >>= f) c w₁ b₁ := by
  intro st hStorage hView
  obtain ⟨st₁, hf, hEnd⟩ := hNext st.world hStorage st hStorage hView
  exact ⟨st₁, (Reads.bind (fun _ => rfl) f st).trans hf, hEnd⟩

theorem Takes.setWorld {g : World → World} (hStored : ∀ v, SameStorage w v → SameStorage (g w) (g v)) :
    Takes view w b (setWorld g : Exec E Unit) () (g w) b :=
  fun st hStorage hView => ⟨_, rfl, hStored st.world hStorage, hView⟩

theorem Takes.require {condition : Bool} {reason : Revert} {f : Unit → Exec E β} {c : β}
    (hHolds : condition = true) (hNext : Takes view w b (f ()) c w₁ b₁) :
    Takes view w b (require condition reason >>= f) c w₁ b₁ := by
  rw [hHolds]
  exact hNext

end Rules

section Words

variable {amount out : U256}

theorem toInt_small (hSmall : amount.toNat < 2 ^ 127) : amount.toInt = amount.toNat :=
  BitVec.toInt_eq_toNat_of_lt (by omega)

theorem ne_intMin_small (hSmall : amount.toNat < 2 ^ 127) : amount ≠ BitVec.intMin 256 := by
  rintro rfl
  exact absurd hSmall (by decide)

theorem toInt_neg_small (hSmall : amount.toNat < 2 ^ 127) : (-amount).toInt = -(amount.toNat : Int) := by
  rw [BitVec.toInt_neg_of_ne_intMin (ne_intMin_small hSmall), toInt_small hSmall]

theorem packDelta_due (zeroForOne : Bool) (amount out : U256) :
    (if zeroForOne then (packDelta zeroForOne amount out).setWidth 128
      else (packDelta zeroForOne amount out >>> 128).setWidth 128 : I128) = out.setWidth 128 := by
  cases zeroForOne with
  | true =>
    rw [if_pos rfl]
    exact BitVec.setWidth_append_eq_right
  | false =>
    apply BitVec.eq_of_getLsbD_eq
    intro i hi
    have hHigh : ¬ 128 + i < 128 := by omega
    simp only [Bool.false_eq_true, if_false, packDelta, BitVec.getLsbD_setWidth, BitVec.getLsbD_ushiftRight,
      BitVec.getLsbD_append, hHigh, if_false, Nat.add_sub_cancel_left, hi, decide_true, Bool.true_and]

theorem credit_roundtrip (hSmall : out.toNat < 2 ^ 127) : (out.setWidth 128 : I128).setWidth 256 = out := by
  apply BitVec.eq_of_toNat_eq
  rw [BitVec.toNat_setWidth, BitVec.toNat_setWidth, Nat.mod_eq_of_lt (by omega), Nat.mod_eq_of_lt (by omega)]

theorem credit_positive (hPositive : 0 < out.toNat) (hSmall : out.toNat < 2 ^ 127) :
    0 < (out.setWidth 128 : I128).toInt := by
  have hWord : (out.setWidth 128 : I128).toNat = out.toNat := by
    rw [BitVec.toNat_setWidth]
    exact Nat.mod_eq_of_lt (by omega)
  rw [BitVec.toInt_eq_toNat_of_lt (by omega), hWord]
  exact Int.natCast_pos.mpr hPositive

end Words

section Swaps

variable {E M : Type} {market : Market M} {self : Address} {view : E → Books M} {ext : Handler E}
  {w : World} {b : Books M}

theorem segmentSwap_takes (hFollows : Follows market self view ext) (hUnlocked : b.unlocked = true)
    {key : V4Key} {dir : Bool} {amount out : U256} {m : M} (hAmount : amount.toNat < 2 ^ 127)
    (hSwap : market.v4Swap b.venues key dir amount = some (out, m)) (hPositive : 0 < out.toNat)
    (hOut : out.toNat < 2 ^ 127) :
    Takes view w b (segmentSwap ext key dir amount) out w
      { b with
        delta := incurred b.delta (key.currencies dir).1 amount (key.currencies dir).2 out
        venues := m } := by
  have hSpecified : (-amount).toInt = -(amount.toNat : Int) := toInt_neg_small hAmount
  have hAnswer : b.answer market self (.managerSwap key zeroAddress dir (-amount) (priceLimit dir)) =
      some ([packDelta dir amount out],
        { b with
          delta := incurred b.delta (key.currencies dir).1 amount (key.currencies dir).2 out
          venues := m }) := by
    have hRange : b.unlocked = true ∧ zeroAddress = zeroAddress ∧ priceLimit dir = priceLimit dir ∧
        -(2 ^ 127) < (-amount).toInt ∧ (-amount).toInt ≤ 0 := by
      refine ⟨hUnlocked, rfl, rfl, ?_, ?_⟩
      · rw [hSpecified]
        omega
      · rw [hSpecified]
        omega
    unfold Books.answer
    dsimp only
    rw [if_pos hRange, BitVec.neg_neg, hSwap, hSpecified]
    dsimp only
    rw [if_pos hOut]
    rfl
  refine Takes.reads (checkedNeg_reads (ne_intMin_small hAmount)) ?_
  refine (hFollows w b _ _ _ hAnswer).bind ?_
  refine Takes.reads (decodeWord_reads rfl (BitVec.isLt _)) ?_
  dsimp only
  rw [packDelta_due]
  refine Takes.require (decide_eq_true (credit_positive hPositive hOut)) ?_
  rw [credit_roundtrip hOut]
  exact Takes.pure out

theorem filledDeal_ok {keys : List V4Key} {m m' : M} {h : Hop} {amountIn out : U256}
    (hFilled : filledDeal market keys m h amountIn = some (out, m')) :
    hopDeal market keys m h amountIn = some (out, m') ∧ 0 < out.toNat ∧ out.toNat < 2 ^ 127 := by
  obtain ⟨hDeal, hRange⟩ := Option.filter_eq_some_iff.mp hFilled
  exact ⟨hDeal, of_decide_eq_true hRange⟩

theorem hopDeal_v4 {keys : List V4Key} {key : V4Key} {h : Hop} (hV4 : ¬ h.InPool)
    (hKey : keys[h.feeBps.toNat]? = some key) (m : M) (amountIn : U256) :
    hopDeal market keys m h amountIn = market.v4Swap m key h.zeroForOne amountIn := by
  unfold Hop.InPool at hV4
  obtain ⟨hNotV2, hNotAero, hNotV3⟩ : h.kind ≠ 0#8 ∧ h.kind ≠ 1#8 ∧ ¬ (h.kind = 2#8 ∨ h.kind = 4#8) := by tauto
  unfold hopDeal
  dsimp only
  rw [if_neg hNotV2, if_neg hNotAero, if_neg hNotV3, hKey]

theorem currencies_of_key {declared : Address → Address × Address} {keys : List V4Key} {key : V4Key} {h : Hop}
    (hV4 : ¬ h.InPool) (hKey : keys[h.feeBps.toNat]? = some key) :
    h.currencies declared keys = key.currencies h.zeroForOne := by
  unfold Hop.currencies
  rw [if_neg hV4, hKey]

/-- The loop of the callback deals along its hops and leaves their deltas. -/
theorem segmentSwaps_takes (hFollows : Follows market self view ext) {keys segKeys : List V4Key}
    {dirs : List Bool} (all : List V4Key) {hops : List Hop} {k : Nat} {amount : U256}
    {d : DealChain.Deal U256 M (Address → Int)}
    (hKeys : hops.mapM (fun h => keys[h.feeBps.toNat]?) = some segKeys)
    (hDirs : dirs.drop k = hops.map Hop.zeroForOne) (hV4 : ∀ h ∈ hops, ¬ h.InPool)
    (hUnlocked : b.unlocked = true) (hAmount : amount.toNat < 2 ^ 127)
    (hRun : DealChain.run (filledDeal market keys) (Hop.currencies market.tokens keys) incurred
      ⟨amount, b.venues, b.delta⟩ hops = some d) :
    Takes view w b (segmentSwaps ext all dirs segKeys k amount) d.amount w
      { b with delta := d.funds, venues := d.venues } := by
  induction hops generalizing k amount b segKeys with
  | nil =>
    cases hKeys
    cases hRun
    exact Takes.pure amount
  | cons h rest ih =>
    rw [List.mapM_cons] at hKeys
    obtain ⟨key, hKey, hAfter⟩ := Option.bind_eq_some_iff.mp hKeys
    obtain ⟨restKeys, hRest, hReturn⟩ := Option.bind_eq_some_iff.mp hAfter
    cases hReturn
    obtain ⟨d₁, hDeal, hTail⟩ := DealChain.run_cons.mp hRun
    obtain ⟨hSwap, hFunds⟩ := DealChain.deal_eq_some.mp hDeal
    obtain ⟨hFill, hPositive, hOut⟩ := filledDeal_ok hSwap
    have hHere : ¬ h.InPool := hV4 h List.mem_cons_self
    rw [hopDeal_v4 hHere hKey] at hFill
    rw [currencies_of_key hHere hKey] at hFunds
    have hDir : dirs[k]? = some h.zeroForOne := by
      have hHead : (dirs.drop k)[0]? = some h.zeroForOne := by
        rw [hDirs]
        rfl
      rwa [List.getElem?_drop] at hHead
    have hLater : dirs.drop (k + 1) = rest.map Hop.zeroForOne := by
      rw [← List.tail_drop, hDirs]
      rfl
    refine Takes.reads (index_reads hDir) ?_
    refine (segmentSwap_takes hFollows hUnlocked hAmount hFill hPositive hOut).bind ?_
    rw [← hFunds]
    exact ih hRest hLater (fun h' hMem => hV4 h' (List.mem_cons_of_mem _ hMem)) hUnlocked hOut hTail

end Swaps

section Ends

variable {E M : Type} {market : Market M} {self : Address} {view : E → Books M} {ext : Handler E}
  {w : World} {b : Books M}

structure Books.Settled (b : Books M) : Prop where
  synced : b.synced = zeroAddress
  received : b.received = 0

theorem transfer_takes (hFollows : Follows market self view ext) {token recipient : Address} {amount : U256}
    {b' : Books M} (hAnswer : b.answer market self (.transfer token recipient amount) = some ([1#256], b')) :
    Takes view w b (transfer ext token recipient amount) () w b' := by
  refine (hFollows w b _ _ _ hAnswer).bind ?_
  exact Takes.reads (decodeWord_reads rfl (by decide)) (Takes.pure ())

theorem settleInput_takes (hFollows : Follows market self view ext) (hSelf : POOL_MANAGER ≠ self)
    (hUnlocked : b.unlocked = true) (hSettled : b.Settled) {inCur : Address} {amountIn : U256}
    (hHeld : amountIn.toNat ≤ b.held (asToken inCur)) :
    Takes view w b (settleInput ext inCur amountIn) () w
      { b with
        held := debit b.held (asToken inCur) amountIn.toNat
        delta := account b.delta inCur amountIn.toNat } := by
  obtain ⟨held, delta, unlocked, synced, received, venues⟩ := b
  obtain ⟨hSynced, hReceived⟩ := hSettled
  dsimp only at hUnlocked hSynced hReceived hHeld
  subst hUnlocked hSynced hReceived
  unfold settleInput asToken
  unfold asToken at hHeld
  split
  next hNative =>
    subst hNative
    rw [if_pos rfl] at hHeld
    have hWithdraw := hFollows w ⟨held, delta, true, zeroAddress, 0, venues⟩ (.wethWithdraw amountIn) _ _
      (if_neg (Nat.not_lt.mpr hHeld))
    have hCovered : amountIn.toNat ≤ credit (debit held WETH amountIn.toNat) zeroAddress amountIn.toNat zeroAddress := by
      rw [credit_self]
      exact Nat.le_add_left _ _
    have hSettle := hFollows w
      ⟨credit (debit held WETH amountIn.toNat) zeroAddress amountIn.toNat, delta, true, zeroAddress, 0, venues⟩
      (.settle amountIn) _ _ (if_neg (Nat.not_lt.mpr hCovered))
    rw [debit_credit] at hSettle
    refine hWithdraw.bind (hSettle.bind ?_)
    exact Takes.reads (decodeWord_reads rfl (BitVec.isLt _)) (Takes.pure ())
  next hErc20 =>
    rw [if_neg hErc20] at hHeld
    have hSync := hFollows w ⟨held, delta, true, zeroAddress, 0, venues⟩ (.sync inCur) _ _ rfl
    have hPay : Books.answer market self ⟨held, delta, true, inCur, 0, venues⟩
        (.transfer inCur POOL_MANAGER amountIn) =
          some ([1#256], ⟨debit held inCur amountIn.toNat, delta, true, inCur, amountIn.toNat, venues⟩) := by
      have hAllowed : ¬ (inCur = zeroAddress ∨ POOL_MANAGER = self ∨ held inCur < amountIn.toNat) := by
        rintro (hZero | hOwn | hShort)
        · exact hErc20 hZero
        · exact hSelf hOwn
        · exact Nat.not_lt.mpr hHeld hShort
      unfold Books.answer
      dsimp only
      rw [if_neg hAllowed, if_pos rfl, if_pos rfl, Nat.zero_add]
    have hSettle := hFollows w ⟨debit held inCur amountIn.toNat, delta, true, inCur, amountIn.toNat, venues⟩
      (.settle 0#256) _ _ (if_neg hErc20)
    refine hSync.bind ((transfer_takes hFollows hPay).bind (hSettle.bind ?_))
    exact Takes.reads (decodeWord_reads rfl (BitVec.isLt _)) (Takes.pure ())

theorem takeOutput_takes (hFollows : Follows market self view ext) (hUnlocked : b.unlocked = true)
    (outCur : Address) (amount : U256) :
    Takes view w b (takeOutput self ext outCur amount) () w
      { b with
        held := credit b.held (asToken outCur) amount.toNat
        delta := account b.delta outCur (-amount.toNat) } := by
  have hTake := fun currency => hFollows w b (.take currency self amount) _ _ (if_pos ⟨hUnlocked, rfl⟩)
  unfold takeOutput asToken
  split
  next hNative =>
    subst hNative
    have hCovered : amount.toNat ≤ credit b.held zeroAddress amount.toNat zeroAddress := by
      rw [credit_self]
      exact Nat.le_add_left _ _
    have hDeposit := hFollows w
      { b with
        held := credit b.held zeroAddress amount.toNat
        delta := account b.delta zeroAddress (-amount.toNat) }
      (.wethDeposit amount) _ _ (if_neg (Nat.not_lt.mpr hCovered))
    dsimp only at hDeposit
    rw [debit_credit] at hDeposit
    exact (hTake zeroAddress).bind (hDeposit.bind (Takes.pure ()))
  next hErc20 => exact (hTake outCur).bind (Takes.pure ())

/-- The input paid and the output taken close what the swaps left open. -/
theorem account_incurred (delta : Address → Int) (i o : Address) (a c : U256) :
    account (account (incurred delta i a o c) i a.toNat) o (-c.toNat) = delta := by
  funext t
  simp only [account, incurred]
  split <;> split <;> omega

theorem getElem?_getLast {α : Type} {x : α} {xs : List α} :
    (x :: xs)[(x :: xs).length - 1]? = some ((x :: xs).getLast (List.cons_ne_nil x xs)) := by
  rw [← List.getLast?_eq_getElem?, List.getLast?_eq_some_getLast]

/-- The callback deals along its hops, moves the contract's balances by the two ends, and
leaves every delta as it found it. -/
theorem unlockCallback_takes (hFollows : Follows market self view ext) (hSelf : POOL_MANAGER ≠ self)
    {keys segKeys : List V4Key} {h : Hop} {rest : List Hop} {amountIn : U256}
    {d : DealChain.Deal U256 M (Address → Int)}
    (hKeys : (h :: rest).mapM (fun h => keys[h.feeBps.toNat]?) = some segKeys)
    (hV4 : ∀ h' ∈ h :: rest, ¬ h'.InPool)
    (hJoins : DealChain.Joins (Hop.currencies market.tokens keys) (h :: rest)) (hOpen : w.inV4 = true)
    (hUnlocked : b.unlocked = true) (hSettled : b.Settled) (hAmount : amountIn.toNat < 2 ^ 127)
    (hHeld : amountIn.toNat ≤ b.held (asToken (h.currencies market.tokens keys).1))
    (hRun : DealChain.run (filledDeal market keys) (Hop.currencies market.tokens keys) incurred
      ⟨amountIn, b.venues, b.delta⟩ (h :: rest) = some d) :
    Takes view w b
      (unlockCallback self ext POOL_MANAGER (some ⟨segKeys, (h :: rest).map Hop.zeroForOne, amountIn⟩))
      [d.amount] w
      { b with
        held := exchanged b.held (asToken (h.currencies market.tokens keys).1) amountIn
          (asToken (((h :: rest).getLast (List.cons_ne_nil h rest)).currencies market.tokens keys).2) d.amount
        venues := d.venues } := by
  generalize hLast : (h :: rest).getLast (List.cons_ne_nil h rest) = last
  have hFirstV4 : ¬ h.InPool := hV4 h List.mem_cons_self
  have hLastV4 : ¬ last.InPool := hV4 last (hLast ▸ List.getLast_mem _)
  obtain ⟨firstKey, lastKey, hFirstKey, hFirstAt, hFirstDir, hLastKey, hLastAt, hLastDir⟩ :=
    segment_ends hKeys rfl (getElem?_getLast.trans (congrArg some hLast))
  have hIn : (if h.zeroForOne then firstKey.currency0 else firstKey.currency1) =
      (h.currencies market.tokens keys).1 := by
    rw [currencies_of_key hFirstV4 hFirstKey]
    cases h.zeroForOne <;> rfl
  have hOut : (if last.zeroForOne then lastKey.currency1 else lastKey.currency0) =
      (last.currencies market.tokens keys).2 := by
    rw [currencies_of_key hLastV4 hLastKey]
    cases last.zeroForOne <;> rfl
  have hFunds := DealChain.run_funds incurred_telescopes hJoins hRun
  rw [hLast] at hFunds
  refine Takes.require rfl (Takes.getWorld fun w' hSame => Takes.require ?_ ?_)
  · rw [hSame]
    exact hOpen
  refine (segmentSwaps_takes hFollows segKeys hKeys rfl hV4 hUnlocked hAmount hRun).bind ?_
  refine Takes.reads (index_reads hFirstAt) (Takes.reads (index_reads hFirstDir) ?_)
  dsimp only
  rw [hIn]
  refine Takes.bind (settleInput_takes hFollows hSelf ?_ ⟨?_, ?_⟩ ?_) ?_
  · exact hUnlocked
  · exact hSettled.synced
  · exact hSettled.received
  · exact hHeld
  refine Takes.reads (index_reads hLastAt) (Takes.reads (index_reads hLastDir) ?_)
  rw [hOut]
  refine Takes.bind (takeOutput_takes hFollows ?_ _ _) ?_
  · exact hUnlocked
  dsimp only
  rw [hFunds, account_incurred]
  exact Takes.pure [d.amount]

end Ends

end Robinarb.ArbExecutor
