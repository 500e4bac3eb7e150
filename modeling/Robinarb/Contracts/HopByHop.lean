import Robinarb.Contracts.HopDeals

/-! # Routes hop by hop

`_runHops` cuts a route into stretches, a pool hop or the V4 hops of one unlock. A
stretch deals as its hops do one after another, so that where the cuts lie makes no
difference to the amounts or to the balances.
-/

namespace Robinarb.ArbExecutor

open Fallible

section Cuts

variable {E : Type} {declared : Address → Address × Address} {hops : List Hop} {keys : List V4Key}

theorem _v4InCurrency_pure (declared : Address → Address × Address) {h : Hop} (hV4 : ¬ h.InPool)
    (hRange : h.feeBps.toNat < keys.length) :
    (_v4InCurrency h keys : Exec E Address) = pure (h.currencies declared keys).1 := by
  have hKey := List.getElem?_eq_getElem hRange
  unfold _v4InCurrency
  rw [index_of hKey, currencies_of_key hV4 hKey]
  cases h.zeroForOne <;> rfl

theorem _v4OutCurrency_pure (declared : Address → Address × Address) {h : Hop} (hV4 : ¬ h.InPool)
    (hRange : h.feeBps.toNat < keys.length) :
    (_v4OutCurrency h keys : Exec E Address) = pure (h.currencies declared keys).2 := by
  have hKey := List.getElem?_eq_getElem hRange
  unfold _v4OutCurrency
  rw [index_of hKey, currencies_of_key hV4 hKey]
  cases h.zeroForOne <;> rfl

/-- With its keys in range the inner loop finds an end, and all up to there are V4 hops
that meet in the same currency. -/
theorem segmentEnd_meets (declared : Address → Address × Address)
    (hRange : ∀ h ∈ hops, ¬ h.InPool → h.feeBps.toNat < keys.length) {i : Nat} {first : Hop}
    (hFirst : hops[i]? = some first) (hV4 : ¬ first.InPool) (n : Nat) :
    ∃ j, (segmentEnd hops keys n (i + 1) : Exec E Nat) = pure j ∧ i < j ∧ j ≤ hops.length ∧
      ∀ k h h', i ≤ k → k + 1 < j → hops[k]? = some h → hops[k + 1]? = some h' →
        ¬ h'.InPool ∧ (h.currencies declared keys).2 = (h'.currencies declared keys).1 := by
  have hStop : ∃ j, (pure (i + 1) : Exec E Nat) = pure j ∧ i < j ∧ j ≤ hops.length ∧
      ∀ k h h', i ≤ k → k + 1 < j → hops[k]? = some h → hops[k + 1]? = some h' →
        ¬ h'.InPool ∧ (h.currencies declared keys).2 = (h'.currencies declared keys).1 := by
    obtain ⟨hi, -⟩ := List.getElem?_eq_some_iff.mp hFirst
    exact ⟨i + 1, rfl, Nat.lt_succ_self i, hi, fun k _ _ hk hk' => absurd hk' (by omega)⟩
  induction n generalizing i first with
  | zero => exact hStop
  | succ n ih =>
    unfold segmentEnd
    cases hNext : hops[i + 1]? with
    | none => exact hStop
    | some next =>
      dsimp only
      split
      next hKind =>
        have hNextV4 : ¬ next.InPool := not_inPool_of_kind hKind
        rw [Nat.add_sub_cancel, index_of hFirst, pure_bind,
          _v4OutCurrency_pure declared hV4 (hRange first (List.mem_of_getElem? hFirst) hV4), pure_bind,
          _v4InCurrency_pure declared hNextV4 (hRange next (List.mem_of_getElem? hNext) hNextV4), pure_bind]
        split
        next hMeet =>
          obtain ⟨hi, -⟩ := List.getElem?_eq_some_iff.mp hNext
          obtain ⟨j, hEnd, hForward, hBound, hMeets⟩ := ih hNext hNextV4
            ⟨i + 1 + 1, rfl, Nat.lt_succ_self _, hi, fun k _ _ hk hk' => absurd hk' (by omega)⟩
          refine ⟨j, hEnd, Nat.lt_of_succ_lt hForward, hBound, fun k h h' hk hk' hHere hThere => ?_⟩
          rcases Nat.eq_or_lt_of_le hk with rfl | hLater
          · cases hFirst.symm.trans hHere
            cases hNext.symm.trans hThere
            exact ⟨hNextV4, hMeet⟩
          · exact hMeets k h h' hLater hk' hHere hThere
        · exact hStop
      · exact hStop

theorem segment_of_meets {i j : Nat} {first : Hop} (hFirst : hops[i]? = some first) (hV4 : ¬ first.InPool)
    (hForward : i < j) (hBound : j ≤ hops.length)
    (hMeets : ∀ k h h', i ≤ k → k + 1 < j → hops[k]? = some h → hops[k + 1]? = some h' →
      ¬ h'.InPool ∧ (h.currencies declared keys).2 = (h'.currencies declared keys).1) :
    ∃ rest, (hops.drop i).take (j - i) = first :: rest ∧ (∀ h ∈ first :: rest, ¬ h.InPool) ∧
      DealChain.Joins (Hop.currencies declared keys) (first :: rest) := by
  obtain ⟨hi, rfl⟩ := List.getElem?_eq_some_iff.mp hFirst
  obtain ⟨n, hn⟩ : ∃ n, j - i = n + 1 := Nat.exists_eq_succ_of_ne_zero (Nat.sub_ne_zero_of_lt hForward)
  have hSegment : (hops.drop i).take (j - i) = hops[i] :: (hops.drop (i + 1)).take n := by
    rw [hn, List.drop_eq_getElem_cons hi, List.take_succ_cons]
  have hAt : ∀ k, k < j - i → (hops[i] :: (hops.drop (i + 1)).take n)[k]? = hops[i + k]? := by
    intro k hk
    rw [← hSegment, getElem?_segment hops hk]
  have hLength : (hops[i] :: (hops.drop (i + 1)).take n).length = j - i := by
    rw [← hSegment, List.length_take, List.length_drop]
    omega
  refine ⟨_, hSegment, ?_, ?_⟩
  · intro h hMem
    obtain ⟨k, hk⟩ := List.mem_iff_getElem?.mp hMem
    obtain ⟨hShort, -⟩ := List.getElem?_eq_some_iff.mp hk
    rw [hLength] at hShort
    rw [hAt k hShort] at hk
    cases k with
    | zero =>
      cases hFirst.symm.trans hk
      exact hV4
    | succ k =>
      have hHere := List.getElem?_eq_getElem (show i + k < hops.length by omega)
      exact (hMeets (i + k) _ h (Nat.le_add_right i k) (by omega) hHere hk).1
  · apply List.isChain_iff_getElem.mpr
    intro k hk
    rw [hLength] at hk
    have hHere := (hAt k (by omega)).symm.trans (List.getElem?_eq_getElem (by omega))
    have hThere := (hAt (k + 1) hk).symm.trans (List.getElem?_eq_getElem (by omega))
    exact (hMeets (i + k) _ _ (Nat.le_add_right i k) (by omega) hHere hThere).2

theorem drop_eq_segment {segment : List Hop} {i j : Nat} (hSegment : (hops.drop i).take (j - i) = segment)
    (hForward : i ≤ j) : hops.drop i = segment ++ hops.drop j := by
  have hCut := List.take_append_drop (j - i) (hops.drop i)
  rw [List.drop_drop, Nat.add_sub_cancel' hForward, hSegment] at hCut
  exact hCut.symm

end Cuts

section Routes

variable {M : Type}

def Books.dealt (b : Books M) (d : DealChain.Deal U256 M (Address → Nat)) : Books M :=
  { b with held := d.funds, venues := d.venues }

/-- Deals of a route as it declares its tokens, each hop's output the input of the next. -/
abbrev routeDeals (market : Market M) (keys : List V4Key) :
    DealChain.Deal U256 M (Address → Nat) → List Hop → Option (DealChain.Deal U256 M (Address → Nat)) :=
  DealChain.run (filledDeal market keys) (Hop.tokens market.tokens keys) exchanged

/-- A connected route whose input the contract holds, and whose every swap fills. -/
structure FilledRoute (market : Market M) (contract : Address) (keys : List V4Key) (b : Books M) (hops : List Hop)
    (amountIn : U256) (d : DealChain.Deal U256 M (Address → Nat)) : Prop where
  apart : ∀ h ∈ hops, h.InPool → market.Apart contract h.pool
  inRange : ∀ h ∈ hops, ¬ h.InPool → h.feeBps.toNat < keys.length
  connected : Connected market.tokens keys hops
  small : amountIn.toNat < 2 ^ 127
  held : ∀ h ∈ hops.head?, amountIn.toNat ≤ b.held (h.tokens market.tokens keys).1
  filled : routeDeals market keys ⟨amountIn, b.venues, b.held⟩ hops = some d

variable {market : Market M} {contract : Address} {keys : List V4Key} {b : Books M} {hops pre post : List Hop}
  {amountIn : U256} {d d' : DealChain.Deal U256 M (Address → Nat)}

theorem Books.Quiet.dealt (hQuiet : b.Quiet) (d : DealChain.Deal U256 M (Address → Nat)) : (b.dealt d).Quiet where
  locked := hQuiet.locked
  even := hQuiet.even
  settled := ⟨hQuiet.settled.synced, hQuiet.settled.received⟩

theorem routeDeals_output {h : Hop} {rest : List Hop} (hRun : routeDeals market keys d (h :: rest) = some d') :
    d'.amount.toNat < 2 ^ 127 ∧ d'.amount.toNat ≤
      d'.funds (((h :: rest).getLast (List.cons_ne_nil h rest)).tokens market.tokens keys).2 := by
  obtain ⟨d₁, hLast⟩ := DealChain.run_last hRun
  obtain ⟨hSwap, hFunds⟩ := DealChain.deal_eq_some.mp hLast
  obtain ⟨-, -, hSmall⟩ := filledDeal_ok hSwap
  constructor
  · exact hSmall
  · rw [hFunds, exchanged, credit_self]
    exact Nat.le_add_left _ _

/-- A route is what comes before a cut, and then what comes after it, on the books the
first part leaves. -/
theorem FilledRoute.append (hRoute : FilledRoute market contract keys b (pre ++ post) amountIn d) :
    ∃ d₁, FilledRoute market contract keys b pre amountIn d₁ ∧
      FilledRoute market contract keys (b.dealt d₁) post d₁.amount d := by
  obtain ⟨d₁, hPre, hPost⟩ := DealChain.run_append.mp hRoute.filled
  obtain ⟨hPreConnected, hPostConnected, hJoin⟩ := List.isChain_append.mp hRoute.connected
  have hFirst : FilledRoute market contract keys b pre amountIn d₁ := {
    apart := fun h hMem => hRoute.apart h (List.mem_append_left post hMem)
    inRange := fun h hMem => hRoute.inRange h (List.mem_append_left post hMem)
    connected := hPreConnected
    small := hRoute.small
    held := fun h hHead => hRoute.held h (List.mem_head?_append_of_mem_head? hHead)
    filled := hPre }
  have hOutput : d₁.amount.toNat < 2 ^ 127 ∧
      ∀ h ∈ post.head?, d₁.amount.toNat ≤ d₁.funds (h.tokens market.tokens keys).1 := by
    cases pre with
    | nil =>
      cases hPre
      exact ⟨hRoute.small, hRoute.held⟩
    | cons h rest =>
      obtain ⟨hSmall, hFunds⟩ := routeDeals_output hPre
      refine ⟨hSmall, fun h' hHead => ?_⟩
      have hMeet := hJoin _ (List.getLast?_eq_some_getLast (List.cons_ne_nil h rest)) h' hHead
      rwa [hMeet] at hFunds
  exact ⟨d₁, hFirst, {
    apart := fun h hMem => hRoute.apart h (List.mem_append_right pre hMem)
    inRange := fun h hMem => hRoute.inRange h (List.mem_append_right pre hMem)
    connected := hPostConnected
    small := hOutput.1
    held := hOutput.2
    filled := hPost }⟩

theorem FilledRoute.done (hRoute : FilledRoute market contract keys b [] amountIn d) :
    d.amount = amountIn ∧ b.dealt d = b := by
  cases hRoute.filled
  exact ⟨rfl, rfl⟩

theorem FilledRoute.single {h : Hop} (hRoute : FilledRoute market contract keys b [h] amountIn d) :
    filledDeal market keys b.venues h amountIn = some (d.amount, d.venues) ∧
      d.funds = exchanged b.held (h.tokens market.tokens keys).1 amountIn (h.tokens market.tokens keys).2 d.amount := by
  obtain ⟨d₁, hDeal, hEnd⟩ := DealChain.run_cons.mp hRoute.filled
  cases hEnd
  exact DealChain.deal_eq_some.mp hDeal

theorem keys_of_segment {segment : List Hop} (hRange : ∀ h ∈ segment, h.feeBps.toNat < keys.length) :
    ∃ segKeys, segment.mapM (fun h => keys[h.feeBps.toNat]?) = some segKeys := by
  induction segment with
  | nil => exact ⟨[], rfl⟩
  | cons h rest ih =>
    obtain ⟨segKeys, hRest⟩ := ih fun h' hMem => hRange h' (List.mem_cons_of_mem h hMem)
    have hHere : h.feeBps.toNat < keys.length := hRange h List.mem_cons_self
    refine ⟨keys[h.feeBps.toNat] :: segKeys, ?_⟩
    rw [List.mapM_cons, List.getElem?_eq_getElem hHere, hRest]
    rfl

end Routes

section Loop

variable {E M : Type} {market : Market M} {contract : Address} {view : E → Books M} {ext : Handler E}
  {keys : List V4Key} {hops : List Hop} {w : World} {b : Books M} {amount : U256}
  {d : DealChain.Deal U256 M (Address → Nat)}

theorem poolSwap_takes (hTrades : Trades market contract view ext) {h : Hop}
    (hRoute : FilledRoute market contract keys b [h] amount d) :
    (h.kind = 0#8 → ∃ w', Takes view w b (_swapV2 contract ext h amount) d.amount w' (b.dealt d)) ∧
      (h.kind = 1#8 → ∃ w', Takes view w b (_swapAero contract ext h amount) d.amount w' (b.dealt d)) ∧
      (h.kind = 2#8 ∨ h.kind = 4#8 →
        ∃ w', Takes view w b (_swapV3 contract ext h amount) d.amount w' (b.dealt d)) := by
  obtain ⟨hFilled, hFunds⟩ := hRoute.single
  have hHeld := hRoute.held h rfl
  have hPool : h.InPool → market.Apart contract h.pool ∧
      amount.toNat ≤ b.held (directed h.zeroForOne (market.tokens h.pool)).1 ∧
      b.dealt d = { b with
        held := exchanged b.held (directed h.zeroForOne (market.tokens h.pool)).1 amount
          (directed h.zeroForOne (market.tokens h.pool)).2 d.amount
        venues := d.venues } := by
    intro hPool
    rw [tokens_of_inPool hPool] at hHeld hFunds
    refine ⟨hRoute.apart h List.mem_cons_self hPool, hHeld, ?_⟩
    rw [← hFunds]
    rfl
  refine ⟨fun hKind => ?_, fun hKind => ?_, fun hKind => ?_⟩
  · obtain ⟨hApart, hHeld, hDealt⟩ := hPool (.inl hKind)
    rw [hDealt]
    exact ⟨_, _swapV2_takes hTrades.follows hApart hKind hRoute.small hHeld hFilled⟩
  · obtain ⟨hApart, hHeld, hDealt⟩ := hPool (.inr (.inl hKind))
    rw [hDealt]
    exact ⟨_, _swapAero_takes hTrades.follows hApart hKind hHeld hFilled⟩
  · obtain ⟨hApart, hHeld, hDealt⟩ := hPool (.inr (.inr hKind))
    rw [hDealt]
    exact ⟨_, _swapV3_takes hTrades hApart hKind hRoute.small hHeld hFilled⟩

/-- The outer loop deals along what is left of the route. A turn takes the hops of a
stretch, and leaves the rest of the route filled on the books after it. -/
theorem runHopsFrom_takes (hTrades : Trades market contract view ext) (hManager : POOL_MANAGER ≠ contract)
    (hRange : ∀ h ∈ hops, ¬ h.InPool → h.feeBps.toNat < keys.length) {n i : Nat} (hTurns : hops.length ≤ n + i)
    (hQuiet : b.Quiet) (hRoute : FilledRoute market contract keys b (hops.drop i) amount d) :
    ∃ w', Takes view w b (runHopsFrom contract ext hops keys n i amount) d.amount w' (b.dealt d) := by
  have hDone : ∀ {i : Nat} {w : World} {b : Books M} {amount : U256}, hops.length ≤ i →
      FilledRoute market contract keys b (hops.drop i) amount d →
      ∃ w', Takes view w b (pure amount : Exec E U256) d.amount w' (b.dealt d) := by
    intro i w b amount hLast hRoute
    rw [List.drop_eq_nil_of_le hLast] at hRoute
    obtain ⟨hAmount, hBooks⟩ := hRoute.done
    rw [hAmount, hBooks]
    exact ⟨w, Takes.pure amount⟩
  induction n generalizing i w b amount with
  | zero =>
    rw [Nat.zero_add] at hTurns
    exact hDone hTurns hRoute
  | succ n ih =>
    unfold runHopsFrom
    cases hHop : hops[i]? with
    | none => exact hDone (List.getElem?_eq_none_iff.mp hHop) hRoute
    | some hop =>
      obtain ⟨hi, hHopEq⟩ := List.getElem?_eq_some_iff.mp hHop
      have hNext : ∀ {j : Nat} {segment : List Hop}, i < j → hops.drop i = segment ++ hops.drop j →
          ∃ d₁, FilledRoute market contract keys b segment amount d₁ ∧ ∀ w₁, ∃ w',
            Takes view w₁ (b.dealt d₁) (runHopsFrom contract ext hops keys n j d₁.amount) d.amount w'
              (b.dealt d) := by
        intro j segment hForward hSplit
        rw [hSplit] at hRoute
        obtain ⟨d₁, hHere, hLater⟩ := hRoute.append
        exact ⟨d₁, hHere, fun w₁ => ih (by omega) (hQuiet.dealt d₁) hLater⟩
      have hSingle : hops.drop i = [hop] ++ hops.drop (i + 1) := by
        rw [List.drop_eq_getElem_cons hi, hHopEq]
        rfl
      have hTurn : ∀ {x : Exec E U256}, (∀ d₁, FilledRoute market contract keys b [hop] amount d₁ →
          ∃ w₁, Takes view w b x d₁.amount w₁ (b.dealt d₁)) →
          ∃ w', Takes view w b (x >>= runHopsFrom contract ext hops keys n (i + 1)) d.amount w' (b.dealt d) := by
        intro x hSwap
        obtain ⟨d₁, hHere, hRest⟩ := hNext (Nat.lt_succ_self i) hSingle
        obtain ⟨w₁, hFirst⟩ := hSwap d₁ hHere
        obtain ⟨w', hLater⟩ := hRest w₁
        exact ⟨w', hFirst.bind hLater⟩
      dsimp only
      split
      next hKind => exact hTurn fun _ hHere => (poolSwap_takes hTrades hHere).1 hKind
      next hNotV2 =>
      split
      next hKind => exact hTurn fun _ hHere => (poolSwap_takes hTrades hHere).2.1 hKind
      next hNotAero =>
      split
      next hKind => exact hTurn fun _ hHere => (poolSwap_takes hTrades hHere).2.2 hKind
      next hNotV3 =>
        have hV4 : ¬ hop.InPool := fun hPool =>
          hPool.elim hNotV2 fun hPool => hPool.elim hNotAero hNotV3
        obtain ⟨j, hEnd, hForward, hBound, hMeets⟩ := segmentEnd_meets market.tokens hRange hHop hV4 hops.length
        obtain ⟨rest, hSegment, hAllV4, hJoins⟩ := segment_of_meets hHop hV4 hForward hBound hMeets
        obtain ⟨d₁, hHere, hRest⟩ := hNext hForward (drop_eq_segment hSegment hForward.le)
        obtain ⟨segKeys, hKeys⟩ := keys_of_segment fun h hMem => hHere.inRange h hMem (hAllV4 h hMem)
        have hUnlock := _runV4Segment_takes (w := w) hTrades hManager hSegment hKeys hAllV4 hJoins hHere.connected
          hQuiet hHere.small (hHere.held hop rfl) hHere.filled
        obtain ⟨w', hLater⟩ := hRest { w with inV4 := false }
        rw [hEnd, pure_bind]
        exact ⟨w', hUnlock.bind hLater⟩

theorem _runHops_takes (hTrades : Trades market contract view ext) (hManager : POOL_MANAGER ≠ contract)
    (hQuiet : b.Quiet) (hRoute : FilledRoute market contract keys b hops amount d) :
    ∃ w', Takes view w b (_runHops contract ext hops keys amount) d.amount w' (b.dealt d) :=
  runHopsFrom_takes hTrades hManager hRoute.inRange (Nat.le_add_right _ _) hQuiet hRoute

/-- Each hop as a route of its own, a V4 hop in an unlock of its own. -/
def runHopsSingly (contract : Address) (ext : Handler E) (hops : List Hop) (v4Keys : List V4Key)
    (amountIn : U256) : Exec E U256 :=
  hops.foldlM (fun amount hop => _runHops contract ext [hop] v4Keys amount) amountIn

theorem runHopsSingly_takes (hTrades : Trades market contract view ext) (hManager : POOL_MANAGER ≠ contract)
    (hQuiet : b.Quiet) (hRoute : FilledRoute market contract keys b hops amount d) :
    ∃ w', Takes view w b (runHopsSingly contract ext hops keys amount) d.amount w' (b.dealt d) := by
  induction hops generalizing w b amount with
  | nil =>
    obtain ⟨hAmount, hBooks⟩ := hRoute.done
    rw [hAmount, hBooks]
    exact ⟨w, Takes.pure amount⟩
  | cons hop rest ih =>
    rw [← List.singleton_append] at hRoute
    obtain ⟨d₁, hHere, hLater⟩ := hRoute.append
    obtain ⟨w₁, hHop⟩ := _runHops_takes (w := w) hTrades hManager hQuiet hHere
    obtain ⟨w', hRest⟩ := ih (w := w₁) (hQuiet.dealt d₁) hLater
    unfold runHopsSingly
    rw [List.foldlM_cons]
    exact ⟨w', hHop.bind hRest⟩

end Loop

section Segments

variable {E M : Type} (market : Market M) (contract : Address) (keys : List V4Key) (view : E → Books M)
  (ext : Handler E)

/-- The unlock of the hops `[i, j)`: whoever answers the callback, every delta is zero
when it ends, and the contract is down by the input and up by the output. -/
structure SettlesSegment (b : Books M) (hops : List Hop) (i j : Nat) (tokenIn tokenOut : Address)
    (amountIn : U256) (d : DealChain.Deal U256 M (Address → Nat)) : Prop where
  closes : ∃ segKeys dirs, Reads (segmentKeys hops keys i j : Exec E _) (fun _ => (segKeys, dirs)) ∧
    ∀ inner w, Follows market contract view inner → w.inV4 = true → ∃ b',
      Takes view w { b with unlocked := true }
        (unlockCallback contract inner POOL_MANAGER (some ⟨segKeys, dirs, amountIn⟩)) [d.amount] w b' ∧
      (∀ currency, b'.delta currency = 0) ∧ b'.held = d.funds
  runs : ∀ w, ∃ w', Takes view w b (_runV4Segment ext hops keys i j amountIn) d.amount w' (b.dealt d)
  payable : amountIn.toNat ≤ b.held tokenIn
  funds : d.funds = exchanged b.held tokenIn amountIn tokenOut d.amount
  native : d.funds zeroAddress = b.held zeroAddress

variable {market contract keys view ext}

theorem asToken_ne_zero (currency : Address) : asToken currency ≠ zeroAddress := by
  unfold asToken
  split
  · decide
  next hErc20 => exact hErc20

theorem exchanged_native {held : Address → Nat} {tokenIn tokenOut : Address} (hIn : tokenIn ≠ zeroAddress)
    (hOut : tokenOut ≠ zeroAddress) (amountIn amountOut : U256) :
    exchanged held tokenIn amountIn tokenOut amountOut zeroAddress = held zeroAddress := by
  unfold exchanged credit debit
  rw [if_neg hOut.symm, if_neg hIn.symm]

theorem FilledRoute.settles (hTrades : Trades market contract view ext) (hManager : POOL_MANAGER ≠ contract)
    {b : Books M} (hQuiet : b.Quiet) {hops rest : List Hop} {first : Hop} {i j : Nat} {amountIn : U256}
    {d : DealChain.Deal U256 M (Address → Nat)} (hSegment : (hops.drop i).take (j - i) = first :: rest)
    (hRoute : FilledRoute market contract keys b (first :: rest) amountIn d)
    (hV4 : ∀ h ∈ first :: rest, ¬ h.InPool)
    (hJoins : DealChain.Joins (Hop.currencies market.tokens keys) (first :: rest)) :
    SettlesSegment market contract keys view ext b hops i j (first.tokens market.tokens keys).1
      (((first :: rest).getLast (List.cons_ne_nil first rest)).tokens market.tokens keys).2 amountIn d := by
  obtain ⟨segKeys, hKeys⟩ := keys_of_segment fun h hMem => hRoute.inRange h hMem (hV4 h hMem)
  have hHeld := hRoute.held first rfl
  have hFunds := DealChain.run_funds exchanged_telescopes hRoute.connected hRoute.filled
  have hIn : (first.tokens market.tokens keys).1 ≠ zeroAddress := by
    rw [tokens_of_v4 (hV4 first List.mem_cons_self)]
    exact asToken_ne_zero _
  have hOut : (((first :: rest).getLast (List.cons_ne_nil first rest)).tokens market.tokens keys).2 ≠ zeroAddress := by
    rw [tokens_of_v4 (hV4 _ (List.getLast_mem _))]
    exact asToken_ne_zero _
  exact {
    closes := by
      refine ⟨segKeys, _, segmentKeys_reads hSegment hKeys, fun inner w hInner hOpen => ?_⟩
      exact ⟨_, segmentCallback_takes hInner hManager hKeys hV4 hJoins hRoute.connected hOpen hQuiet hRoute.small
        hHeld hRoute.filled, hQuiet.even, rfl⟩
    runs := fun w => ⟨_, _runV4Segment_takes hTrades hManager hSegment hKeys hV4 hJoins hRoute.connected hQuiet
      hRoute.small hHeld hRoute.filled⟩
    payable := hHeld
    funds := hFunds
    native := (congrFun hFunds zeroAddress).trans (exchanged_native hIn hOut amountIn d.amount) }

/-- A route runs as its hops do one after another, each in an unlock of its own. From any
V4 hop on, the stretch that the inner loop finds settles where it stands; with no turns
left that is the hop alone. -/
theorem _runHops_hop_by_hop (hTrades : Trades market contract view ext) (hManager : POOL_MANAGER ≠ contract)
    {w : World} {b : Books M} (hQuiet : b.Quiet) {hops : List Hop} {amountIn : U256}
    {d : DealChain.Deal U256 M (Address → Nat)}
    (hRoute : FilledRoute market contract keys b hops amountIn d) :
    (∃ w', Takes view w b (_runHops contract ext hops keys amountIn) d.amount w' (b.dealt d)) ∧
      (∃ w', Takes view w b (runHopsSingly contract ext hops keys amountIn) d.amount w' (b.dealt d)) ∧
      ∀ turns i first, hops[i]? = some first → ¬ first.InPool →
        ∃ j last d₁ d₂, (segmentEnd hops keys turns (i + 1) : Exec E Nat) = pure j ∧ i < j ∧
          hops[j - 1]? = some last ∧
          routeDeals market keys ⟨amountIn, b.venues, b.held⟩ (hops.take i) = some d₁ ∧
          routeDeals market keys d₁ ((hops.drop i).take (j - i)) = some d₂ ∧
          routeDeals market keys d₂ (hops.drop j) = some d ∧
          SettlesSegment market contract keys view ext (b.dealt d₁) hops i j (first.tokens market.tokens keys).1
            (last.tokens market.tokens keys).2 d₁.amount d₂ := by
  refine ⟨_runHops_takes hTrades hManager hQuiet hRoute, runHopsSingly_takes hTrades hManager hQuiet hRoute, ?_⟩
  intro turns i first hFirst hV4
  obtain ⟨j, hEnd, hForward, hBound, hMeets⟩ := segmentEnd_meets market.tokens hRoute.inRange hFirst hV4 turns
  obtain ⟨rest, hSegment, hAllV4, hJoins⟩ := segment_of_meets hFirst hV4 hForward hBound hMeets
  obtain ⟨last, hLast⟩ : ∃ last, hops[j - 1]? = some last := ⟨_, List.getElem?_eq_getElem (by omega)⟩
  have hGetLast : (first :: rest).getLast (List.cons_ne_nil first rest) = last := by
    have hAt := segment_last hForward hLast
    rw [hSegment, getElem?_getLast] at hAt
    exact Option.some.inj hAt
  rw [← List.take_append_drop i hops, drop_eq_segment hSegment hForward.le] at hRoute
  obtain ⟨d₁, hPre, hAfter⟩ := hRoute.append
  obtain ⟨d₂, hHere, hPost⟩ := hAfter.append
  have hSettles := hHere.settles hTrades hManager (hQuiet.dealt d₁) hSegment hAllV4 hJoins
  rw [hGetLast] at hSettles
  have hFilled := hHere.filled
  rw [← hSegment] at hFilled
  exact ⟨j, last, d₁, d₂, hEnd, hForward, hLast, hPre.filled, hFilled, hPost.filled, hSettles⟩

end Segments

section Venues

variable {M : Type} (market : Market M) (contract : Address)

def getBooks : Exec (Books M) (Books M) := fun st => .ok (st.env, st)

def setBooks (b : Books M) : Exec (Books M) Unit := fun st => .ok ((), { st with env := b })

/-- Answers from the books alone. -/
def bookkeeper : Handler (Books M) := fun request st =>
  match st.env.answer market contract request with
  | some (reply, b) => .ok (reply, { st with env := b })
  | none => .error .foreign

def poolSwap (pool recipient : Address) (zeroForOne : Bool) (amountIn : I256) (limit : U256) :
    Exec (Books M) (List U256) := do
  require (recipient = contract ∧ limit = priceLimit zeroForOne) .foreign
  let b ← getBooks
  match market.v3Swap b.venues pool zeroForOne amountIn with
  | none => revert .foreign
  | some (out, m) =>
    let t := directed zeroForOne (market.tokens pool)
    let deltas := poolDeltas zeroForOne amountIn out
    let given := credit b.held t.2 out.toNat
    setBooks { b with held := given, venues := m }
    swapCallback (bookkeeper market contract) pool deltas.1 deltas.2
    let paid ← getBooks
    require (paid.held t.1 + amountIn.toNat = given t.1) .foreign
    return [deltas.1, deltas.2]

open Classical in
noncomputable def unlockOnce (data : UnlockData) : Exec (Books M) (List U256) := do
  let b ← getBooks
  require (b.unlocked = false) .foreign
  setBooks { b with unlocked := true }
  let words ← unlockCallback contract (bookkeeper market contract) POOL_MANAGER (some data)
  let closed ← getBooks
  require (∀ currency, closed.delta currency = 0) .foreign
  setBooks { closed with unlocked := false }
  return words

/-- Pools that call back and a PoolManager that checks every delta, over the books. -/
noncomputable def venueCalls : Handler (Books M)
  | .v3Swap pool recipient zeroForOne amountSpecified limit =>
    poolSwap market contract pool recipient zeroForOne amountSpecified limit
  | .unlock data => unlockOnce market contract data
  | request => bookkeeper market contract request

variable {market contract} {α : Type} {w w₁ : World} {b b₁ : Books M}

theorem Takes.getBooks {f : Books M → Exec (Books M) α} {a : α} (hNext : Takes id w b (f b) a w₁ b₁) :
    Takes id w b (getBooks >>= f) a w₁ b₁ := by
  rintro st hStorage rfl
  obtain ⟨st₁, hf, hEnd⟩ := hNext st hStorage rfl
  exact ⟨st₁, (Reads.bind (fun _ => rfl) f st).trans hf, hEnd⟩

theorem setBooks_takes (b b' : Books M) : Takes id w b (setBooks b') () w b' :=
  fun st hStorage _ => ⟨{ st with env := b' }, rfl, hStorage, rfl⟩

theorem bookkeeper_follows : Follows market contract id (bookkeeper market contract) := by
  rintro w b request reply b' hAnswer st hStorage rfl
  refine ⟨{ st with env := b' }, ?_, hStorage, rfl⟩
  unfold bookkeeper
  dsimp only [id] at hAnswer
  rw [hAnswer]

theorem venueCalls_follows : Follows market contract id (venueCalls market contract) := by
  intro w b request reply b' hAnswer
  cases request with
  | v3Swap pool recipient zeroForOne amountSpecified limit => cases hAnswer
  | unlock data => cases hAnswer
  | _ => exact bookkeeper_follows w b _ reply b' hAnswer

theorem venueCalls_callsBack : CallsBack market contract id (venueCalls market contract) := by
  refine ⟨bookkeeper market contract, bookkeeper_follows, ?_⟩
  intro w b pool zeroForOne amountIn out m b' hSwap t deltas given hCallback hPaid
  refine Takes.require (decide_eq_true ⟨rfl, rfl⟩) (Takes.getBooks ?_)
  rw [hSwap]
  refine (setBooks_takes b given).bind (hCallback.bind (Takes.getBooks ?_))
  exact Takes.require (decide_eq_true hPaid) (Takes.pure _)

theorem venueCalls_unlocks : Unlocks market contract id (venueCalls market contract) := by
  refine ⟨bookkeeper market contract, bookkeeper_follows, ?_⟩
  intro w b data words b' hLocked _ hCallback hClosed
  refine Takes.getBooks (Takes.require (decide_eq_true hLocked) ?_)
  refine (setBooks_takes b _).bind (hCallback.bind (Takes.getBooks ?_))
  refine Takes.require (decide_eq_true hClosed) ?_
  exact (setBooks_takes b' _).bind (Takes.pure words)

theorem venueCalls_trades : Trades market contract id (venueCalls market contract) where
  follows := venueCalls_follows
  callsBack := venueCalls_callsBack
  unlocks := venueCalls_unlocks

end Venues

section Sample

def tokenA : Address := 0xA#160

def tokenB : Address := 0xB#160

def executorAddress : Address := 0x5E1F#160

/-- Every swap gives one more than it takes; the market counts its swaps. -/
def countedMarket : Market Nat where
  tokens _ := (WETH, tokenA)
  reserves _ _ := (0#112, 0#112, 0#32)
  amountOut _ _ amountIn _ := amountIn
  paid swaps _ _ _ := swaps
  pairSwap swaps _ _ _ := some (swaps + 1)
  v3Swap swaps _ _ amountIn := some (amountIn + 1#256, swaps + 1)
  v4Swap swaps _ _ amountIn := some (amountIn + 1#256, swaps + 1)

def nativeKeys : List V4Key := [⟨zeroAddress, tokenA, 3000#32, 60⟩, ⟨zeroAddress, tokenB, 500#32, 10⟩]

/-- A pool from WETH to A, then one unlock from A through native ETH to B and back. -/
def mixedRoute : List Hop :=
  [⟨2#8, 0x9001#160, true, 0#16⟩, ⟨3#8, zeroAddress, false, 0#16⟩, ⟨3#8, zeroAddress, true, 1#16⟩,
    ⟨3#8, zeroAddress, false, 1#16⟩]

def quietBooks : Books Nat where
  held token := if token = WETH then 1000 else 0
  delta _ := 0
  unlocked := false
  synced := zeroAddress
  received := 0
  venues := 0

def restingWorld : World where
  balance _ _ := 0#256
  owner := zeroAddress
  executors _ := false
  expectedCaller := zeroAddress
  inFlight := false
  inV4 := false

theorem mixedRoute_filled {d : DealChain.Deal U256 Nat (Address → Nat)}
    (hRun : routeDeals countedMarket nativeKeys ⟨1000#256, quietBooks.venues, quietBooks.held⟩ mixedRoute = some d) :
    FilledRoute countedMarket executorAddress nativeKeys quietBooks mixedRoute 1000#256 d where
  apart := by
    intro h hMem hPool
    have hApart : ∀ h ∈ mixedRoute, h.InPool → h.pool = 0x9001#160 := by decide
    rw [hApart h hMem hPool]
    exact ⟨by decide, by decide, by decide, by decide⟩
  inRange := by decide
  connected := by
    unfold Connected
    decide
  small := by decide
  held := by decide
  filled := hRun

theorem mixedRoute_hop_by_hop :
    ∃ d w', d.amount = 1004#256 ∧ d.venues = 4 ∧ d.funds WETH = 1004 ∧
      Takes id restingWorld quietBooks
        (_runHops executorAddress (venueCalls countedMarket executorAddress) mixedRoute nativeKeys 1000#256)
        d.amount w' (quietBooks.dealt d) := by
  have hDeals : (routeDeals countedMarket nativeKeys ⟨1000#256, quietBooks.venues, quietBooks.held⟩
      mixedRoute).map (fun d => (d.amount, d.venues, d.funds WETH)) = some (1004#256, 4, 1004) := by
    decide +kernel
  obtain ⟨d, hRun, hEnd⟩ := Option.map_eq_some_iff.mp hDeals
  obtain ⟨⟨w', hTakes⟩, -, -⟩ := _runHops_hop_by_hop (w := restingWorld) venueCalls_trades (by decide)
    ⟨rfl, fun _ => rfl, rfl, rfl⟩ (mixedRoute_filled hRun)
  obtain ⟨hAmount, hRest⟩ := Prod.ext_iff.mp hEnd
  obtain ⟨hSwaps, hFunds⟩ := Prod.ext_iff.mp hRest
  exact ⟨d, w', hAmount, hSwaps, hFunds, hTakes⟩

end Sample

end Robinarb.ArbExecutor
