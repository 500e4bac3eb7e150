import Robinarb.Contracts.Legs
import Robinarb.Contracts.ProfitGuard

/-! # Funds of other tokens

The guard reads the anchor only, and a swap callback pays what a pool names in the token
the pool names. What the contract holds of another token is safe with pools that report
their own tokens, take no more than a hop's input and give what they say: along a
connected route each hop is then paid for by the hop before it.
-/

namespace Robinarb.ArbExecutor

open Fallible

section Triples

variable {E α β : Type} {token account : Address}

/-- A run of `x` that succeeds costs the account at most `down` of the token, and brings
it `up` on top. -/
def Moves (token account : Address) (x : Exec E α) (down : Nat) (up : α → Nat) : Prop :=
  ∀ st r, x st = .ok r → st.holding token account + up r.1 ≤ r.2.holding token account + down

theorem Moves.bind {x : Exec E α} {f : α → Exec E β} {down : Nat} {middle : α → Nat} {up : β → Nat}
    (hFirst : Moves token account x down middle) (hNext : ∀ a, Moves token account (f a) (middle a) up) :
    Moves token account (x >>= f) down up := by
  intro st r hRun
  obtain ⟨a, st₁, hx, hf⟩ := bind_eq_ok.mp hRun
  have hBefore := hFirst st _ hx
  have hAfter := hNext a st₁ r hf
  dsimp only at hBefore
  omega

theorem Moves.frame {x : Exec E α} {down : Nat} {up : α → Nat} (hMoves : Moves token account x down up)
    (n : Nat) : Moves token account x (down + n) fun a => up a + n := by
  intro st r hRun
  have hRest := hMoves st r hRun
  dsimp only
  omega

theorem Moves.weaken {x : Exec E α} {down down' : Nat} {up up' : α → Nat}
    (hMoves : Moves token account x down up) (hDown : down ≤ down') (hUp : ∀ a, up' a ≤ up a) :
    Moves token account x down' up' := by
  intro st r hRun
  have hRest := hMoves st r hRun
  have hLess := hUp r.1
  omega

theorem Moves.then {x : Exec E α} {f : α → Exec E β} {down : Nat} {up : β → Nat}
    (hFirst : Moves token account x 0 fun _ => 0) (hNext : ∀ a, Moves token account (f a) down up) :
    Moves token account (x >>= f) down up := by
  have hFramed : Moves token account x down fun _ => down :=
    (hFirst.frame down).weaken (Nat.zero_add down).le fun _ => (Nat.zero_add down).ge
  exact hFramed.bind hNext

theorem Moves.pure (a : α) (up : α → Nat) :
    Moves token account (pure a : Exec E α) (up a) up := by
  rintro st r ⟨⟩
  exact Nat.le_refl _

theorem Moves.reads {x : Exec E α} {a : α} {f : α → Exec E β} {down : Nat} {up : β → Nat}
    (hRead : Reads x fun _ => a) (hNext : Moves token account (f a) down up) :
    Moves token account (x >>= f) down up := by
  intro st r hRun
  rw [hRead.bind] at hRun
  exact hNext st r hRun

theorem Moves.of_keeps {x : Exec E α} (hKeeps : Keeps x) : Moves token account x 0 fun _ => 0 := by
  intro st r hRun
  rw [hKeeps st r hRun]

theorem Moves.past {x : Exec E α} {f : α → Exec E β} {down : Nat} {up : β → Nat} (hKeeps : Keeps x)
    (hNext : ∀ a, Moves token account (f a) down up) : Moves token account (x >>= f) down up :=
  (Moves.of_keeps hKeeps).then hNext

theorem index_keeps {γ : Type} (xs : List γ) (i : Nat) : Keeps (index xs i : Exec E γ) :=
  fun _ _ hRun => (index_ok hRun).2

theorem require_keeps (condition : Bool) (reason : Revert) : Keeps (require condition reason : Exec E Unit) :=
  fun _ _ hRun => congrArg Prod.snd (require_ok hRun).2

theorem decodeWord_ok {bits i : Nat} {reply : List U256} {st : State E} {r : U256 × State E}
    (hRun : decodeWord bits reply i st = .ok r) : reply[i]? = some r.1 ∧ r.2 = st := by
  unfold decodeWord at hRun
  cases hWord : reply[i]? with
  | none =>
    rw [hWord] at hRun
    cases hRun
  | some word =>
    rw [hWord] at hRun
    dsimp only at hRun
    split at hRun
    · obtain rfl := pure_eq_ok.mp hRun
      exact ⟨rfl, rfl⟩
    · cases hRun

theorem decodeWord_keeps (bits : Nat) (reply : List U256) (i : Nat) :
    Keeps (decodeWord bits reply i : Exec E U256) :=
  fun _ _ hRun => (decodeWord_ok hRun).2

theorem checkedAdd_keeps (a b : U256) : Keeps (checkedAdd a b : Exec E U256) :=
  fun _ _ hRun => (checkedAdd_ok hRun).2

theorem checkedMul_keeps (a b : U256) : Keeps (checkedMul a b : Exec E U256) := by
  intro st r hRun
  unfold checkedMul at hRun
  split at hRun
  · obtain rfl := pure_eq_ok.mp hRun
    rfl
  · cases hRun

theorem checkedDiv_keeps (a b : U256) : Keeps (checkedDiv a b : Exec E U256) := by
  intro st r hRun
  unfold checkedDiv at hRun
  split at hRun
  · cases hRun
  · obtain rfl := pure_eq_ok.mp hRun
    rfl

theorem checkedNeg_keeps (x : I256) : Keeps (checkedNeg x : Exec E I256) := by
  intro st r hRun
  unfold checkedNeg at hRun
  split at hRun
  · cases hRun
  · obtain rfl := pure_eq_ok.mp hRun
    rfl

theorem checkedNeg_ok {x : I256} {st : State E} {r : I256 × State E} (hRun : checkedNeg x st = .ok r) :
    r.1 = -x := by
  unfold checkedNeg at hRun
  split at hRun
  · cases hRun
  · obtain rfl := pure_eq_ok.mp hRun
    rfl

end Triples

section Laws

variable {E : Type} (token contract anchor : Address) (declared : Address → Address × Address)

/-- The part of an amount of `currency` that is in `token`. -/
def inToken (currency : Address) (amount : U256) : Nat := if currency = token then amount.toNat else 0

/-- The output a V3 pool reports: the negative delta. -/
def reportedOutput (zeroForOne : Bool) (reply : List U256) : U256 :=
  -(reply.getD (if zeroForOne then 1 else 0) 0#256)

/-- A pool that reports its own tokens, takes at most the input of a swap and gives at
least what was asked of it, or what it says it gave. -/
structure FairPool (ext : Handler E) (pool : Address) : Prop where
  token0 : Reads (ext (.token0 pool)) fun _ => [(declared pool).1.setWidth 256]
  token1 : Reads (ext (.token1 pool)) fun _ => [(declared pool).2.setWidth 256]
  getReserves : Moves token contract (ext (.getReserves pool)) 0 fun _ => 0
  getAmountOut : ∀ amountIn tokenIn, Moves token contract (ext (.getAmountOut pool amountIn tokenIn)) 0 fun _ => 0
  pairSwap : ∀ amount0Out amount1Out, Moves token contract (ext (.pairSwap pool amount0Out amount1Out contract)) 0
    fun _ => inToken token (declared pool).1 amount0Out + inToken token (declared pool).2 amount1Out
  v3Swap : ∀ zeroForOne amountIn limit,
    Moves token contract (ext (.v3Swap pool contract zeroForOne amountIn limit))
      (inToken token (directed zeroForOne (declared pool)).1 amountIn)
      fun reply => inToken token (directed zeroForOne (declared pool)).2 (reportedOutput zeroForOne reply)

/-- Tokens, WETH and the PoolManager's accounting move what they are asked to. -/
structure StandardLedger (ext : Handler E) : Prop where
  balanceOf : ∀ t account, Moves token contract (ext (.balanceOf t account)) 0 fun _ => 0
  transfer : ∀ t recipient amount,
    Moves token contract (ext (.transfer t recipient amount)) (inToken token t amount) fun _ => 0
  wethWithdraw : ∀ amount, Moves token contract (ext (.wethWithdraw amount)) (inToken token WETH amount)
    fun _ => inToken token zeroAddress amount
  wethDeposit : ∀ value, Moves token contract (ext (.wethDeposit value)) (inToken token zeroAddress value)
    fun _ => inToken token WETH value
  managerSwap : ∀ key hooks zeroForOne amountSpecified limit,
    Moves token contract (ext (.managerSwap key hooks zeroForOne amountSpecified limit)) 0 fun _ => 0
  sync : ∀ currency, Moves token contract (ext (.sync currency)) 0 fun _ => 0
  settle : ∀ value, Moves token contract (ext (.settle value)) (inToken token zeroAddress value) fun _ => 0
  take : ∀ currency amount, Moves token contract (ext (.take currency contract amount)) 0
    fun _ => inToken token currency amount

/-- The PoolManager's `unlock`: the callback with the data handed over, and its words. -/
def UnlocksOnce (ext : Handler E) : Prop :=
  ∀ data st reply st', ext (.unlock data) st = .ok (reply, st') →
    ∃ (inner : Handler E) (st₁ st₂ : State E), StandardLedger token contract inner ∧
      st.holding token contract ≤ st₁.holding token contract ∧
      unlockCallback contract inner POOL_MANAGER (some data) st₁ = .ok (reply, st₂) ∧
      st₂.holding token contract ≤ st'.holding token contract

structure FairVenues (hops : List Hop) (ext : Handler E) : Prop where
  ledger : StandardLedger token contract ext
  pools : ∀ hop ∈ hops, hop.InPool → FairPool token contract declared ext hop.pool
  unlock : UnlocksOnce token contract ext

/-- A loan of the anchor, with fair venues inside it. -/
def LendsAmongFair (hops : List Hop) (ext : Handler E) : Prop :=
  ∀ assets data st reply st', ext (.flashLoan anchor assets data) st = .ok (reply, st') →
    ∃ (inner : Handler E) (st₁ st₂ : State E), FairVenues token contract declared hops inner ∧
      st.world.move anchor MORPHO contract assets = some st₁.world ∧
      onMorphoFlashLoan contract inner MORPHO assets (some data) st₁ = .ok ((), st₂) ∧
      st₂.world.move anchor contract MORPHO assets = some st'.world

end Laws

section Hops

variable {E : Type} {token self : Address} {declared : Address → Address × Address} {ext : Handler E}
  {h : Hop}

theorem token0_reads (hFair : FairPool token self declared ext h.pool) :
    Reads (token0 ext h.pool) fun _ => (declared h.pool).1 := by
  intro st
  exact (hFair.token0.bind _ st).trans (decodeAddress_reads _ st)

theorem token1_reads (hFair : FairPool token self declared ext h.pool) :
    Reads (token1 ext h.pool) fun _ => (declared h.pool).2 := by
  intro st
  exact (hFair.token1.bind _ st).trans (decodeAddress_reads _ st)

theorem transfer_moves (hLedger : StandardLedger token self ext) (t recipient : Address) (amount : U256) :
    Moves token self (transfer ext t recipient amount) (inToken token t amount) fun _ => 0 :=
  (hLedger.transfer t recipient amount).bind fun _ =>
    Moves.past (decodeWord_keeps _ _ _) fun _ => Moves.pure () fun _ => 0

theorem _swapV2_moves (hLedger : StandardLedger token self ext)
    (hFair : FairPool token self declared ext h.pool) (amountIn : U256) :
    Moves token self (_swapV2 self ext h amountIn)
      (inToken token (directed h.zeroForOne (declared h.pool)).1 amountIn)
      fun out => inToken token (directed h.zeroForOne (declared h.pool)).2 out := by
  refine hFair.getReserves.then fun reserves => ?_
  refine Moves.past (decodeWord_keeps _ _ _) fun r0 => ?_
  refine Moves.past (decodeWord_keeps _ _ _) fun r1 => ?_
  refine Moves.past (decodeWord_keeps _ _ _) fun _ => ?_
  have hPaid : ∀ t amountOut a0 a1, inToken token (directed h.zeroForOne (declared h.pool)).2 amountOut ≤
      inToken token (declared h.pool).1 a0 + inToken token (declared h.pool).2 a1 →
      Moves token self (do
        transfer ext t h.pool amountIn
        let _ ← ext (.pairSwap h.pool a0 a1 self)
        return amountOut) (inToken token t amountIn)
        fun out => inToken token (directed h.zeroForOne (declared h.pool)).2 out := by
    intro t amountOut a0 a1 hGives
    refine (transfer_moves hLedger _ _ _).bind fun _ => ?_
    refine (hFair.pairSwap a0 a1).bind fun _ => ?_
    exact (Moves.pure amountOut _).weaken hGives fun _ => Nat.le_refl _
  cases hDir : h.zeroForOne with
  | false =>
    refine Moves.reads (token1_reads hFair) ?_
    refine Moves.past (require_keeps _ _) fun _ => ?_
    refine Moves.past (checkedMul_keeps _ _) fun amountInWithFee => ?_
    refine Moves.past (checkedMul_keeps _ _) fun numerator => ?_
    refine Moves.past (checkedMul_keeps _ _) fun _ => ?_
    refine Moves.past (checkedAdd_keeps _ _) fun denominator => ?_
    refine Moves.past (checkedDiv_keeps _ _) fun amountOut => ?_
    rw [hDir] at hPaid
    exact hPaid _ amountOut amountOut 0#256 (Nat.le_add_right _ _)
  | true =>
    refine Moves.reads (token0_reads hFair) ?_
    refine Moves.past (require_keeps _ _) fun _ => ?_
    refine Moves.past (checkedMul_keeps _ _) fun amountInWithFee => ?_
    refine Moves.past (checkedMul_keeps _ _) fun numerator => ?_
    refine Moves.past (checkedMul_keeps _ _) fun _ => ?_
    refine Moves.past (checkedAdd_keeps _ _) fun denominator => ?_
    refine Moves.past (checkedDiv_keeps _ _) fun amountOut => ?_
    rw [hDir] at hPaid
    exact hPaid _ amountOut 0#256 amountOut (Nat.le_add_left _ _)

theorem _swapAero_moves (hLedger : StandardLedger token self ext)
    (hFair : FairPool token self declared ext h.pool) (amountIn : U256) :
    Moves token self (_swapAero self ext h amountIn)
      (inToken token (directed h.zeroForOne (declared h.pool)).1 amountIn)
      fun out => inToken token (directed h.zeroForOne (declared h.pool)).2 out := by
  have hPaid : ∀ t, Moves token self (do
      let amountOut ← decodeWord 256 (← ext (.getAmountOut h.pool amountIn t)) 0
      transfer ext t h.pool amountIn
      let (a0, a1) := if h.zeroForOne then (0#256, amountOut) else (amountOut, 0#256)
      let _ ← ext (.pairSwap h.pool a0 a1 self)
      return amountOut) (inToken token t amountIn)
      fun out => inToken token (directed h.zeroForOne (declared h.pool)).2 out := by
    intro t
    refine (hFair.getAmountOut amountIn t).then fun reply => ?_
    refine Moves.past (decodeWord_keeps _ _ _) fun amountOut => ?_
    refine (transfer_moves hLedger _ _ _).bind fun _ => ?_
    cases h.zeroForOne with
    | false =>
      refine (hFair.pairSwap amountOut 0#256).bind fun _ => ?_
      exact (Moves.pure amountOut _).weaken (Nat.le_add_right _ _) fun _ => Nat.le_refl _
    | true =>
      refine (hFair.pairSwap 0#256 amountOut).bind fun _ => ?_
      exact (Moves.pure amountOut _).weaken (Nat.le_add_left _ _) fun _ => Nat.le_refl _
  unfold _swapAero
  cases hDir : h.zeroForOne with
  | false =>
    rw [hDir] at hPaid
    exact Moves.reads (token1_reads hFair) (hPaid _)
  | true =>
    rw [hDir] at hPaid
    exact Moves.reads (token0_reads hFair) (hPaid _)

theorem setWorld_moves {f : World → World} (hKept : ∀ w, (f w).balance = w.balance) :
    Moves token self (setWorld f : Exec E Unit) 0 fun _ => 0 := by
  rintro st r ⟨⟩
  have hSame : (f st.world).holding token self = st.world.holding token self :=
    congrArg (fun balance => (balance token self).toNat) (hKept st.world)
  exact hSame.ge

theorem _swapV3_moves (hFair : FairPool token self declared ext h.pool) (amountIn : U256) :
    Moves token self (_swapV3 self ext h amountIn)
      (inToken token (directed h.zeroForOne (declared h.pool)).1 amountIn)
      fun out => inToken token (directed h.zeroForOne (declared h.pool)).2 out := by
  refine Moves.then (setWorld_moves fun _ => rfl) fun _ => ?_
  refine (hFair.v3Swap h.zeroForOne amountIn _).bind fun reply => ?_
  intro st r hRun
  obtain ⟨amount0, st₁, hFirst, hAfter⟩ := bind_eq_ok.mp hRun
  obtain ⟨amount1, st₂, hSecond, hThen⟩ := bind_eq_ok.mp hAfter
  obtain ⟨hWord0, hKept⟩ := decodeWord_ok hFirst
  obtain rfl : st₁ = st := hKept
  obtain ⟨hWord1, hKept⟩ := decodeWord_ok hSecond
  obtain rfl : st₂ = st₁ := hKept
  obtain ⟨_, st₃, hClear, hNeg⟩ := bind_eq_ok.mp hThen
  cases hClear
  have hOut : r.1 = reportedOutput h.zeroForOne reply := by
    rw [checkedNeg_ok hNeg, reportedOutput]
    cases h.zeroForOne with
    | false => exact congrArg (- ·) (List.getD_eq_getElem?_getD.trans (congrArg (·.getD 0#256) hWord0)).symm
    | true => exact congrArg (- ·) (List.getD_eq_getElem?_getD.trans (congrArg (·.getD 0#256) hWord1)).symm
  rw [hOut, checkedNeg_keeps _ _ _ hNeg]
  exact Nat.le_refl _

end Hops

section Segments

variable {E : Type} {token self : Address} {ext : Handler E}

theorem inToken_zero (currency : Address) : inToken token currency 0#256 = 0 := by
  unfold inToken
  split <;> rfl

theorem settleInput_moves (hLedger : StandardLedger token self ext) (inCur : Address) (amountIn : U256) :
    Moves token self (settleInput ext inCur amountIn) (inToken token (asToken inCur) amountIn) fun _ => 0 := by
  have hSettled : ∀ reply : List U256, Moves token self (do
      let _ ← decodeWord 256 reply 0
      return () : Exec E Unit) 0 fun _ => 0 :=
    fun reply => Moves.past (decodeWord_keeps _ _ _) fun _ => Moves.pure () fun _ => 0
  unfold settleInput asToken
  split
  · exact (hLedger.wethWithdraw amountIn).bind fun _ => (hLedger.settle amountIn).bind hSettled
  · refine (hLedger.sync inCur).then fun _ => ?_
    refine (transfer_moves hLedger _ _ _).bind fun _ => ?_
    have hSettle := hLedger.settle 0#256
    rw [inToken_zero] at hSettle
    exact hSettle.bind hSettled

theorem takeOutput_moves (hLedger : StandardLedger token self ext) (outCur : Address) (amount : U256) :
    Moves token self (takeOutput self ext outCur amount) 0
      fun _ => inToken token (asToken outCur) amount := by
  unfold takeOutput asToken
  split
  · refine (hLedger.take zeroAddress amount).bind fun _ => ?_
    exact (hLedger.wethDeposit amount).bind fun _ => Moves.pure () fun _ => inToken token WETH amount
  · exact (hLedger.take outCur amount).bind fun _ => Moves.pure () fun _ => inToken token outCur amount

theorem segmentSwaps_moves (hLedger : StandardLedger token self ext) (keys : List V4Key) (dirs : List Bool)
    (rest : List V4Key) (k : Nat) (amount : U256) :
    Moves token self (segmentSwaps ext keys dirs rest k amount) 0 fun _ => 0 := by
  induction rest generalizing k amount with
  | nil => exact Moves.pure amount fun _ => 0
  | cons key rest ih =>
    refine Moves.past (index_keeps _ _) fun dir => ?_
    refine Moves.then ?_ fun _ => ih _ _
    refine Moves.past (checkedNeg_keeps _) fun specified => ?_
    refine (hLedger.managerSwap _ _ _ _ _).then fun reply => ?_
    refine Moves.past (decodeWord_keeps _ _ _) fun delta => ?_
    exact Moves.past (require_keeps _ _) fun _ => Moves.pure _ fun _ => 0

theorem unlockCallback_moves (hLedger : StandardLedger token self ext) {data : UnlockData}
    {first last : V4Key} {firstDir lastDir : Bool} (hFirst : data.keys[0]? = some first)
    (hFirstDir : data.dirs[0]? = some firstDir) (hLast : data.keys[data.keys.length - 1]? = some last)
    (hLastDir : data.dirs[data.keys.length - 1]? = some lastDir) (sender : Address) :
    Moves token self (unlockCallback self ext sender (some data))
      (inToken token (asToken (first.currencies firstDir).1) data.amountIn)
      fun reply => inToken token (asToken (last.currencies lastDir).2) (reply.getD 0 0#256) := by
  have hIn : (if firstDir then first.currency0 else first.currency1) = (first.currencies firstDir).1 := by
    cases firstDir <;> rfl
  have hOut : (if lastDir then last.currency1 else last.currency0) = (last.currencies lastDir).2 := by
    cases lastDir <;> rfl
  refine Moves.past (require_keeps _ _) fun _ => ?_
  refine Moves.past getWorld_reads.keeps fun w => ?_
  refine Moves.past (require_keeps _ _) fun _ => ?_
  refine (segmentSwaps_moves hLedger _ _ _ _ _).then fun amount => ?_
  refine Moves.reads (index_reads hFirst) (Moves.reads (index_reads hFirstDir) ?_)
  dsimp only
  rw [hIn]
  refine (settleInput_moves hLedger _ _).bind fun _ => ?_
  refine Moves.reads (index_reads hLast) (Moves.reads (index_reads hLastDir) ?_)
  rw [hOut]
  exact (takeOutput_moves hLedger _ _).bind fun _ =>
    Moves.pure [amount] fun reply => inToken token (asToken (last.currencies lastDir).2) (reply.getD 0 0#256)

end Segments

section Routes

variable {E : Type} {token self : Address} {declared : Address → Address × Address} {ext : Handler E}
  {hops : List Hop} {keys : List V4Key}

theorem tokens_of_key {h : Hop} {k : V4Key} (hManager : ¬ h.InPool) (hKey : keys[h.feeBps.toNat]? = some k) :
    h.tokens declared keys =
      (asToken (k.currencies h.zeroForOne).1, asToken (k.currencies h.zeroForOne).2) := by
  unfold Hop.tokens Hop.currencies
  rw [if_neg hManager, if_neg hManager, hKey]

/-- What the rest of the route takes out of the token: its next input. -/
def owed (token : Address) (declared : Address → Address × Address) (keys : List V4Key) (hops : List Hop)
    (i : Nat) (amount : U256) : Nat :=
  match hops[i]? with
  | some h => inToken token (h.tokens declared keys).1 amount
  | none => 0

theorem owed_eq {i : Nat} {h : Hop} (hHop : hops[i]? = some h) (amount : U256) :
    owed token declared keys hops i amount = inToken token (h.tokens declared keys).1 amount := by
  unfold owed
  rw [hHop]

theorem owed_next_le (hConnected : Connected declared keys hops) {i : Nat} {h : Hop}
    (hHop : hops[i]? = some h) (out : U256) :
    owed token declared keys hops (i + 1) out ≤ inToken token (h.tokens declared keys).2 out := by
  cases hNext : hops[i + 1]? with
  | none =>
    unfold owed
    rw [hNext]
    exact Nat.zero_le _
  | some h' => rw [owed_eq hNext, hConnected.next declared keys hHop hNext]

theorem _runV4Segment_moves (hVenues : FairVenues token self declared hops ext) {i j : Nat} {first last : Hop}
    (hForward : i < j) (hFirst : hops[i]? = some first) (hLast : hops[j - 1]? = some last)
    (hFirstV4 : ¬ first.InPool) (hLastV4 : ¬ last.InPool) (amountIn : U256) :
    Moves token self (_runV4Segment ext hops keys i j amountIn)
      (inToken token (first.tokens declared keys).1 amountIn)
      fun out => inToken token (last.tokens declared keys).2 out := by
  intro st r hRun
  obtain ⟨⟨segKeys, dirs⟩, st₁, hKeys, hBody⟩ := bind_eq_ok.mp hRun
  obtain ⟨hLookup, hDirs, hKept⟩ := segmentKeys_ok hKeys
  obtain rfl : st₁ = st := hKept
  obtain ⟨_, st₂, hSet, hOpened⟩ := bind_eq_ok.mp hBody
  cases hSet
  obtain ⟨reply, st₃, hUnlock, hReplied⟩ := bind_eq_ok.mp hOpened
  obtain ⟨_, st₄, hClear, hDecode⟩ := bind_eq_ok.mp hReplied
  cases hClear
  obtain ⟨hWord, hKept⟩ := decodeWord_ok hDecode
  obtain ⟨inner, s₁, s₂, hLedger, hBefore, hCallback, hAfter⟩ := hVenues.unlock _ _ _ _ hUnlock
  dsimp only at hDirs
  subst hDirs
  obtain ⟨firstKey, lastKey, hFirstKey, hFirstAt, hFirstDir, hLastKey, hLastAt, hLastDir⟩ :=
    segment_ends hLookup ((getElem?_segment hops (Nat.sub_pos_of_lt hForward)).trans hFirst)
      (segment_last hForward hLast)
  have hSegment : Moves token self (unlockCallback self inner POOL_MANAGER (some ⟨segKeys, _, amountIn⟩)) _ _ :=
    unlockCallback_moves hLedger hFirstAt hFirstDir hLastAt hLastDir POOL_MANAGER
  have hMoves := hSegment s₁ _ hCallback
  have hOut : reply.getD 0 0#256 = r.1 := List.getD_eq_getElem?_getD.trans (congrArg (·.getD 0#256) hWord)
  rw [tokens_of_key hFirstV4 hFirstKey, tokens_of_key hLastV4 hLastKey, hKept]
  dsimp only at hMoves ⊢
  rw [hOut] at hMoves
  change st₁.holding token self ≤ _ at hBefore
  change st₁.holding token self + _ ≤ st₃.holding token self + _
  omega

theorem runHopsFrom_moves (hVenues : FairVenues token self declared hops ext)
    (hConnected : Connected declared keys hops) (n i : Nat) (amount : U256) :
    Moves token self (runHopsFrom self ext hops keys n i amount) (owed token declared keys hops i amount)
      fun _ => 0 := by
  induction n generalizing i amount with
  | zero => exact (Moves.pure amount fun _ => 0).weaken (Nat.zero_le _) fun _ => Nat.le_refl 0
  | succ n ih =>
    unfold runHopsFrom
    cases hHop : hops[i]? with
    | none => exact (Moves.pure amount fun _ => 0).weaken (Nat.zero_le _) fun _ => Nat.le_refl 0
    | some hop =>
      rw [owed_eq hHop]
      have hMem : hop ∈ hops := List.mem_of_getElem? hHop
      have hNext : ∀ out, Moves token self (runHopsFrom self ext hops keys n (i + 1) out)
          (inToken token (hop.tokens declared keys).2 out) fun _ => 0 :=
        fun out => (ih (i + 1) out).weaken (owed_next_le hConnected hHop out) fun _ => Nat.le_refl 0
      dsimp only
      split
      next hKind =>
        have hPool : hop.InPool := .inl hKind
        rw [tokens_of_inPool hPool] at hNext ⊢
        exact (_swapV2_moves hVenues.ledger (hVenues.pools hop hMem hPool) amount).bind hNext
      next hNotV2 =>
      split
      next hKind =>
        have hPool : hop.InPool := .inr (.inl hKind)
        rw [tokens_of_inPool hPool] at hNext ⊢
        exact (_swapAero_moves hVenues.ledger (hVenues.pools hop hMem hPool) amount).bind hNext
      next hNotAero =>
      split
      next hKind =>
        have hPool : hop.InPool := .inr (.inr hKind)
        rw [tokens_of_inPool hPool] at hNext ⊢
        exact (_swapV3_moves (hVenues.pools hop hMem hPool) amount).bind hNext
      next hNotV3 =>
        have hManager : ¬ hop.InPool := fun hPool =>
          hPool.elim hNotV2 fun hPool => hPool.elim hNotAero hNotV3
        intro st r hRun
        obtain ⟨hi, -⟩ := List.getElem?_eq_some_iff.mp hHop
        obtain ⟨j, st₁, hEnd, hRest⟩ := bind_eq_ok.mp hRun
        obtain ⟨hForward, hBound, hKinds, hKept⟩ := segmentEnd_ok hi hEnd
        dsimp only at hForward hBound hKinds hKept
        obtain rfl : st₁ = st := hKept
        obtain ⟨last, hLast⟩ : ∃ last, hops[j - 1]? = some last :=
          ⟨_, List.getElem?_eq_getElem (by omega)⟩
        have hLastV4 : ¬ last.InPool := by
          rcases Nat.eq_or_lt_of_le hForward with hOne | hMore
          · have hSame : j - 1 = i := by omega
            rw [hSame] at hLast
            cases hHop.symm.trans hLast
            exact hManager
          · exact not_inPool_of_kind (hKinds (j - 1) last (by omega) (by omega) hLast)
        have hJoin : j - 1 + 1 = j := by omega
        have hAfter : ∀ out, owed token declared keys hops (j - 1 + 1) out ≤ _ := owed_next_le hConnected hLast
        rw [hJoin] at hAfter
        exact (_runV4Segment_moves hVenues hForward hHop hLast hManager hLastV4 amount).bind
          (fun out => (ih j out).weaken (hAfter out) fun _ => Nat.le_refl 0) _ _ hRest

theorem guardedHops_moves {anchor : Address} (hToken : token ≠ anchor)
    (hVenues : FairVenues token self declared hops ext) (hClosed : ClosedCycle declared keys anchor hops)
    (amountIn minProfit : U256) :
    Moves token self (guardedHops self ext hops keys anchor amountIn minProfit) 0 fun _ => 0 := by
  have hOwed : owed token declared keys hops 0 amountIn = 0 := by
    cases hHead : hops[0]? with
    | none =>
      unfold owed
      rw [hHead]
    | some h =>
      rw [owed_eq hHead, hClosed.starts h (List.head?_eq_getElem?.trans hHead)]
      exact if_neg hToken.symm
  have hHops := runHopsFrom_moves hVenues hClosed.connected hops.length 0 amountIn
  rw [hOwed] at hHops
  have hRead : Moves token self (balanceOf ext anchor self) 0 fun _ => 0 :=
    (hVenues.ledger.balanceOf anchor self).then fun _ => Moves.of_keeps (decodeWord_keeps _ _ _)
  refine hRead.then fun start => hHops.then fun _ => hRead.then fun stop => ?_
  exact Moves.past (checkedAdd_keeps _ _) fun bar => Moves.of_keeps (require_keeps _ _)

/-- With fair venues the contract keeps what it holds of every token but the anchor, in
both funding modes. -/
theorem executeArb_keeps_other_tokens (self token anchor : Address)
    (declared : Address → Address × Address) (ext : Handler E) (sender : Address) (hops : List Hop)
    (v4Keys : List V4Key) (amountIn minProfit : U256) (useFlashloan : Bool) (st st' : State E)
    (hToken : token ≠ anchor) (hClosed : ClosedCycle declared v4Keys anchor hops)
    (hVenues : FairVenues token self declared hops ext)
    (hLoan : LendsAmongFair token self anchor declared hops ext)
    (hRun : executeArb self ext sender hops v4Keys anchor amountIn minProfit useFlashloan st =
      .ok ((), st')) :
    (st.world.balance token self).toNat ≤ (st'.world.balance token self).toNat := by
  obtain ⟨_, s₁, hExecutor, hBody⟩ := bind_eq_ok.mp hRun
  obtain ⟨-, hKept⟩ := onlyExecutor_ok hExecutor
  cases hKept
  cases useFlashloan with
  | false => exact guardedHops_moves hToken hVenues hClosed amountIn minProfit _ _ hBody
  | true =>
    obtain ⟨_, s₂, hSet, hLend⟩ := bind_eq_ok.mp hBody
    cases hSet
    obtain ⟨reply, s₃, hFlash, hReset⟩ := bind_eq_ok.mp hLend
    cases hReset
    obtain ⟨inner, st₁, st₂, hInner, hIn, hCallback, hOut⟩ := hLoan _ _ _ _ _ hFlash
    obtain ⟨-, -, hGuarded⟩ := onMorphoFlashLoan_ok hCallback
    have hBorrowed := World.move_other hIn hToken self
    have hRepaid := World.move_other hOut hToken self
    have hHeld := guardedHops_moves hToken hInner hClosed amountIn minProfit _ _ hGuarded
    change st.world.holding token self ≤ s₃.world.holding token self
    change st₁.world.holding token self + 0 ≤ st₂.world.holding token self + 0 at hHeld
    change _ = st.world.holding token self at hBorrowed
    omega

end Routes

section Heist

def sampleMiddle : Address := 0xB0B0#160

def sampleIdle : Address := 0x1D7E#160

def sampleReturnPool : Address := 0x9002#160

/-- The first pool goes from the anchor to the middle token, the second one back. -/
def heistTokens (pool : Address) : Address × Address :=
  if pool = samplePool then (sampleAnchor, sampleMiddle) else (sampleMiddle, sampleAnchor)

def heistHops : List Hop := [⟨2#8, samplePool, true, 0#16⟩, ⟨2#8, sampleReturnPool, true, 0#16⟩]

/-- The contract holds 1000 of the anchor and, aside, 50 of a token no hop trades. -/
def heistWorld : World :=
  { sampleWorld with
    balance := fun token account =>
      if account = sampleSelf then
        if token = sampleAnchor then 1000#256 else if token = sampleIdle then 50#256 else 0#256
      else if account = samplePool ∧ token = sampleMiddle then 500#256
      else if account = sampleReturnPool ∧ token = sampleAnchor then 1010#256
      else 0#256 }

/-- The first pool calls back twice, for its input and for the 50. -/
def heistScripts : List Script :=
  [.mk
    [.reenter samplePool (.uniswapV3SwapCallback 1000#256 0#256) [.mk [] (some [sampleAnchor.setWidth 256])],
      .reenter samplePool (.uniswapV3SwapCallback 50#256 0#256) [.mk [] (some [sampleIdle.setWidth 256])],
      .move sampleMiddle samplePool sampleSelf 500#256]
    (some [1000#256, -500#256]),
    .mk
      [.reenter sampleReturnPool (.uniswapV3SwapCallback 500#256 0#256)
        [.mk [] (some [sampleMiddle.setWidth 256])],
        .move sampleAnchor sampleReturnPool sampleSelf 1010#256]
      (some [500#256, -1010#256])]

def heistRun : Except Revert (Unit × State (List Script)) :=
  executeArb sampleSelf (scripted sampleSelf (fun _ => true) 2) sampleBot heistHops [] sampleAnchor 1000#256 5#256
    false ⟨heistWorld, heistScripts⟩

/-- A route that closes, a run that pays its profit, and the idle token gone. -/
theorem heist_takes_idle_token :
    sampleIdle ≠ sampleAnchor ∧ ClosedCycle heistTokens [] sampleAnchor heistHops ∧
      (heistWorld.balance sampleIdle sampleSelf).toNat = 50 ∧
      ∃ st', heistRun = .ok ((), st') ∧ (st'.world.balance sampleIdle sampleSelf).toNat = 0 := by
  refine ⟨by decide, ⟨?_, ?_, ?_⟩, by decide, ?_⟩
  · unfold Connected
    decide
  · decide
  · decide
  have hLeft : (heistRun.toOption.map fun r => (r.2.world.balance sampleIdle sampleSelf).toNat) = some 0 := by
    decide +kernel
  cases hRun : heistRun with
  | error reason =>
    rw [hRun] at hLeft
    cases hLeft
  | ok r =>
    rw [hRun] at hLeft
    exact ⟨r.2, rfl, Option.some.inj hLeft⟩

end Heist

section FairRun

variable {E : Type} {token account : Address}

theorem moveTokens_pays {t source : Address} {amount : U256} (hOther : source ≠ account) :
    Moves token account (moveTokens t source account amount : Exec E Unit) 0
      fun _ => inToken token t amount := by
  intro st r hRun
  have hMove := moveTokens_ok hRun
  change st.world.holding token account + inToken token t amount ≤ r.2.world.holding token account + 0
  unfold inToken
  split
  next hSame =>
    have hBooked := World.move_holding hMove account
    rw [if_neg hOther.symm, if_pos rfl] at hBooked
    rw [← hSame]
    exact hBooked.ge
  next hElse => exact (World.move_other hMove (fun hSame => hElse hSame.symm) account).ge

theorem moveTokens_costs {t recipient : Address} {amount : U256} :
    Moves token account (moveTokens t account recipient amount : Exec E Unit) (inToken token t amount)
      fun _ => 0 := by
  intro st r hRun
  have hMove := moveTokens_ok hRun
  change st.world.holding token account + 0 ≤ r.2.world.holding token account + inToken token t amount
  unfold inToken
  split
  next hSame =>
    have hBooked := World.move_holding hMove account
    rw [if_pos rfl] at hBooked
    rw [← hSame]
    omega
  next hElse => exact (World.move_other hMove (fun hSame => hElse hSame.symm) account).ge

def pairTokens : Address → Address × Address := fun _ => (sampleAnchor, sampleMiddle)

/-- Two pairs of the same tokens that hold what they quote from. -/
def pairs : Handler Unit
  | .balanceOf token account => do return [(← getWorld).balance token account]
  | .transfer token recipient amount => do
    moveTokens token sampleSelf recipient amount
    return [1#256]
  | .token0 _ => return [sampleAnchor.setWidth 256]
  | .token1 _ => return [sampleMiddle.setWidth 256]
  | .getReserves pool => do
    let w ← getWorld
    return [w.balance sampleAnchor pool, w.balance sampleMiddle pool, 0#256]
  | .pairSwap pool amount0Out amount1Out recipient =>
    if pool = recipient then revert .foreign
    else do
      moveTokens sampleAnchor pool recipient amount0Out
      moveTokens sampleMiddle pool recipient amount1Out
      return []
  | _ => revert .foreign

theorem Moves.fails {α : Type} {x : Exec E α} {down : Nat} {up : α → Nat}
    (hFails : ∀ st, ∃ reason, x st = .error reason) : Moves token account x down up := by
  intro st r hRun
  obtain ⟨reason, hError⟩ := hFails st
  cases hError.symm.trans hRun

theorem pairs_ledger : StandardLedger token sampleSelf pairs where
  balanceOf _ _ := Moves.past getWorld_reads.keeps fun _ => Moves.pure _ fun _ => 0
  transfer _ _ _ := moveTokens_costs.bind fun _ => Moves.pure _ fun _ => 0
  wethWithdraw _ := Moves.fails fun _ => ⟨.foreign, rfl⟩
  wethDeposit _ := Moves.fails fun _ => ⟨.foreign, rfl⟩
  managerSwap _ _ _ _ _ := Moves.fails fun _ => ⟨.foreign, rfl⟩
  sync _ := Moves.fails fun _ => ⟨.foreign, rfl⟩
  settle _ := Moves.fails fun _ => ⟨.foreign, rfl⟩
  take _ _ := Moves.fails fun _ => ⟨.foreign, rfl⟩

theorem pairs_fair (pool : Address) : FairPool token sampleSelf pairTokens pairs pool where
  token0 _ := rfl
  token1 _ := rfl
  getReserves := Moves.past getWorld_reads.keeps fun _ => Moves.pure _ fun _ => 0
  getAmountOut _ _ := Moves.fails fun _ => ⟨.foreign, rfl⟩
  pairSwap amount0Out amount1Out := by
    unfold pairs
    dsimp only
    split
    · exact Moves.fails fun _ => ⟨.foreign, rfl⟩
    next hOther =>
      have hSecond : Moves token sampleSelf (moveTokens sampleMiddle pool sampleSelf amount1Out : Exec Unit Unit)
          (inToken token sampleAnchor amount0Out) fun _ =>
            inToken token sampleAnchor amount0Out + inToken token sampleMiddle amount1Out :=
        ((moveTokens_pays hOther).frame _).weaken (Nat.zero_add _).le fun _ => (Nat.add_comm _ _).le
      exact (moveTokens_pays hOther).bind fun _ => hSecond.bind fun _ => Moves.pure []
        fun _ => inToken token sampleAnchor amount0Out + inToken token sampleMiddle amount1Out
  v3Swap _ _ _ := Moves.fails fun _ => ⟨.foreign, rfl⟩

/-- Besides the route's 1000 the contract holds 50 of the middle token. -/
def pairsWorld : World :=
  { sampleWorld with
    balance := fun token account =>
      if account = sampleSelf then
        if token = sampleAnchor then 1000#256 else if token = sampleMiddle then 50#256 else 0#256
      else if account = samplePool then if token = sampleAnchor then 10000#256 else 20000#256
      else if account = sampleReturnPool then if token = sampleAnchor then 30000#256 else 20000#256
      else 0#256 }

def pairsHops : List Hop := [⟨0#8, samplePool, true, 30#16⟩, ⟨0#8, sampleReturnPool, false, 30#16⟩]

def pairsRun : Except Revert (Unit × State Unit) :=
  executeArb sampleSelf pairs sampleBot pairsHops [] sampleAnchor 1000#256 5#256 false ⟨pairsWorld, ()⟩

theorem pairsRun_keeps_middle :
    ∃ st', pairsRun = .ok ((), st') ∧ 50 ≤ (st'.world.balance sampleMiddle sampleSelf).toNat := by
  have hEnds : pairsRun.toOption.isSome = true := by decide +kernel
  cases hRun : pairsRun with
  | error reason =>
    rw [hRun] at hEnds
    cases hEnds
  | ok r =>
    refine ⟨r.2, rfl, ?_⟩
    have hClosed : ClosedCycle pairTokens [] sampleAnchor pairsHops := by
      refine ⟨?_, by decide, by decide⟩
      unfold Connected
      decide
    have hVenues : FairVenues sampleMiddle sampleSelf pairTokens pairsHops pairs :=
      ⟨pairs_ledger, fun hop _ _ => pairs_fair hop.pool, by rintro data st reply st' ⟨⟩⟩
    have hLoan : LendsAmongFair sampleMiddle sampleSelf sampleAnchor pairTokens pairsHops pairs := by
      rintro assets data st reply st' ⟨⟩
    exact executeArb_keeps_other_tokens sampleSelf sampleMiddle sampleAnchor pairTokens pairs sampleBot pairsHops []
      1000#256 5#256 false ⟨pairsWorld, ()⟩ r.2 (by decide) hClosed hVenues hLoan hRun

end FairRun

end Robinarb.ArbExecutor
