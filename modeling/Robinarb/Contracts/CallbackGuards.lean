import Robinarb.Contracts.Interactions
import Mathlib.Data.List.Basic

/-! # The transient guards

`expectedCaller`, `inFlight` and `inV4` are set right before the request they guard and
cleared right after it. Around every request, and at the end of every call, they say no
more than what is pending.
-/

namespace Robinarb.ArbExecutor

open CallStack

/-- A call as the contract sees it come in. -/
structure Incoming where
  sender : Address
  call : Call

def Call.isExecuteArb : Call → Bool
  | .executeArb .. => true
  | _ => false

/-- The pool of a V3 or Algebra hop that is being swapped. -/
def Request.swapPool : Request → Option Address
  | .v3Swap pool .. => some pool
  | _ => none

def Request.isUnlock : Request → Bool
  | .unlock _ => true
  | _ => false

def Request.isFlashLoan : Request → Bool
  | .flashLoan .. => true
  | _ => false

/-- The requests that wait for an answer, innermost first, and the calls that made them. -/
abbrev Pending := List (Incoming × Request)

def currentPool (stack : Pending) : Option Address := stack.findSome? fun p => p.2.swapPool

def InUnlock (stack : Pending) : Prop := ∃ p ∈ stack, p.2.isUnlock = true

def InFlashLoan (stack : Pending) : Prop := ∃ p ∈ stack, p.2.isFlashLoan = true

def InExecuteArb (stack : Pending) : Prop := ∃ p ∈ stack, p.1.call.isExecuteArb = true

/-- A request that a guard is open for. -/
def Request.isGuarded (request : Request) : Bool :=
  request.swapPool.isSome || request.isUnlock || request.isFlashLoan

def OpenedByArb (stack : Pending) : Prop := ∀ p ∈ stack, p.2.isGuarded = true → InExecuteArb stack

structure Guarded (stack : Pending) (w : World) : Prop where
  caller : w.expectedCaller ≠ zeroAddress → currentPool stack = some w.expectedCaller
  flight : w.inFlight = true → InFlashLoan stack
  v4 : w.inV4 = true → InUnlock stack
  opened : OpenedByArb stack

/-- The invariant, and a fact about the stack. -/
def Within (stack : Pending) (φ : Prop) (w : World) : Prop := Guarded stack w ∧ φ

/-- A request is made, and answered, with the guards as the stack with it says. -/
def Asked (incoming : Incoming) (stack : Pending) (request : Request) : World → Prop :=
  Guarded ((incoming, request) :: stack)

section Stack

variable {incoming : Incoming} {request : Request} {stack : Pending} {w : World}

theorem not_isGuarded (hQuiet : request.isGuarded = false) :
    request.swapPool = none ∧ request.isUnlock = false ∧ request.isFlashLoan = false := by
  obtain ⟨hPoolOrUnlock, hFlash⟩ := Bool.or_eq_false_iff.mp hQuiet
  obtain ⟨hPool, hUnlock⟩ := Bool.or_eq_false_iff.mp hPoolOrUnlock
  exact ⟨Option.isNone_iff_eq_none.mp (Option.isSome_eq_false_iff.mp hPool), hUnlock, hFlash⟩

theorem currentPool_cons (hPool : request.swapPool = none) :
    currentPool ((incoming, request) :: stack) = currentPool stack := by
  unfold currentPool
  rw [List.findSome?_cons]
  simp only [hPool]

theorem inUnlock_cons (hUnlock : request.isUnlock = false) :
    InUnlock ((incoming, request) :: stack) ↔ InUnlock stack := by
  unfold InUnlock
  rw [List.exists_mem_cons_iff]
  exact or_iff_right fun hOpen => Bool.false_ne_true (hUnlock.symm.trans hOpen)

theorem inFlashLoan_cons (hFlash : request.isFlashLoan = false) :
    InFlashLoan ((incoming, request) :: stack) ↔ InFlashLoan stack := by
  unfold InFlashLoan
  rw [List.exists_mem_cons_iff]
  exact or_iff_right fun hOpen => Bool.false_ne_true (hFlash.symm.trans hOpen)

theorem InExecuteArb.cons (hIn : InExecuteArb stack) : InExecuteArb ((incoming, request) :: stack) := by
  obtain ⟨p, hp, hArb⟩ := hIn
  exact ⟨p, List.mem_cons_of_mem _ hp, hArb⟩

theorem Guarded.push (hGuarded : Guarded stack w) (hQuiet : request.isGuarded = false) :
    Guarded ((incoming, request) :: stack) w := by
  obtain ⟨hPool, hUnlock, hFlash⟩ := not_isGuarded hQuiet
  constructor
  · intro hCaller
    exact (currentPool_cons hPool).trans (hGuarded.caller hCaller)
  · intro hFlight
    exact (inFlashLoan_cons hFlash).mpr (hGuarded.flight hFlight)
  · intro hV4
    exact (inUnlock_cons hUnlock).mpr (hGuarded.v4 hV4)
  · rintro p hp hOpen
    cases hp with
    | head => exact absurd hOpen (hQuiet ▸ Bool.false_ne_true)
    | tail _ hp => exact (hGuarded.opened p hp hOpen).cons

theorem Guarded.pop {w' : World} (hGuarded : Guarded stack w) (hQuiet : request.isGuarded = false)
    (hReply : Guarded ((incoming, request) :: stack) w') : Guarded stack w' := by
  obtain ⟨hPool, hUnlock, hFlash⟩ := not_isGuarded hQuiet
  constructor
  · intro hCaller
    exact (currentPool_cons hPool).symm.trans (hReply.caller hCaller)
  · intro hFlight
    exact (inFlashLoan_cons hFlash).mp (hReply.flight hFlight)
  · intro hV4
    exact (inUnlock_cons hUnlock).mp (hReply.v4 hV4)
  · exact hGuarded.opened

end Stack

/-- Ends, if it ends, with the guards as it found them in the stack below it. -/
abbrev Stays (incoming : Incoming) (stack : Pending) (φ : Prop) {α : Type} (x : Code α) : Prop :=
  Does (Asked incoming stack) (Within stack φ) x fun _ => Within stack φ

section Parts

variable {incoming : Incoming} {stack : Pending} {φ : Prop} {α β : Type}

theorem Stays.bind {x : Code α} {f : α → Code β} (hFirst : Stays incoming stack φ x)
    (hNext : ∀ a, Stays incoming stack φ (f a)) :
    Stays incoming stack φ (fun E ext => x E ext >>= fun a => f a E ext) :=
  Does.bind hFirst hNext

theorem Stays.pure (a : α) : Stays incoming stack φ (fun _ _ => pure a) := Does.pure fun _ hw => hw

theorem Stays.require (condition : Bool) (reason : Revert) :
    Stays incoming stack φ (fun _ _ => require condition reason) :=
  Does.require.mono (fun _ hw => hw) fun _ _ h => h.2

theorem Stays.quiet (request : Request) (hQuiet : request.isGuarded = false) :
    Stays incoming stack φ (fun _ ext => ext request) := by
  apply Does.request
  · intro w hw
    exact hw.1.push hQuiet
  · intro w w' hw hReply
    exact ⟨hw.1.pop hQuiet hReply, hw.2⟩

theorem Stays.setWorld {f : World → World}
    (hKept : ∀ w, (f w).expectedCaller = w.expectedCaller ∧ (f w).inFlight = w.inFlight ∧
      (f w).inV4 = w.inV4) : Stays incoming stack φ (fun _ _ => setWorld f) := by
  apply Does.setWorld
  rintro w ⟨hGuarded, hφ⟩
  obtain ⟨hCaller, hFlight, hV4⟩ := hKept w
  refine ⟨⟨?_, ?_, ?_, hGuarded.opened⟩, hφ⟩
  · rw [hCaller]
    exact hGuarded.caller
  · rw [hFlight]
    exact hGuarded.flight
  · rw [hV4]
    exact hGuarded.v4

end Parts

section Steady

variable {α : Type} {Ask : Request → World → Prop} {P : World → Prop}

theorem index_does (xs : List α) (i : Nat) : Does Ask P (fun _ _ => index xs i) fun _ => P := by
  unfold index
  cases xs[i]? with
  | none => exact Does.revert
  | some x => exact Does.pure fun _ hw => hw

theorem decodeWord_does (bits : Nat) (reply : List U256) (i : Nat) :
    Does Ask P (fun _ _ => decodeWord bits reply i) fun _ => P := by
  unfold decodeWord
  cases reply[i]? with
  | none => exact Does.revert
  | some word =>
    dsimp only
    split
    · exact Does.pure fun _ hw => hw
    · exact Does.revert

theorem decodeAddress_does (reply : List U256) :
    Does Ask P (fun _ _ => decodeAddress reply) fun _ => P :=
  Does.bind (decodeWord_does 160 reply 0) fun _ => Does.pure fun _ hw => hw

theorem checkedAdd_does (a b : U256) :
    Does Ask P (fun _ _ => checkedAdd a b) fun _ => P := by
  unfold checkedAdd
  split
  · exact Does.pure fun _ hw => hw
  · exact Does.revert

theorem checkedMul_does (a b : U256) :
    Does Ask P (fun _ _ => checkedMul a b) fun _ => P := by
  unfold checkedMul
  split
  · exact Does.pure fun _ hw => hw
  · exact Does.revert

theorem checkedDiv_does (a b : U256) :
    Does Ask P (fun _ _ => checkedDiv a b) fun _ => P := by
  unfold checkedDiv
  split
  · exact Does.revert
  · exact Does.pure fun _ hw => hw

theorem checkedNeg_does (x : I256) :
    Does Ask P (fun _ _ => checkedNeg x) fun _ => P := by
  unfold checkedNeg
  split
  · exact Does.revert
  · exact Does.pure fun _ hw => hw

end Steady

section Functions

variable {incoming : Incoming} {stack : Pending} {φ : Prop} (self : Address)

theorem balanceOf_stays (token account : Address) :
    Stays incoming stack φ (fun _ ext => balanceOf ext token account) :=
  (Stays.quiet (.balanceOf token account) rfl).bind fun _ => decodeWord_does ..

theorem transfer_stays (token recipient : Address) (amount : U256) :
    Stays incoming stack φ (fun _ ext => transfer ext token recipient amount) :=
  (Stays.quiet (.transfer token recipient amount) rfl).bind fun _ =>
    (decodeWord_does ..).bind fun _ => Stays.pure ()

theorem token0_stays (pool : Address) : Stays incoming stack φ (fun _ ext => token0 ext pool) :=
  (Stays.quiet (.token0 pool) rfl).bind fun _ => decodeAddress_does _

theorem token1_stays (pool : Address) : Stays incoming stack φ (fun _ ext => token1 ext pool) :=
  (Stays.quiet (.token1 pool) rfl).bind fun _ => decodeAddress_does _

theorem _swapV2_stays (h : Hop) (amountIn : U256) :
    Stays incoming stack φ (fun _ ext => _swapV2 self ext h amountIn) := by
  obtain ⟨kind, pool, zeroForOne, feeBps⟩ := h
  refine (Stays.quiet (.getReserves pool) rfl).bind fun reserves => ?_
  refine Stays.bind (decodeWord_does ..) fun r0 => ?_
  refine Stays.bind (decodeWord_does ..) fun r1 => ?_
  refine Stays.bind (decodeWord_does ..) fun _ => ?_
  cases zeroForOne
  all_goals
    refine Stays.bind ((Stays.quiet _ rfl).bind fun _ => decodeAddress_does _) fun tokenIn => ?_
    refine (Stays.require _ _).bind fun _ => ?_
    refine Stays.bind (checkedMul_does ..) fun amountInWithFee => ?_
    refine Stays.bind (checkedMul_does ..) fun numerator => ?_
    refine Stays.bind (checkedMul_does ..) fun _ => ?_
    refine Stays.bind (checkedAdd_does ..) fun denominator => ?_
    refine Stays.bind (checkedDiv_does ..) fun amountOut => ?_
    refine (transfer_stays ..).bind fun _ => ?_
    exact (Stays.quiet _ rfl).bind fun _ => Stays.pure amountOut

theorem _swapAero_stays (h : Hop) (amountIn : U256) :
    Stays incoming stack φ (fun _ ext => _swapAero self ext h amountIn) := by
  obtain ⟨kind, pool, zeroForOne, feeBps⟩ := h
  cases zeroForOne
  all_goals
    refine Stays.bind ((Stays.quiet _ rfl).bind fun _ => decodeAddress_does _) fun tokenIn => ?_
    refine (Stays.quiet _ rfl).bind fun reply => ?_
    refine Stays.bind (decodeWord_does ..) fun amountOut => ?_
    refine (transfer_stays ..).bind fun _ => ?_
    exact (Stays.quiet _ rfl).bind fun _ => Stays.pure amountOut

/-- The call that asks is `executeArb`, or one is below it. -/
def FromArb (incoming : Incoming) (stack : Pending) : Prop :=
  incoming.call.isExecuteArb = true ∨ InExecuteArb stack

/-- While a guarded request waits. -/
def Waiting (incoming : Incoming) (stack : Pending) (φ : Prop) (request : Request) (w : World) : Prop :=
  Asked incoming stack request w ∧ OpenedByArb stack ∧ φ

theorem request_waits (request : Request) :
    Does (Asked incoming stack) (Waiting incoming stack φ request) (fun _ ext => ext request)
      fun _ => Waiting incoming stack φ request := by
  apply Does.request
  · intro w hw
    exact hw.1
  · intro w w' hw hReply
    exact ⟨hReply, hw.2⟩

theorem FromArb.inExecuteArb {request : Request} (hArb : FromArb incoming stack) :
    InExecuteArb ((incoming, request) :: stack) := by
  cases hArb with
  | inl hCall => exact ⟨_, List.mem_cons_self, hCall⟩
  | inr hBelow => exact hBelow.cons

theorem v3Swap_opens (hArb : φ → FromArb incoming stack) (pool recipient : Address) (zeroForOne : Bool)
    (amount : I256) (limit : U256) :
    Does (Asked incoming stack) (Within stack φ)
      (fun _ _ => setWorld fun w => { w with expectedCaller := pool })
      fun _ => Waiting incoming stack φ (.v3Swap pool recipient zeroForOne amount limit) := by
  apply Does.setWorld
  rintro w ⟨hGuarded, hφ⟩
  refine ⟨⟨?_, ?_, ?_, ?_⟩, hGuarded.opened, hφ⟩
  · exact fun _ => rfl
  · exact fun hFlight => (inFlashLoan_cons rfl).mpr (hGuarded.flight hFlight)
  · exact fun hV4 => (inUnlock_cons rfl).mpr (hGuarded.v4 hV4)
  · exact fun _ _ _ => (hArb hφ).inExecuteArb

theorem v3Swap_closes (pool recipient : Address) (zeroForOne : Bool) (amount : I256) (limit : U256) :
    Does (Asked incoming stack) (Waiting incoming stack φ (.v3Swap pool recipient zeroForOne amount limit))
      (fun _ _ => setWorld fun w => { w with expectedCaller := zeroAddress })
      fun _ => Within stack φ := by
  apply Does.setWorld
  rintro w ⟨hAsked, hOpened, hφ⟩
  refine ⟨⟨?_, ?_, ?_, hOpened⟩, hφ⟩
  · exact fun hOpen => absurd rfl hOpen
  · exact fun hFlight => (inFlashLoan_cons rfl).mp (hAsked.flight hFlight)
  · exact fun hV4 => (inUnlock_cons rfl).mp (hAsked.v4 hV4)

theorem unlock_opens (hArb : φ → FromArb incoming stack) (data : UnlockData) :
    Does (Asked incoming stack) (Within stack φ) (fun _ _ => setWorld fun w => { w with inV4 := true })
      fun _ => Waiting incoming stack φ (.unlock data) := by
  apply Does.setWorld
  rintro w ⟨hGuarded, hφ⟩
  refine ⟨⟨?_, ?_, ?_, ?_⟩, hGuarded.opened, hφ⟩
  · exact fun hOpen => (currentPool_cons rfl).trans (hGuarded.caller hOpen)
  · exact fun hFlight => (inFlashLoan_cons rfl).mpr (hGuarded.flight hFlight)
  · exact fun _ => ⟨_, List.mem_cons_self, rfl⟩
  · exact fun _ _ _ => (hArb hφ).inExecuteArb

theorem unlock_closes (data : UnlockData) :
    Does (Asked incoming stack) (Waiting incoming stack φ (.unlock data))
      (fun _ _ => setWorld fun w => { w with inV4 := false }) fun _ => Within stack φ := by
  apply Does.setWorld
  rintro w ⟨hAsked, hOpened, hφ⟩
  refine ⟨⟨?_, ?_, ?_, hOpened⟩, hφ⟩
  · exact fun hOpen => (currentPool_cons rfl).symm.trans (hAsked.caller hOpen)
  · exact fun hFlight => (inFlashLoan_cons rfl).mp (hAsked.flight hFlight)
  · exact fun hV4 => absurd hV4 Bool.false_ne_true

theorem flashLoan_opens (hArb : φ → FromArb incoming stack) (token : Address) (assets : U256)
    (data : FlashData) :
    Does (Asked incoming stack) (Within stack φ) (fun _ _ => setWorld fun w => { w with inFlight := true })
      fun _ => Waiting incoming stack φ (.flashLoan token assets data) := by
  apply Does.setWorld
  rintro w ⟨hGuarded, hφ⟩
  refine ⟨⟨?_, ?_, ?_, ?_⟩, hGuarded.opened, hφ⟩
  · exact fun hOpen => (currentPool_cons rfl).trans (hGuarded.caller hOpen)
  · exact fun _ => ⟨_, List.mem_cons_self, rfl⟩
  · exact fun hV4 => (inUnlock_cons rfl).mpr (hGuarded.v4 hV4)
  · exact fun _ _ _ => (hArb hφ).inExecuteArb

theorem flashLoan_closes (token : Address) (assets : U256) (data : FlashData) :
    Does (Asked incoming stack) (Waiting incoming stack φ (.flashLoan token assets data))
      (fun _ _ => setWorld fun w => { w with inFlight := false }) fun _ => Within stack φ := by
  apply Does.setWorld
  rintro w ⟨hAsked, hOpened, hφ⟩
  refine ⟨⟨?_, ?_, ?_, hOpened⟩, hφ⟩
  · exact fun hOpen => (currentPool_cons rfl).symm.trans (hAsked.caller hOpen)
  · exact fun hFlight => absurd hFlight Bool.false_ne_true
  · exact fun hV4 => (inUnlock_cons rfl).mp (hAsked.v4 hV4)

theorem _swapV3_stays (hArb : φ → FromArb incoming stack) (h : Hop) (amountIn : U256) :
    Stays incoming stack φ (fun _ ext => _swapV3 self ext h amountIn) := by
  refine Does.bind (v3Swap_opens hArb h.pool self h.zeroForOne amountIn
    (if h.zeroForOne then MIN_SQRT_RATIO else MAX_SQRT_RATIO)) fun _ => ?_
  refine Does.bind (request_waits _) fun reply => ?_
  refine Does.bind (decodeWord_does ..) fun amount0 => ?_
  refine Does.bind (decodeWord_does ..) fun amount1 => ?_
  refine Does.bind (v3Swap_closes ..) fun _ => ?_
  exact checkedNeg_does _

theorem _v4InCurrency_stays (h : Hop) (keys : List V4Key) :
    Stays incoming stack φ (fun _ _ => _v4InCurrency h keys) :=
  Stays.bind (index_does ..) fun _ => Stays.pure _

theorem _v4OutCurrency_stays (h : Hop) (keys : List V4Key) :
    Stays incoming stack φ (fun _ _ => _v4OutCurrency h keys) :=
  Stays.bind (index_does ..) fun _ => Stays.pure _

theorem segmentEnd_stays (hops : List Hop) (v4Keys : List V4Key) (n j : Nat) :
    Stays incoming stack φ (fun _ _ => segmentEnd hops v4Keys n j) := by
  induction n generalizing j with
  | zero => exact Stays.pure j
  | succ n ih =>
    unfold segmentEnd
    cases hops[j]? with
    | none => exact Stays.pure j
    | some hop =>
      dsimp only
      split
      · refine Stays.bind (index_does ..) fun previous => ?_
        refine (_v4OutCurrency_stays ..).bind fun before => ?_
        refine (_v4InCurrency_stays ..).bind fun current => ?_
        split
        · exact ih (j + 1)
        · exact Stays.pure j
      · exact Stays.pure j

theorem segmentKeys_stays (hops : List Hop) (keys : List V4Key) (i j : Nat) :
    Stays incoming stack φ (fun _ _ => segmentKeys hops keys i j) := by
  have hKeys : ∀ segment : List Hop,
      Stays incoming stack φ (fun _ _ => segment.mapM fun hop => index keys hop.feeBps.toNat) := by
    intro segment
    induction segment with
    | nil => exact Stays.pure []
    | cons hop rest ih =>
      simp only [List.mapM_cons]
      exact Stays.bind (index_does ..) fun key => ih.bind fun rest => Stays.pure _
  exact (hKeys _).bind fun segKeys => Stays.pure _

theorem _runV4Segment_stays (hArb : φ → FromArb incoming stack) (hops : List Hop) (keys : List V4Key)
    (i j : Nat) (amountIn : U256) :
    Stays incoming stack φ (fun _ ext => _runV4Segment ext hops keys i j amountIn) := by
  refine (segmentKeys_stays hops keys i j).bind fun segment => ?_
  obtain ⟨segKeys, dirs⟩ := segment
  refine Does.bind (unlock_opens hArb ⟨segKeys, dirs, amountIn⟩) fun _ => ?_
  refine Does.bind (request_waits _) fun res => ?_
  refine Does.bind (unlock_closes _) fun _ => ?_
  exact decodeWord_does ..

theorem runHopsFrom_stays (hArb : φ → FromArb incoming stack) (hops : List Hop) (v4Keys : List V4Key)
    (n i : Nat) (amount : U256) :
    Stays incoming stack φ (fun _ ext => runHopsFrom self ext hops v4Keys n i amount) := by
  induction n generalizing i amount with
  | zero => exact Stays.pure amount
  | succ n ih =>
    unfold runHopsFrom
    cases hops[i]? with
    | none => exact Stays.pure amount
    | some hop =>
      dsimp only
      split
      · exact (_swapV2_stays self hop amount).bind fun _ => ih ..
      split
      · exact (_swapAero_stays self hop amount).bind fun _ => ih ..
      split
      · exact (_swapV3_stays self hArb hop amount).bind fun _ => ih ..
      · refine (segmentEnd_stays ..).bind fun j => ?_
        exact (_runV4Segment_stays hArb ..).bind fun _ => ih ..

theorem profitCheck_stays (start stop minProfit : U256) :
    Stays incoming stack φ (fun _ _ => profitCheck start stop minProfit) :=
  Stays.bind (checkedAdd_does ..) fun _ => Stays.require _ _

theorem guardedHops_stays (hArb : φ → FromArb incoming stack) (hops : List Hop) (v4Keys : List V4Key)
    (anchor : Address) (amountIn minProfit : U256) :
    Stays incoming stack φ (fun _ ext => guardedHops self ext hops v4Keys anchor amountIn minProfit) := by
  refine (balanceOf_stays ..).bind fun start => ?_
  refine (runHopsFrom_stays self hArb ..).bind fun _ => ?_
  refine (balanceOf_stays ..).bind fun stop => ?_
  exact profitCheck_stays ..

theorem onlyOwner_stays (sender : Address) : Stays incoming stack φ (fun _ _ => onlyOwner sender) :=
  Does.bind Does.getWorld fun _ => (Stays.require _ _).mono (fun _ hw => hw.2) fun _ _ hw => hw

theorem onlyExecutor_stays (sender : Address) : Stays incoming stack φ (fun _ _ => onlyExecutor sender) :=
  Does.bind Does.getWorld fun _ => (Stays.require _ _).mono (fun _ hw => hw.2) fun _ _ hw => hw

theorem executeArb_stays (hArb : φ → FromArb incoming stack) (sender : Address) (hops : List Hop)
    (v4Keys : List V4Key) (anchor : Address) (amountIn minProfit : U256) (useFlashloan : Bool) :
    Stays incoming stack φ
      (fun _ ext => executeArb self ext sender hops v4Keys anchor amountIn minProfit useFlashloan) := by
  refine (onlyExecutor_stays sender).bind fun _ => ?_
  cases useFlashloan with
  | false => exact guardedHops_stays self hArb ..
  | true =>
    refine Does.bind (flashLoan_opens hArb anchor amountIn ⟨hops, v4Keys, anchor, minProfit⟩) fun _ => ?_
    refine Does.bind (request_waits _) fun _ => ?_
    exact flashLoan_closes ..

theorem onMorphoFlashLoan_stays (sender : Address) (assets : U256) (data : Option FlashData) :
    Stays incoming stack φ (fun _ ext => onMorphoFlashLoan self ext sender assets data) := by
  refine (Stays.require _ _).bind fun _ => ?_
  refine Does.bind Does.getWorld fun w => ?_
  refine Does.bind Does.require fun _ => ?_
  cases data with
  | none => exact Does.revert
  | some d =>
    have hHops : Stays incoming stack (InExecuteArb stack ∧ φ)
        (fun _ ext => guardedHops self ext d.hops d.v4Keys d.anchor assets d.minProfit) :=
      guardedHops_stays self (fun h => .inr h.1) ..
    apply hHops.mono
    · rintro w' ⟨hFlight, rfl, hGuarded, hφ⟩
      obtain ⟨p, hp, hLoan⟩ := hGuarded.flight hFlight
      have hIn : InExecuteArb stack := hGuarded.opened p hp (by simp only [Request.isGuarded, hLoan, Bool.or_true])
      exact ⟨hGuarded, hIn, hφ⟩
    · rintro _ w' ⟨hGuarded, -, hφ⟩
      exact ⟨hGuarded, hφ⟩

theorem segmentSwap_stays (key : V4Key) (dir : Bool) (amount : U256) :
    Stays incoming stack φ (fun _ ext => segmentSwap ext key dir amount) := by
  refine Stays.bind (checkedNeg_does _) fun specified => ?_
  refine (Stays.quiet _ rfl).bind fun reply => ?_
  refine Stays.bind (decodeWord_does ..) fun delta => ?_
  exact (Stays.require _ _).bind fun _ => Stays.pure _

theorem segmentSwaps_stays (keys : List V4Key) (dirs : List Bool) (rest : List V4Key) (k : Nat) (amount : U256) :
    Stays incoming stack φ (fun _ ext => segmentSwaps ext keys dirs rest k amount) := by
  induction rest generalizing k amount with
  | nil => exact Stays.pure amount
  | cons key rest ih =>
    refine Stays.bind (index_does ..) fun dir => ?_
    exact (segmentSwap_stays ..).bind fun _ => ih ..

theorem settleInput_stays (inCur : Address) (amountIn : U256) :
    Stays incoming stack φ (fun _ ext => settleInput ext inCur amountIn) := by
  unfold settleInput
  split
  · refine (Stays.quiet _ rfl).bind fun _ => ?_
    refine (Stays.quiet _ rfl).bind fun reply => ?_
    exact Stays.bind (decodeWord_does ..) fun _ => Stays.pure ()
  · refine (Stays.quiet _ rfl).bind fun _ => ?_
    refine (transfer_stays ..).bind fun _ => ?_
    refine (Stays.quiet _ rfl).bind fun reply => ?_
    exact Stays.bind (decodeWord_does ..) fun _ => Stays.pure ()

theorem takeOutput_stays (outCur : Address) (amount : U256) :
    Stays incoming stack φ (fun _ ext => takeOutput self ext outCur amount) := by
  unfold takeOutput
  split
  · refine (Stays.quiet _ rfl).bind fun _ => ?_
    exact (Stays.quiet _ rfl).bind fun _ => Stays.pure ()
  · exact (Stays.quiet _ rfl).bind fun _ => Stays.pure ()

theorem unlockCallback_stays (sender : Address) (data : Option UnlockData) :
    Stays incoming stack φ (fun _ ext => unlockCallback self ext sender data) := by
  refine (Stays.require _ _).bind fun _ => ?_
  refine Does.bind Does.getWorld fun w => ?_
  refine Does.bind ((Stays.require _ _).mono (fun _ hw => hw.2) fun _ _ hw => hw) fun _ => ?_
  cases data with
  | none => exact Does.revert
  | some d =>
    refine (segmentSwaps_stays ..).bind fun amount => ?_
    refine Stays.bind (index_does ..) fun first => ?_
    refine Stays.bind (index_does ..) fun firstDir => ?_
    refine (settleInput_stays ..).bind fun _ => ?_
    refine Stays.bind (index_does ..) fun last => ?_
    refine Stays.bind (index_does ..) fun lastDir => ?_
    exact (takeOutput_stays self ..).bind fun _ => Stays.pure _

theorem swapCallback_stays (sender : Address) (amount0Delta amount1Delta : I256) :
    Stays incoming stack φ (fun _ ext => swapCallback ext sender amount0Delta amount1Delta) := by
  refine Does.bind Does.getWorld fun w => ?_
  refine Does.bind ((Stays.require _ _).mono (fun _ hw => hw.2) fun _ _ hw => hw) fun _ => ?_
  split
  · exact (token0_stays sender).bind fun _ => transfer_stays ..
  split
  · exact (token1_stays sender).bind fun _ => transfer_stays ..
  · exact Stays.pure ()

theorem withdraw_stays (sender token : Address) (amount : U256) :
    Stays incoming stack φ (fun _ ext => withdraw ext sender token amount) := by
  refine (onlyOwner_stays sender).bind fun _ => ?_
  refine Does.bind Does.getWorld fun w => Does.mono (P := Within stack φ) ?_ (fun _ hw => hw.2) fun _ _ hw => hw
  split
  · exact (Stays.quiet _ rfl).bind fun _ => Stays.pure ()
  · exact transfer_stays ..

theorem approveMorphoMax_stays (sender token : Address) :
    Stays incoming stack φ (fun _ ext => approveMorphoMax ext sender token) := by
  refine (onlyOwner_stays sender).bind fun _ => ?_
  refine (Stays.quiet _ rfl).bind fun reply => ?_
  exact Stays.bind (decodeWord_does ..) fun _ => Stays.pure ()

theorem returnsNothing_stays {body : Code Unit} (hBody : Stays incoming stack φ body) :
    Stays incoming stack φ (fun E ext => returnsNothing (body E ext)) :=
  hBody.bind fun _ => Stays.pure []

/-- Every call keeps the guards in step with the requests it makes, from any sender and
below any stack. -/
theorem dispatch_stays (incoming : Incoming) (stack : Pending) :
    Stays incoming stack True (fun _ ext => dispatch self ext incoming.sender incoming.call) := by
  obtain ⟨sender, call⟩ := incoming
  cases call with
  | setExecutor who ok =>
    apply returnsNothing_stays
    exact (onlyOwner_stays sender).bind fun _ => Stays.setWorld fun _ => ⟨rfl, rfl, rfl⟩
  | transferOwnership next =>
    apply returnsNothing_stays
    exact (onlyOwner_stays sender).bind fun _ => Stays.setWorld fun _ => ⟨rfl, rfl, rfl⟩
  | withdraw token amount => exact returnsNothing_stays (withdraw_stays ..)
  | approveMorphoMax token => exact returnsNothing_stays (approveMorphoMax_stays ..)
  | executeArb hops v4Keys anchor amountIn minProfit useFlashloan =>
    apply returnsNothing_stays
    exact executeArb_stays self (fun _ => .inl rfl) ..
  | onMorphoFlashLoan assets data => exact returnsNothing_stays (onMorphoFlashLoan_stays ..)
  | unlockCallback data => exact unlockCallback_stays ..
  | uniswapV3SwapCallback a b => exact returnsNothing_stays (swapCallback_stays sender a b)
  | pancakeV3SwapCallback a b => exact returnsNothing_stays (swapCallback_stays sender a b)
  | algebraSwapCallback a b => exact returnsNothing_stays (swapCallback_stays sender a b)
  | receive => exact returnsNothing_stays (Stays.pure ())

end Functions

end Robinarb.ArbExecutor
