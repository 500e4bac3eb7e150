import Robinarb.Contracts.CallbackGuards
import Robinarb.Contracts.ProfitGuard

/-! # Who the callbacks open for

Accounts call the contract in any order and nesting, and change what is theirs in
between. The callbacks let in the pool of the hop in progress, the PoolManager inside an
unlock and Morpho inside a loan, both opened by the contract; an outsider makes it ask
for nothing.
-/

namespace Robinarb.ArbExecutor

open CallStack

section Machine

variable (self : Address) (incoming : Incoming)

theorem dispatch_represented :
    ∃ p, Represents p (fun _ ext => dispatch self ext incoming.sender incoming.call) := by
  obtain ⟨p, hp, -⟩ := dispatch_stays self incoming []
  exact ⟨p, hp⟩

/-- The interaction every handler runs like the call. -/
noncomputable def process : World → Interaction (List U256) :=
  Classical.choose (dispatch_represented self incoming)

theorem process_represents :
    Represents (process self incoming) (fun _ ext => dispatch self ext incoming.sender incoming.call) :=
  Classical.choose_spec (dispatch_represented self incoming)

def deployed (sender : Address) (balance : Address → Address → U256) : World where
  balance := balance
  owner := sender
  executors account := account = sender
  expectedCaller := zeroAddress
  inFlight := false
  inV4 := false

def Idle (w : World) : Prop := w.expectedCaller = zeroAddress ∧ w.inFlight = false ∧ w.inV4 = false

/-- Balances change, and a transaction that ends clears the transient storage. -/
def Elsewhere (stack : Pending) (w w' : World) : Prop :=
  (∃ balance, w' = { w with balance := balance }) ∨
    (stack = [] ∧ w' = { w with expectedCaller := zeroAddress, inFlight := false, inV4 := false })

def FromAccount (incoming : Incoming) : Prop := incoming.sender ≠ zeroAddress

/-- What comes about, from the deployment on, by calls of any accounts in any nesting. -/
def Reached (deployer : Address) (balance : Address → Address → U256)
    (c : Config Incoming World Request (List U256) Revert) : Prop :=
  Reaches (process self) Elsewhere FromAccount (deployed deployer balance) c

/-- Reverts before it asks for anything. -/
def Refused (p : Interaction (List U256)) : Prop := ∃ reason, p = .failed reason

def AsksNothing (p : Interaction (List U256)) : Prop :=
  ∀ w request resume, p ≠ .asks w request resume

/-- The account a callback is meant for, by what is pending. -/
def Call.Authentic (stack : Pending) (sender : Address) : Call → Prop
  | .uniswapV3SwapCallback .. => currentPool stack = some sender
  | .pancakeV3SwapCallback .. => currentPool stack = some sender
  | .algebraSwapCallback .. => currentPool stack = some sender
  | .unlockCallback _ => sender = POOL_MANAGER ∧ InUnlock stack
  | .onMorphoFlashLoan .. => sender = MORPHO ∧ InFlashLoan stack
  | _ => True

structure Outsider (stack : Pending) (w : World) (account : Address) : Prop where
  owner : account ≠ w.owner
  executor : w.executors account = false
  poolManager : account ≠ POOL_MANAGER
  morpho : account ≠ MORPHO
  pool : currentPool stack ≠ some account

end Machine

section Runs

variable {self : Address} {incoming : Incoming} {w : World}

theorem process_eq {p : Interaction (List U256)}
    (hRun : ∀ (E : Type) (ext : Handler E) (e : E),
      dispatch self ext incoming.sender incoming.call ⟨w, e⟩ = play ext p e) :
    process self incoming w = p := by
  apply play_inj
  intro E ext e
  exact (process_represents self incoming E ext ⟨w, e⟩).symm.trans (hRun E ext e)

theorem process_asks {w' : World} {request : Request}
    (hRun : ∀ reason, dispatch self (failing reason) incoming.sender incoming.call ⟨w, ()⟩ =
      .error (reason request w')) : ∃ resume, process self incoming w = .asks w' request resume := by
  have hPlay : ∀ reason, play (failing reason) (process self incoming w) () = .error (reason request w') :=
    fun reason => (process_represents self incoming Unit (failing reason) ⟨w, ()⟩).symm.trans (hRun reason)
  cases hProcess : process self incoming w with
  | done v reply =>
    rw [hProcess] at hPlay
    cases hPlay fun _ _ => .foreign
  | failed reason =>
    rw [hProcess] at hPlay
    have hPanic := Except.error.inj (hPlay fun _ _ => .panic)
    cases hPanic.symm.trans (Except.error.inj (hPlay fun _ _ => .foreign))
  | asks v request' resume =>
    rw [hProcess] at hPlay
    obtain ⟨rfl, rfl⟩ := asks_inj fun reason => Except.error.inj (hPlay reason)
    exact ⟨resume, rfl⟩

theorem process_safe {stack : Pending} (hGuarded : Guarded stack w) :
    (process self incoming w).Safe (Asked incoming stack) fun _ => Guarded stack := by
  obtain ⟨p, hp, hSafe⟩ := dispatch_stays self incoming stack
  obtain rfl := (process_represents self incoming).unique hp
  exact (hSafe w ⟨hGuarded, trivial⟩).mono fun _ _ h => h.1

theorem require_error {E α : Type} {condition : Bool} {reason : Revert} (hFails : condition = false)
    (f : Unit → Exec E α) (st : State E) : (require condition reason >>= f) st = .error reason := by
  rw [hFails]
  rfl

theorem require_passes {E α : Type} {condition : Bool} {reason : Revert} (hHolds : condition = true)
    (f : Unit → Exec E α) (st : State E) : (require condition reason >>= f) st = f () st := by
  rw [hHolds]
  rfl

end Runs

section Refusals

variable {self : Address} {stack : Pending} {w : World} {sender : Address}

theorem Guarded.sender_unexpected (hGuarded : Guarded stack w) (hSender : sender ≠ zeroAddress)
    (hPool : currentPool stack ≠ some sender) : sender ≠ w.expectedCaller := by
  rintro rfl
  exact hPool (hGuarded.caller hSender)

theorem swapCallback_error {E : Type} (ext : Handler E) (e : E) (a b : I256)
    (hSender : sender ≠ w.expectedCaller) :
    returnsNothing (swapCallback ext sender a b) ⟨w, e⟩ = .error .badCallback := by
  have hBody : swapCallback ext sender a b ⟨w, e⟩ = .error .badCallback := by
    unfold swapCallback
    rw [getWorld_reads.bind]
    exact require_error (decide_eq_false hSender) _ _
  change swapCallback ext sender a b ⟨w, e⟩ >>= _ = _
  rw [hBody]
  rfl

theorem unlockCallback_error {E : Type} (ext : Handler E) (e : E) (data : Option UnlockData)
    (hClosed : sender = POOL_MANAGER → w.inV4 = false) :
    unlockCallback self ext sender data ⟨w, e⟩ = .error .badCallback := by
  unfold unlockCallback
  cases hManager : decide (sender = POOL_MANAGER) with
  | false => exact require_error rfl _ _
  | true =>
    rw [require_passes rfl, getWorld_reads.bind]
    exact require_error (hClosed (of_decide_eq_true hManager)) _ _

theorem onMorphoFlashLoan_error {E : Type} (ext : Handler E) (e : E) (assets : U256)
    (data : Option FlashData) (hClosed : sender = MORPHO → w.inFlight = false) :
    returnsNothing (onMorphoFlashLoan self ext sender assets data) ⟨w, e⟩ = .error .badCallback := by
  have hBody : onMorphoFlashLoan self ext sender assets data ⟨w, e⟩ = .error .badCallback := by
    unfold onMorphoFlashLoan
    cases hMorpho : decide (sender = MORPHO) with
    | false => exact require_error rfl _ _
    | true =>
      rw [require_passes rfl, getWorld_reads.bind]
      exact require_error (hClosed (of_decide_eq_true hMorpho)) _ _
  change onMorphoFlashLoan self ext sender assets data ⟨w, e⟩ >>= _ = _
  rw [hBody]
  rfl

theorem authentic_of_not_refused {incoming : Incoming} (hGuarded : Guarded stack w)
    (hAccount : FromAccount incoming) (hGoesOn : ¬ Refused (process self incoming w)) :
    incoming.call.Authentic stack incoming.sender := by
  by_contra hForged
  apply hGoesOn
  refine ⟨.badCallback, process_eq fun E ext e => ?_⟩
  obtain ⟨sender, call⟩ := incoming
  cases call with
  | uniswapV3SwapCallback a b => exact swapCallback_error ext e a b (hGuarded.sender_unexpected hAccount hForged)
  | pancakeV3SwapCallback a b => exact swapCallback_error ext e a b (hGuarded.sender_unexpected hAccount hForged)
  | algebraSwapCallback a b => exact swapCallback_error ext e a b (hGuarded.sender_unexpected hAccount hForged)
  | unlockCallback data =>
    apply unlockCallback_error
    intro hManager
    exact Bool.eq_false_of_not_eq_true fun hV4 => hForged ⟨hManager, hGuarded.v4 hV4⟩
  | onMorphoFlashLoan assets data =>
    apply onMorphoFlashLoan_error
    intro hMorpho
    exact Bool.eq_false_of_not_eq_true fun hFlight => hForged ⟨hMorpho, hGuarded.flight hFlight⟩
  | setExecutor => exact absurd trivial hForged
  | transferOwnership => exact absurd trivial hForged
  | withdraw => exact absurd trivial hForged
  | approveMorphoMax => exact absurd trivial hForged
  | executeArb => exact absurd trivial hForged
  | receive => exact absurd trivial hForged

theorem onlyOwner_error {E : Type} {e : E} (hOther : sender ≠ w.owner) :
    onlyOwner sender ⟨w, e⟩ = .error .notOwner := by
  unfold onlyOwner
  rw [getWorld_reads.bind, decide_eq_false hOther]
  rfl

theorem onlyExecutor_error {E : Type} {e : E} (hOther : w.executors sender = false) :
    onlyExecutor sender ⟨w, e⟩ = .error .notExecutor := by
  unfold onlyExecutor
  rw [getWorld_reads.bind, hOther]
  rfl

theorem bind_error {E α β : Type} {x : Exec E α} {reason : Revert} {st : State E}
    (hFails : x st = .error reason) (f : α → Exec E β) : (x >>= f) st = .error reason := by
  change x st >>= _ = _
  rw [hFails]
  rfl

/-- A call that an outsider makes reverts, or only pays the contract. -/
theorem asksNothing_of_outsider {call : Call} (hGuarded : Guarded stack w)
    (hAccount : FromAccount ⟨sender, call⟩) (hOutsider : Outsider stack w sender) :
    AsksNothing (process self ⟨sender, call⟩ w) := by
  have hFailed : ∀ reason, (∀ (E : Type) (ext : Handler E) (e : E),
      dispatch self ext sender call ⟨w, e⟩ = .error reason) → AsksNothing (process self ⟨sender, call⟩ w) := by
    intro reason hRun w' request resume hAsks
    rw [process_eq (p := .failed reason) hRun] at hAsks
    cases hAsks
  have hForeign : ¬ call.Authentic stack sender → AsksNothing (process self ⟨sender, call⟩ w) := by
    intro hForged w' request resume hAsks
    apply hForged
    apply authentic_of_not_refused hGuarded hAccount
    rintro ⟨reason, hRefused⟩
    rw [hAsks] at hRefused
    cases hRefused
  cases call with
  | setExecutor who ok =>
    exact hFailed .notOwner fun E ext e => bind_error (bind_error (onlyOwner_error hOutsider.owner) _) _
  | transferOwnership next =>
    exact hFailed .notOwner fun E ext e => bind_error (bind_error (onlyOwner_error hOutsider.owner) _) _
  | withdraw token amount =>
    exact hFailed .notOwner fun E ext e => bind_error (bind_error (onlyOwner_error hOutsider.owner) _) _
  | approveMorphoMax token =>
    exact hFailed .notOwner fun E ext e => bind_error (bind_error (onlyOwner_error hOutsider.owner) _) _
  | executeArb hops v4Keys anchor amountIn minProfit useFlashloan =>
    exact hFailed .notExecutor fun E ext e =>
      bind_error (bind_error (onlyExecutor_error hOutsider.executor) _) _
  | onMorphoFlashLoan assets data => exact hForeign fun hAuthentic => hOutsider.morpho hAuthentic.1
  | unlockCallback data => exact hForeign fun hAuthentic => hOutsider.poolManager hAuthentic.1
  | uniswapV3SwapCallback a b => exact hForeign hOutsider.pool
  | pancakeV3SwapCallback a b => exact hForeign hOutsider.pool
  | algebraSwapCallback a b => exact hForeign hOutsider.pool
  | receive =>
    have hDone : process self ⟨sender, .receive⟩ w = .done w [] := process_eq fun E ext e => rfl
    rw [hDone]
    rintro w' request resume ⟨⟩

end Refusals

section Idle

variable {stack : Pending} {w : World}

theorem currentPool_eq_none (hOpened : OpenedByArb stack) (hNoArb : ¬ InExecuteArb stack) :
    currentPool stack = none := by
  apply List.findSome?_eq_none_iff.mpr
  intro p hp
  cases hPool : p.2.swapPool with
  | none => rfl
  | some pool =>
    have hGuarded : p.2.isGuarded = true := by
      simp only [Request.isGuarded, hPool, Option.isSome_some, Bool.true_or]
    exact absurd (hOpened p hp hGuarded) hNoArb

theorem Guarded.idle (hGuarded : Guarded stack w) (hNoArb : ¬ InExecuteArb stack) : Idle w := by
  have hNone : ∀ p ∈ stack, p.2.isGuarded = true → False :=
    fun p hp hOpen => hNoArb (hGuarded.opened p hp hOpen)
  refine ⟨?_, ?_, ?_⟩
  · by_contra hCaller
    cases (currentPool_eq_none hGuarded.opened hNoArb).symm.trans (hGuarded.caller hCaller)
  · apply Bool.eq_false_of_not_eq_true
    intro hFlight
    obtain ⟨p, hp, hLoan⟩ := hGuarded.flight hFlight
    exact hNone p hp (by simp only [Request.isGuarded, hLoan, Bool.or_true])
  · apply Bool.eq_false_of_not_eq_true
    intro hV4
    obtain ⟨p, hp, hUnlock⟩ := hGuarded.v4 hV4
    exact hNone p hp (by simp only [Request.isGuarded, hUnlock, Bool.or_true, Bool.true_or])

theorem Idle.guarded (hIdle : Idle w) : Guarded [] w where
  caller hCaller := absurd hIdle.1 hCaller
  flight hFlight := absurd (hIdle.2.1.symm.trans hFlight) Bool.false_ne_true
  v4 hV4 := absurd (hIdle.2.2.symm.trans hV4) Bool.false_ne_true
  opened := by rintro p ⟨⟩

theorem Elsewhere.guarded {w' : World} (hElsewhere : Elsewhere stack w w') (hGuarded : Guarded stack w) :
    Guarded stack w' := by
  rcases hElsewhere with ⟨balance, rfl⟩ | ⟨rfl, rfl⟩
  · exact ⟨hGuarded.caller, hGuarded.flight, hGuarded.v4, hGuarded.opened⟩
  · exact Idle.guarded ⟨rfl, rfl, rfl⟩

end Idle

theorem Reached.guarded {self deployer : Address} {balance : Address → Address → U256}
    {c : Config Incoming World Request (List U256) Revert} (hReached : Reached self deployer balance c) :
    Guarded (pending c.frames) c.world := by
  apply Reaches.invariant (fun _ _ _ hElsewhere => hElsewhere.guarded) ?_ hReached
  · exact Idle.guarded ⟨rfl, rfl, rfl⟩
  · intro stack incoming w _ hGuarded
    exact process_safe hGuarded

/-- After the deployment, whatever any accounts call in any nesting: outside `executeArb`
the guards are down, a callback that does not revert comes from the pool of the hop being
swapped, the PoolManager in an unlock or Morpho in a loan of the contract, and the call of
an outsider moves nothing. -/
theorem callbacks_open_for_hop_in_progress (self deployer : Address) (balance : Address → Address → U256)
    (c : Config Incoming World Request (List U256) Revert) (hReached : Reached self deployer balance c) :
    (¬ InExecuteArb (pending c.frames) → Idle c.world) ∧
      ∀ incoming, FromAccount incoming →
        (¬ Refused (process self incoming c.world) →
          incoming.call.Authentic (pending c.frames) incoming.sender) ∧
        (Outsider (pending c.frames) c.world incoming.sender → AsksNothing (process self incoming c.world)) := by
  have hGuarded := hReached.guarded
  refine ⟨hGuarded.idle, fun incoming hAccount => ⟨?_, ?_⟩⟩
  · exact authentic_of_not_refused hGuarded hAccount
  · exact asksNothing_of_outsider hGuarded hAccount

section Sample

/-- The bot takes a loan for a route without hops. -/
def loanCall : Incoming := ⟨sampleBot, .executeArb [] [] sampleAnchor 1000#256 0#256 true⟩

def loanRequest : Request := .flashLoan sampleAnchor 1000#256 ⟨[], [], sampleAnchor, 0#256⟩

def noBalance : Address → Address → U256 := fun _ _ => 0#256

theorem loan_callback_open :
    ∃ c : Config Incoming World Request (List U256) Revert,
      pending c.frames = [(loanCall, loanRequest)] ∧ c.world.inFlight = true ∧
        ((¬ InExecuteArb (pending c.frames) → Idle c.world) ∧
          ∀ incoming, FromAccount incoming →
            (¬ Refused (process sampleSelf incoming c.world) →
              incoming.call.Authentic (pending c.frames) incoming.sender) ∧
            (Outsider (pending c.frames) c.world incoming.sender →
              AsksNothing (process sampleSelf incoming c.world))) := by
  have hRun : ∀ reason : Request → World → Revert,
      dispatch sampleSelf (failing reason) loanCall.sender loanCall.call ⟨deployed sampleBot noBalance, ()⟩ =
        .error (reason loanRequest { deployed sampleBot noBalance with inFlight := true }) := fun _ => rfl
  obtain ⟨resume, hAsks⟩ := process_asks hRun
  have hCall : Step (process sampleSelf) Elsewhere FromAccount ⟨[], deployed sampleBot noBalance, []⟩
      (proceed [] loanCall (deployed sampleBot noBalance) []
        (process sampleSelf loanCall (deployed sampleBot noBalance))) :=
    Step.call loanCall (show sampleBot ≠ zeroAddress by decide)
  rw [hAsks] at hCall
  refine ⟨_, ?_, ?_, callbacks_open_for_hop_in_progress sampleSelf sampleBot noBalance _ (.single hCall)⟩
  · rfl
  · rfl

end Sample

end Robinarb.ArbExecutor
