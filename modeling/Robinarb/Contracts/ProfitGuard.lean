import Robinarb.Contracts.Reentrancy

/-! # The profit guard

A run that does not revert brackets its hops between two readings of the anchor
balance. Whatever the hops hand control to, the check after the second reading is on
the state the run of the hops ends in, and what funds the hops nets to zero around it.
-/

namespace Robinarb.ArbExecutor

open Fallible

variable {E : Type} {self : Address} {ext : Handler E} {sender anchor : Address} {hops : List Hop}
  {v4Keys : List V4Key} {amountIn minProfit : U256} {st st' : State E}

def State.holding (st : State E) (token account : Address) : Nat := st.world.holding token account

theorem profitCheck_ok {start stop : U256} {r : Unit × State E}
    (hRun : profitCheck start stop minProfit st = .ok r) :
    start.toNat + minProfit.toNat ≤ stop.toNat ∧ r.2 = st := by
  obtain ⟨bar, s₁, hAdd, hRequire⟩ := bind_eq_ok.mp hRun
  obtain ⟨hBar, hKept⟩ := checkedAdd_ok hAdd
  obtain ⟨hReached, rfl⟩ := require_ok hRequire
  have hLe : bar ≤ stop := of_decide_eq_true hReached
  exact ⟨hBar ▸ BitVec.le_def.mp hLe, hKept⟩

theorem guardedHops_profit (hToken : StandardToken ext anchor)
    (hRun : guardedHops self ext hops v4Keys anchor amountIn minProfit st = .ok ((), st')) :
    st.holding anchor self + minProfit.toNat ≤ st'.holding anchor self := by
  have hKeeps : ∀ start stop, Keeps (profitCheck start stop minProfit : Exec E Unit) := by
    rintro start stop s r hCheck
    exact (profitCheck_ok hCheck).2
  have hCheck := bracket_ok (balanceOf_reads hToken self) hKeeps hRun
  exact (profitCheck_ok hCheck).1

theorem onMorphoFlashLoan_ok {assets : U256} {data : FlashData}
    (hRun : onMorphoFlashLoan self ext sender assets (some data) st = .ok ((), st')) :
    sender = MORPHO ∧ st.world.inFlight = true ∧
      guardedHops self ext data.hops data.v4Keys data.anchor assets data.minProfit st = .ok ((), st') := by
  obtain ⟨_, s₁, hSender, hRest⟩ := bind_eq_ok.mp hRun
  obtain ⟨hMorpho, hKept⟩ := require_ok hSender
  cases hKept
  rw [getWorld_reads.bind] at hRest
  obtain ⟨_, s₂, hFlight, hGuarded⟩ := bind_eq_ok.mp hRest
  obtain ⟨hInFlight, hKept⟩ := require_ok hFlight
  cases hKept
  exact ⟨of_decide_eq_true hMorpho, hInFlight, hGuarded⟩

theorem onlyExecutor_ok {r : Unit × State E} (hRun : onlyExecutor sender st = .ok r) :
    st.world.executors sender = true ∧ r = ((), st) := by
  have hRequire : require (st.world.executors sender) .notExecutor st = .ok r :=
    (getWorld_reads.bind _ st).symm.trans hRun
  exact require_ok hRequire

/-- A loan around a guarded run: what came in before it goes out after it. -/
theorem loan_net {token : Address} {assets : U256} {w w₁ w₂ w' : World}
    (hIn : w.move token MORPHO self assets = some w₁) (hOut : w₂.move token self MORPHO assets = some w') :
    w'.holding token self + w₁.holding token self = w.holding token self + w₂.holding token self := by
  have hBorrowed := World.move_holding hIn self
  have hRepaid := World.move_holding hOut self
  simp only [if_true] at hBorrowed hRepaid
  omega

/-- Every run that does not revert has one guarded run of the hops in it, and the
funding around that run leaves the contract's anchor balance as it was. -/
theorem executeArb_guarded {useFlashloan : Bool} (hToken : StandardToken ext anchor)
    (hLoan : MorphoLends self ext anchor)
    (hRun : executeArb self ext sender hops v4Keys anchor amountIn minProfit useFlashloan st =
      .ok ((), st')) :
    ∃ (inner : Handler E) (st₁ st₂ : State E), StandardToken inner anchor ∧
      guardedHops self inner hops v4Keys anchor amountIn minProfit st₁ = .ok ((), st₂) ∧
      st'.holding anchor self + st₁.holding anchor self =
        st.holding anchor self + st₂.holding anchor self := by
  obtain ⟨_, s₁, hExecutor, hBody⟩ := bind_eq_ok.mp hRun
  obtain ⟨-, hKept⟩ := onlyExecutor_ok hExecutor
  cases hKept
  cases useFlashloan with
  | false => exact ⟨ext, st, st', hToken, hBody, Nat.add_comm _ _⟩
  | true =>
    obtain ⟨_, s₂, hSet, hLend⟩ := bind_eq_ok.mp hBody
    cases hSet
    obtain ⟨reply, s₃, hFlash, hReset⟩ := bind_eq_ok.mp hLend
    cases hReset
    obtain ⟨inner, st₁, st₂, hInner, hIn, hCallback, hOut⟩ := hLoan _ _ _ _ _ hFlash
    obtain ⟨-, -, hGuarded⟩ := onMorphoFlashLoan_ok hCallback
    have hNet := loan_net hIn hOut
    exact ⟨inner, st₁, st₂, hInner, hGuarded, hNet⟩

/-- A run that does not revert leaves the contract with the anchor balance it had and
the minimal profit on top, in both funding modes and whatever answers the other calls. -/
theorem executeArb_profit (self : Address) (ext : Handler E) (sender : Address) (hops : List Hop)
    (v4Keys : List V4Key) (anchor : Address) (amountIn minProfit : U256) (useFlashloan : Bool)
    (st st' : State E) (hToken : StandardToken ext anchor) (hLoan : MorphoLends self ext anchor)
    (hRun : executeArb self ext sender hops v4Keys anchor amountIn minProfit useFlashloan st =
      .ok ((), st')) :
    (st.world.balance anchor self).toNat + minProfit.toNat ≤ (st'.world.balance anchor self).toNat := by
  obtain ⟨inner, st₁, st₂, hInner, hGuarded, hFunding⟩ := executeArb_guarded hToken hLoan hRun
  have hGain := guardedHops_profit hInner hGuarded
  have hNet : st.holding anchor self + minProfit.toNat ≤ st'.holding anchor self := by omega
  exact hNet

section Sample

def sampleSelf : Address := 0x5E1F#160

def samplePool : Address := 0x9001#160

def sampleAnchor : Address := 0xA0C0#160

def sampleOutsider : Address := 0xBAD#160

def sampleBot : Address := 0xB07#160

/-- The contract holds 7 of the anchor, Morpho 1000 and the pool 500. -/
def sampleWorld : World where
  balance token account :=
    if token = sampleAnchor then
      if account = sampleSelf then 7#256
      else if account = MORPHO then 1000#256
      else if account = samplePool then 500#256
      else 0#256
    else 0#256
  owner := sampleBot
  executors account := account = sampleBot
  expectedCaller := zeroAddress
  inFlight := false
  inV4 := false

/-- The pool collects 1000 in its callback, an outsider tries to run a route and to
withdraw, and 1010 come back. -/
def sampleScript : Script :=
  .mk
    [.reenter samplePool (.uniswapV3SwapCallback 1000#256 0#256) [.mk [] (some [sampleAnchor.setWidth 256])],
      .reenter sampleOutsider (.executeArb [] [] sampleAnchor 0#256 0#256 false) [],
      .reenter sampleOutsider (.withdraw sampleAnchor 7#256) [],
      .move sampleAnchor samplePool sampleSelf 1010#256]
    (some [1000#256, -1010#256])

def sampleRun : Except Revert (Unit × State (List Script)) :=
  executeArb sampleSelf (scripted sampleSelf (fun token => token = sampleAnchor) 3) sampleBot
    [⟨2#8, samplePool, true, 0#16⟩] [] sampleAnchor 1000#256 5#256 true ⟨sampleWorld, [sampleScript]⟩

theorem sampleRun_profit :
    ∃ st', sampleRun = .ok ((), st') ∧ 7 + 5 ≤ (st'.world.balance sampleAnchor sampleSelf).toNat ∧
      st'.world.balance sampleAnchor sampleSelf = 17#256 := by
  have hHeld : (sampleRun.toOption.map fun r => r.2.world.balance sampleAnchor sampleSelf) = some 17#256 := by
    decide +kernel
  cases hRun : sampleRun with
  | error reason =>
    rw [hRun] at hHeld
    cases hHeld
  | ok r =>
    obtain ⟨⟨⟩, st'⟩ := r
    rw [hRun] at hHeld
    refine ⟨st', rfl, ?_, Option.some.inj hHeld⟩
    exact executeArb_profit sampleSelf (scripted sampleSelf (fun token => token = sampleAnchor) 3) sampleBot
      [⟨2#8, samplePool, true, 0#16⟩] [] sampleAnchor 1000#256 5#256 true ⟨sampleWorld, [sampleScript]⟩ st'
      (scripted_standardToken rfl 3) (scripted_morphoLends rfl 3) hRun

end Sample

end Robinarb.ArbExecutor
