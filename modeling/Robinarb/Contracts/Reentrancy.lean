import Robinarb.Contracts.Ledger

/-! # Scripted counterparties

A handler that plays scripts: each call out of the contract takes the next one, which
moves tokens, re-enters the contract as any account, and answers or fails. A re-entrant
call brings the scripts of the calls it makes in turn, so calls nest to any depth. The
standard tokens and Morpho keep to their laws at every depth.
-/

namespace Robinarb.ArbExecutor

open Fallible

mutual

/-- One thing a counterparty does during a call. -/
inductive Action where
  | move (token source recipient : Address) (amount : U256)
  | reenter (sender : Address) (call : Call) (scripts : List Script)

/-- What a counterparty does during one call, and the words it returns, `none` for a
revert. -/
inductive Script where
  | mk (actions : List Action) (reply : Option (List U256))

end

/-- The native value a call carries, and to whom. -/
def Request.value : Request → Option (Address × U256)
  | .settle value => some (POOL_MANAGER, value)
  | .wethDeposit value => some (WETH, value)
  | .sendValue recipient value => some (recipient, value)
  | _ => none

section Play

def moveTokens {E : Type} (token source recipient : Address) (amount : U256) : Exec E Unit := fun st =>
  match st.world.move token source recipient amount with
  | some w => .ok ((), { st with world := w })
  | none => .error .foreign

variable (self : Address) (inner : Handler (List Script))

/-- A call into the contract. The caller goes on after a failed one, which leaves no
trace; nobody calls as the contract itself. -/
def reenter (sender : Address) (call : Call) (scripts : List Script) : Exec (List Script) Unit := fun st =>
  if sender = self then .ok ((), st)
  else
    match dispatch self inner sender call { st with env := scripts } with
    | .ok (_, st') => .ok ((), { st' with env := st.env })
    | .error _ => .ok ((), st)

def perform : List Action → Exec (List Script) Unit
  | [] => pure ()
  | .move token source recipient amount :: rest => do
    moveTokens token source recipient amount
    perform rest
  | .reenter sender call scripts :: rest => do
    reenter self inner sender call scripts
    perform rest

def playNext : Exec (List Script) (List U256) := fun st =>
  match st.env with
  | [] => .error .foreign
  | .mk actions reply :: scripts =>
    (do
      perform self inner actions
      match reply with
      | some words => pure words
      | none => revert .foreign) { st with env := scripts }

/-- Morpho's `flashLoan`: the assets out, the callback, the assets back. -/
def lend (token : Address) (assets : U256) (data : FlashData) : Exec (List Script) (List U256) := do
  moveTokens token MORPHO self assets
  onMorphoFlashLoan self inner MORPHO assets (some data)
  moveTokens token self MORPHO assets
  return []

def foreignCall : Handler (List Script)
  | .flashLoan token assets data => lend self inner token assets data
  | request => do
    match request.value with
    | some (recipient, value) => moveTokens zeroAddress self recipient value
    | none => pure ()
    playNext self inner

/-- The calls a standard token answers from its ledger; the others go on to `rest`. -/
def ledgerCall {E : Type} (standard : Address → Bool) (rest : Handler E) : Handler E
  | .balanceOf token account =>
    if standard token then do return [(← getWorld).balance token account]
    else rest (.balanceOf token account)
  | .transfer token recipient amount =>
    if standard token then do
      moveTokens token self recipient amount
      return [1#256]
    else rest (.transfer token recipient amount)
  | request => rest request

/-- The handler for calls that nest up to a depth. -/
def scripted (standard : Address → Bool) : Nat → Handler (List Script)
  | 0 => ledgerCall self standard fun _ => revert .foreign
  | n + 1 => ledgerCall self standard (foreignCall self (scripted standard n))

end Play

section Laws

variable {self : Address} {standard : Address → Bool} {token : Address}

theorem moveTokens_ok {E : Type} {source recipient : Address} {amount : U256} {st : State E}
    {r : Unit × State E} (hRun : moveTokens token source recipient amount st = .ok r) :
    st.world.move token source recipient amount = some r.2.world := by
  unfold moveTokens at hRun
  split at hRun
  next hMove =>
    cases hRun
    exact hMove
  · cases hRun

theorem ledgerCall_standardToken {E : Type} (rest : Handler E) (hStandard : standard token = true) :
    StandardToken (ledgerCall self standard rest) token := by
  intro account st
  simp only [ledgerCall, hStandard, if_true]
  rfl

theorem scripted_standardToken (hStandard : standard token = true) (n : Nat) :
    StandardToken (scripted self standard n) token := by
  cases n with
  | zero => exact ledgerCall_standardToken _ hStandard
  | succ n => exact ledgerCall_standardToken _ hStandard

theorem scripted_morphoLends (hStandard : standard token = true) (n : Nat) :
    MorphoLends self (scripted self standard n) token := by
  rintro assets data st reply st' hRun
  cases n with
  | zero => cases hRun
  | succ n =>
    obtain ⟨_, st₁, hIn, hRest⟩ := bind_eq_ok.mp hRun
    obtain ⟨_, st₂, hCallback, hRest⟩ := bind_eq_ok.mp hRest
    obtain ⟨_, st₃, hOut, hReturn⟩ := bind_eq_ok.mp hRest
    cases pure_eq_ok.mp hReturn
    exact ⟨scripted self standard n, st₁, st₂, scripted_standardToken hStandard n,
      moveTokens_ok hIn, hCallback, moveTokens_ok hOut⟩

end Laws

end Robinarb.ArbExecutor
