import Robinarb.Contracts.ArbExecutor
import Robinarb.Library.Fallible
import Mathlib.Logic.Function.Basic

/-! # Tokens and loans

What the contract relies on outside itself: the balances of a standard token move by
exact amounts and are read as they are, and Morpho lends and takes back the same amount
around one callback.
-/

namespace Robinarb.ArbExecutor

open Fallible

section Balances

def World.setBalance (w : World) (token account : Address) (value : U256) : World :=
  { w with balance := Function.update w.balance token (Function.update (w.balance token) account value) }

/-- A transfer between two accounts, `none` when the source is short or the recipient
would overflow. -/
def World.move (w : World) (token source recipient : Address) (amount : U256) : Option World :=
  if w.balance token source < amount then none
  else
    let debited := w.setBalance token source (w.balance token source - amount)
    let held := debited.balance token recipient
    if held.toNat + amount.toNat < 2 ^ 256 then some (debited.setBalance token recipient (held + amount))
    else none

def World.holding (w : World) (token account : Address) : Nat := (w.balance token account).toNat

theorem World.setBalance_holding (w : World) (token account a : Address) (value : U256) :
    (w.setBalance token account value).holding token a =
      if a = account then value.toNat else w.holding token a := by
  change (Function.update w.balance token (Function.update (w.balance token) account value) token a).toNat = _
  rw [Function.update_self, Function.update_apply]
  split <;> rfl

theorem World.move_eq_some {w w' : World} {token source recipient : Address} {amount : U256}
    (hMove : w.move token source recipient amount = some w') :
    ∃ debited, debited = w.setBalance token source (w.balance token source - amount) ∧
      amount.toNat ≤ w.holding token source ∧
      debited.holding token recipient + amount.toNat < 2 ^ 256 ∧
      w' = debited.setBalance token recipient (debited.balance token recipient + amount) := by
  unfold World.move at hMove
  split at hMove
  · cases hMove
  next hCovered =>
    refine ⟨_, rfl, Nat.not_lt.mp fun hShort => hCovered (BitVec.lt_def.mpr hShort), ?_⟩
    dsimp only at hMove
    split at hMove
    next hFits => exact ⟨hFits, (Option.some.inj hMove).symm⟩
    · cases hMove

theorem World.move_holding {w w' : World} {token source recipient : Address} {amount : U256}
    (hMove : w.move token source recipient amount = some w') (a : Address) :
    w'.holding token a + (if a = source then amount.toNat else 0) =
      w.holding token a + (if a = recipient then amount.toNat else 0) := by
  obtain ⟨debited, hDebited, hCovered, hFits, rfl⟩ := World.move_eq_some hMove
  have hPaid : debited.holding token a + (if a = source then amount.toNat else 0) =
      w.holding token a := by
    rw [hDebited, World.setBalance_holding]
    split
    next hSource =>
      rw [hSource, BitVec.toNat_sub_of_le (BitVec.le_def.mpr hCovered)]
      exact Nat.sub_add_cancel hCovered
    · rfl
  rw [World.setBalance_holding, ← hPaid]
  split
  next hRecipient =>
    subst hRecipient
    have hSum : (debited.balance token a + amount).toNat = debited.holding token a + amount.toNat := by
      rw [BitVec.toNat_add]
      exact Nat.mod_eq_of_lt hFits
    rw [hSum]
    omega
  · rfl

theorem World.setBalance_other {w : World} {token t : Address} (hOther : token ≠ t) (account a : Address)
    (value : U256) : (w.setBalance t account value).holding token a = w.holding token a := by
  change (Function.update w.balance t (Function.update (w.balance t) account value) token a).toNat = _
  rw [Function.update_of_ne hOther]
  rfl

theorem World.move_other {w w' : World} {token t source recipient : Address} {amount : U256}
    (hMove : w.move t source recipient amount = some w') (hOther : token ≠ t) (a : Address) :
    w'.holding token a = w.holding token a := by
  obtain ⟨debited, hDebited, -, -, rfl⟩ := World.move_eq_some hMove
  rw [World.setBalance_other hOther, hDebited, World.setBalance_other hOther]

end Balances

section Laws

variable {E : Type} (self : Address) (ext : Handler E)

/-- The token answers what its ledger says, and answering changes nothing. -/
def StandardToken (token : Address) : Prop :=
  ∀ account, Reads (ext (.balanceOf token account)) fun st => [st.world.balance token account]

/-- A flash loan that succeeds: the assets in, the callback once with the data handed
over, the assets out, and nothing between these three. -/
def MorphoLends (token : Address) : Prop :=
  ∀ assets data st reply st', ext (.flashLoan token assets data) st = .ok (reply, st') →
    ∃ (inner : Handler E) (st₁ st₂ : State E), StandardToken inner token ∧
      st.world.move token MORPHO self assets = some st₁.world ∧
      onMorphoFlashLoan self inner MORPHO assets (some data) st₁ = .ok ((), st₂) ∧
      st₂.world.move token self MORPHO assets = some st'.world

end Laws

section Machine

variable {E : Type}

theorem require_ok {condition : Bool} {reason : Revert} {st : State E} {r : Unit × State E}
    (hRun : require condition reason st = .ok r) : condition = true ∧ r = ((), st) := by
  unfold require at hRun
  split at hRun
  next hHolds => exact ⟨hHolds, (pure_eq_ok.mp hRun).symm⟩
  · cases hRun

theorem require_reads {condition : Bool} {reason : Revert} (hHolds : condition = true) :
    Reads (require condition reason : Exec E Unit) fun _ => () := by
  intro st
  rw [hHolds]
  rfl

theorem checkedAdd_ok {a b : U256} {st : State E} {r : U256 × State E}
    (hRun : checkedAdd a b st = .ok r) : r.1.toNat = a.toNat + b.toNat ∧ r.2 = st := by
  unfold checkedAdd at hRun
  split at hRun
  next hFits =>
    obtain rfl := pure_eq_ok.mp hRun
    exact ⟨by rw [BitVec.toNat_add, Nat.mod_eq_of_lt hFits], rfl⟩
  · cases hRun

theorem getWorld_reads : Reads (getWorld : Exec E World) State.world := fun _ => rfl

theorem index_reads {α : Type} {xs : List α} {i : Nat} {x : α} (hx : xs[i]? = some x) :
    Reads (index xs i : Exec E α) fun _ => x := by
  intro st
  unfold index
  rw [hx]
  rfl

theorem decodeWord_reads {bits i : Nat} {reply : List U256} {word : U256} (hWord : reply[i]? = some word)
    (hFits : word.toNat < 2 ^ bits) : Reads (decodeWord bits reply i : Exec E U256) fun _ => word := by
  intro st
  unfold decodeWord
  rw [hWord]
  dsimp only
  rw [if_pos hFits]
  rfl

theorem checkedNeg_reads {x : I256} (hRange : x ≠ BitVec.intMin 256) :
    Reads (checkedNeg x : Exec E I256) fun _ => -x := by
  intro st
  unfold checkedNeg
  rw [if_neg hRange]
  rfl

theorem checkedMul_reads {a b : U256} (hFits : a.toNat * b.toNat < 2 ^ 256) :
    Reads (checkedMul a b : Exec E U256) fun _ => a * b := by
  intro st
  unfold checkedMul
  rw [if_pos hFits]
  rfl

theorem checkedAdd_reads {a b : U256} (hFits : a.toNat + b.toNat < 2 ^ 256) :
    Reads (checkedAdd a b : Exec E U256) fun _ => a + b := by
  intro st
  unfold checkedAdd
  rw [if_pos hFits]
  rfl

theorem checkedDiv_reads {a b : U256} (hDivisor : b ≠ 0#256) :
    Reads (checkedDiv a b : Exec E U256) fun _ => a / b := by
  intro st
  unfold checkedDiv
  rw [if_neg hDivisor]
  rfl

theorem decodeAddress_reads (a : Address) : Reads (decodeAddress [a.setWidth 256] : Exec E Address) fun _ => a := by
  intro st
  have hFits : (a.setWidth 256).toNat < 2 ^ 160 := by
    rw [BitVec.toNat_setWidth_of_le (by decide)]
    exact a.isLt
  have hBack : (a.setWidth 256).setWidth 160 = a := BitVec.setWidth_setWidth_of_le a (by decide)
  have hDecoded : decodeAddress [a.setWidth 256] st = .ok ((a.setWidth 256).setWidth 160, st) :=
    (decodeWord_reads rfl hFits).bind _ st
  rw [hDecoded, hBack]

theorem balanceOf_reads {ext : Handler E} {token : Address} (hToken : StandardToken ext token)
    (account : Address) :
    Reads (balanceOf ext token account) fun st => st.world.balance token account := by
  intro st
  have hWord : (st.world.balance token account).toNat < 2 ^ 256 := BitVec.isLt _
  calc balanceOf ext token account st
      = decodeWord 256 [st.world.balance token account] 0 st := (hToken account).bind _ st
    _ = .ok (st.world.balance token account, st) := by
      simp only [decodeWord, List.getElem?_cons_zero, if_pos hWord]
      rfl

end Machine

end Robinarb.ArbExecutor
