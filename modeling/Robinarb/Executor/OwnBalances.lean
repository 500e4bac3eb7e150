import Robinarb.Executor.Encoder
import Robinarb.Library.Runs
import Robinarb.Routing.SealedRoutes
import Mathlib.Logic.Function.Basic

/-! # The executor's balances

`own_balances` and those who refresh it: the balance loop, and a monitor behind each
receipt. A refresh clones the map, asks for one anchor after the other and stores its clone
whole, and refreshes overlap. A node answers from the latest block or from one before it.
-/

namespace Robinarb

open Runs

/-- A call of `refresh_own_balances`: its clone, and the anchors it has yet to ask for. -/
structure BalanceRefresh where
  updated : Address → Option U256
  rest : List Address

/-- What `submit` decides the funding by, and what it encodes. -/
structure FundedCall where
  anchor : Address
  amountIn : U256
  own : U256
  useFlashloan : Bool
  call : ArbExecutor.Call

/-- The executor's balances at each block, the latest first, and what the sender makes of them. -/
structure OwnBalances where
  blocks : List (Address → U256)
  own : Address → Option U256
  refreshes : List BalanceRefresh
  sent : List FundedCall

/-- An answer comes from a block of some age, and `none` is an error. -/
inductive BalanceStep where
  | mine (balances : Address → U256)
  | refresh
  | answer (i : Nat) (age : Option Nat)
  | store (i : Nat)
  | submit (routeId : Nat) (amountIn : U256)

namespace OwnBalances

variable (engine : Engine) (store : RouteStore) (forceFlashloan : Bool) (anchors : List Address)

/-- The map that `build` starts from. -/
def start (blocks : List (Address → U256)) (ages : Address → Option Nat) : OwnBalances where
  blocks := blocks
  own a := if a ∈ anchors then some (((ages a).bind fun age => blocks[age]?.map fun block => block a).getD 0#256) else none
  refreshes := []
  sent := []

def answered (s : OwnBalances) (r : BalanceRefresh) (age : Option Nat) : Option BalanceRefresh :=
  match r.rest, age with
  | [], _ => none
  | _ :: rest, none => some ⟨r.updated, rest⟩
  | a :: rest, some age => s.blocks[age]?.map fun block => ⟨Function.update r.updated a (some (block a)), rest⟩

def step (s : OwnBalances) : BalanceStep → Option OwnBalances
  | .mine balances => some { s with blocks := balances :: s.blocks }
  | .refresh => some { s with refreshes := s.refreshes ++ [⟨s.own, anchors⟩] }
  | .answer i age => do
    let r ← s.refreshes[i]?
    let next ← s.answered r age
    return { s with refreshes := s.refreshes.set i next }
  | .store i => do
    let r ← s.refreshes[i]?
    if r.rest = [] then some { s with own := r.updated, refreshes := s.refreshes.eraseIdx i } else none
  | .submit routeId amountIn => do
    let route ← store.route routeId
    let own := (s.own route.anchor).getD 0#256
    let (call, useFlashloan) ← encode engine store routeId amountIn own forceFlashloan
    return { s with sent := ⟨route.anchor, amountIn, own, useFlashloan, call⟩ :: s.sent }

/-- Nothing, or a balance of some block. -/
def Had (s : OwnBalances) (a : Address) (v : U256) : Prop := v = 0#256 ∨ ∃ block ∈ s.blocks, v = block a

structure Encoded (forceFlashloan : Bool) (c : FundedCall) : Prop where
  call : ∃ hops keys, c.call = .executeArb hops keys c.anchor c.amountIn 0#256 c.useFlashloan
  funding : c.useFlashloan = false ↔ forceFlashloan = false ∧ c.amountIn ≤ c.own

/-- Whatever overwrites what, every number in use is one the executor has had. -/
structure Seen (forceFlashloan : Bool) (s : OwnBalances) : Prop where
  own : ∀ a v, s.own a = some v → s.Had a v
  refreshes : ∀ r ∈ s.refreshes, ∀ a v, r.updated a = some v → s.Had a v
  sent : ∀ c ∈ s.sent, Encoded forceFlashloan c ∧ s.Had c.anchor c.own

variable {engine store forceFlashloan anchors} {s t : OwnBalances}

theorem start_seen (blocks : List (Address → U256)) (ages : Address → Option Nat) :
    Seen forceFlashloan (start anchors blocks ages) where
  own a v h := by
    obtain ⟨-, h⟩ := Option.ite_none_right_eq_some.mp h
    obtain rfl := Option.some.inj h
    cases hRead : (ages a).bind fun age => blocks[age]?.map fun block => block a with
    | none => exact .inl rfl
    | some v =>
      obtain ⟨age, -, hBlock⟩ := Option.bind_eq_some_iff.mp hRead
      obtain ⟨block, hAt, rfl⟩ := Option.map_eq_some_iff.mp hBlock
      exact .inr ⟨block, List.mem_of_getElem? hAt, rfl⟩
  refreshes _ h := absurd h List.not_mem_nil
  sent _ h := absurd h List.not_mem_nil

theorem Had.mine {a : Address} {v : U256} (h : s.Had a v) (balances : Address → U256) :
    Had { s with blocks := balances :: s.blocks } a v :=
  h.imp_right fun ⟨block, hMem, hValue⟩ => ⟨block, List.mem_cons_of_mem _ hMem, hValue⟩

theorem answered_seen {r next : BalanceRefresh} {age : Option Nat} (hr : ∀ a v, r.updated a = some v → s.Had a v)
    (h : s.answered r age = some next) : ∀ a v, next.updated a = some v → s.Had a v := by
  unfold answered at h
  split at h
  · cases h
  · cases h
    exact hr
  · rename_i asked _ _ _
    obtain ⟨block, hAt, rfl⟩ := Option.map_eq_some_iff.mp h
    intro a v (hValue : Function.update r.updated asked (some (block asked)) a = some v)
    by_cases hAsked : a = asked
    · subst hAsked
      rw [Function.update_self] at hValue
      exact .inr ⟨block, List.mem_of_getElem? hAt, (Option.some.inj hValue).symm⟩
    · rw [Function.update_of_ne hAsked] at hValue
      exact hr a v hValue

theorem encode_encoded {routeId : Nat} {amountIn own : U256} {call : ArbExecutor.Call} {useFlashloan : Bool} {route : Route}
    (hRoute : store.route routeId = some route)
    (h : encode engine store routeId amountIn own forceFlashloan = some (call, useFlashloan)) :
    Encoded forceFlashloan ⟨route.anchor, amountIn, own, useFlashloan, call⟩ := by
  obtain ⟨found, hFound, h⟩ := Option.bind_eq_some_iff.mp h
  obtain rfl : route = found := Option.some.inj (hRoute.symm.trans hFound)
  obtain ⟨⟨hops, keys⟩, -, hEnd⟩ := Option.bind_eq_some_iff.mp h
  obtain ⟨rfl, rfl⟩ := Prod.mk.inj (Option.some.inj hEnd)
  refine ⟨⟨hops, keys, rfl⟩, ?_⟩
  rw [Bool.or_eq_false_iff, decide_eq_false_iff_not, BitVec.not_lt]

/-- One case a step: who inserts, inserts what a block has, and the others copy. -/
theorem Seen.step (h : Seen forceFlashloan s) {label : BalanceStep}
    (hStep : OwnBalances.step engine store forceFlashloan anchors s label = some t) : Seen forceFlashloan t := by
  cases label with
  | mine balances =>
    cases hStep
    exact ⟨fun a v hv => (h.own a v hv).mine balances, fun r hr a v hv => (h.refreshes r hr a v hv).mine balances,
      fun c hc => ⟨(h.sent c hc).1, (h.sent c hc).2.mine balances⟩⟩
  | refresh =>
    cases hStep
    refine ⟨h.own, fun r hr => ?_, h.sent⟩
    obtain hOld | hNew := List.mem_append.mp hr
    · exact h.refreshes r hOld
    · obtain rfl := List.mem_singleton.mp hNew
      exact h.own
  | answer i age =>
    obtain ⟨r, hr, hStep⟩ := Option.bind_eq_some_iff.mp hStep
    obtain ⟨next, hNext, hEnd⟩ := Option.bind_eq_some_iff.mp hStep
    cases hEnd
    refine ⟨h.own, fun other hOther => ?_, h.sent⟩
    obtain hOld | rfl := List.mem_or_eq_of_mem_set hOther
    · exact h.refreshes other hOld
    · exact answered_seen (h.refreshes r (List.mem_of_getElem? hr)) hNext
  | store i =>
    obtain ⟨r, hr, hStep⟩ := Option.bind_eq_some_iff.mp hStep
    obtain ⟨-, hEnd⟩ := Option.ite_none_right_eq_some.mp hStep
    cases hEnd
    exact ⟨h.refreshes r (List.mem_of_getElem? hr),
      fun other hOther => h.refreshes other (List.mem_of_mem_eraseIdx hOther), h.sent⟩
  | submit routeId amountIn =>
    obtain ⟨route, hRoute, hStep⟩ := Option.bind_eq_some_iff.mp hStep
    obtain ⟨⟨call, useFlashloan⟩, hEncode, hEnd⟩ := Option.bind_eq_some_iff.mp hStep
    cases hEnd
    refine ⟨h.own, h.refreshes, fun c hc => ?_⟩
    obtain rfl | hOld := List.mem_cons.mp hc
    · refine ⟨encode_encoded hRoute hEncode, ?_⟩
      change s.Had route.anchor ((s.own route.anchor).getD 0#256)
      cases hOwn : s.own route.anchor with
      | none => exact .inl rfl
      | some v => exact h.own route.anchor v hOwn
    · exact h.sent c hOld

theorem Had.le {a : Address} {v : U256} (h : s.Had a v) {latest : Address → U256} (hLatest : latest ∈ s.blocks.head?)
    (hRising : s.blocks.Pairwise fun later earlier => earlier a ≤ later a) : v ≤ latest a := by
  obtain rfl | ⟨block, hMem, rfl⟩ := h
  · exact BitVec.le_def.mpr (Nat.zero_le _)
  · obtain ⟨older, hBlocks⟩ := List.head?_eq_some_iff.mp hLatest
    rw [hBlocks] at hMem hRising
    obtain rfl | hOlder := List.mem_cons.mp hMem
    · exact BitVec.le_refl _
    · exact List.rel_of_pairwise_cons hRising hOlder

/-- As long as the balance of an anchor has not fallen, no call is sent on more of it than
there still is, however the refreshes overlap and whatever blocks they are answered from. -/
theorem own_funds_cover {blocks : List (Address → U256)} {ages : Address → Option Nat} {steps : List BalanceStep}
    (hRun : run (OwnBalances.step engine store forceFlashloan anchors) (start anchors blocks ages) steps = some s)
    {c : FundedCall} (hSent : c ∈ s.sent) :
    (∃ hops keys, c.call = .executeArb hops keys c.anchor c.amountIn 0#256 c.useFlashloan) ∧
      (c.useFlashloan = false ↔ forceFlashloan = false ∧ c.amountIn ≤ c.own) ∧
      ∀ latest ∈ s.blocks.head?, (s.blocks.Pairwise fun later earlier => earlier c.anchor ≤ later c.anchor) →
        c.own ≤ latest c.anchor ∧ (c.useFlashloan = false → c.amountIn ≤ latest c.anchor) := by
  have hSeen : Seen forceFlashloan s := run_invariant (fun _ _ _ h hStep => h.step hStep) hRun (start_seen blocks ages)
  obtain ⟨hEncoded, hHad⟩ := hSeen.sent c hSent
  refine ⟨hEncoded.call, hEncoded.funding, fun latest hLatest hRising => ?_⟩
  have hOwn := hHad.le hLatest hRising
  exact ⟨hOwn, fun hFunding => BitVec.le_trans (hEncoded.funding.mp hFunding).2 hOwn⟩

section Sample

/-- The older refresh stores last: what the newer one has read is lost. -/
def overlapping : List BalanceStep :=
  [.refresh, .answer 0 (some 0), .mine fun _ => 150#256, .refresh, .answer 1 (some 0), .store 1, .store 0,
    .submit 0 100#256]

def overlappedRun : Option OwnBalances :=
  run (OwnBalances.step deepEngine deepStore false [2#160]) (start [2#160] [fun _ => 100#256] fun _ => some 0) overlapping

theorem overlappedRun_isSome : overlappedRun.isSome = true := by decide +kernel

def overlapped : OwnBalances := overlappedRun.get overlappedRun_isSome

theorem overlapped_sends : overlapped.sent ≠ [] := by decide +kernel

def selfFunded : FundedCall := overlapped.sent.head overlapped_sends

theorem overlapped_cover :
    (∃ hops keys, selfFunded.call =
        .executeArb hops keys selfFunded.anchor selfFunded.amountIn 0#256 selfFunded.useFlashloan) ∧
      (selfFunded.useFlashloan = false ↔ false = false ∧ selfFunded.amountIn ≤ selfFunded.own) ∧
      ∀ latest ∈ overlapped.blocks.head?,
        (overlapped.blocks.Pairwise fun later earlier => earlier selfFunded.anchor ≤ later selfFunded.anchor) →
        selfFunded.own ≤ latest selfFunded.anchor ∧
          (selfFunded.useFlashloan = false → selfFunded.amountIn ≤ latest selfFunded.anchor) :=
  own_funds_cover (Option.some_get overlappedRun_isSome).symm (List.head_mem overlapped_sends)

end Sample

end OwnBalances

end Robinarb
