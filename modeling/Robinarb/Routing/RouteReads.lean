import Robinarb.Library.Lookups
import Robinarb.Routing.Optimizer

/-! # What a route reads

The four readers of a route with the base slots they look up, in the order of the source.
The tick reader of a walk is not among them: it has caches of its own.
-/

namespace Robinarb

open Lookups Logged
open scoped Numerals

def readSlot (addr : Address) (slot : U256) : Logged ChainState SlotKey U256 := lookup (fun s key => s.read key.1 key.2) (addr, slot)

def planOf (idx : Nat) : Logged ChainState SlotKey (Option SlotPlan) := peek fun s => s.plan idx

section Pools

variable {ε : Type} (M : SwapMath ε) (keccak : Keccak)

def quoteReading (pool : PoolMeta) (amountIn : U256) (zeroForOne : Bool) : Logged ChainState SlotKey (Option U256) := do
  match ← planOf pool.idx with
  | none => return some 0#256
  | some (.v2Packed addr slot) =>
    let (r0, r1) := decodeV2Packed (← readSlot addr slot)
    if r0 = 0#128 ∨ r1 = 0#128 then return some 0#256
    else
      let (rin, rout) :=
        if zeroForOne then (r0.setWidth 256, r1.setWidth 256) else (r1.setWidth 256, r0.setWidth 256)
      return V2.getAmountOut amountIn rin rout pool.feeBps
  | some (.v2TwoSlot addr r0) =>
    let w0 ← readSlot addr r0
    let w1 ← readSlot addr (r0 + 1#256)
    if w0 = 0#256 ∨ w1 = 0#256 then return some 0#256
    else if pool.dex = .aeroStable then
      let d0 := BitVec.ofNat 256 (10 ^ pool.dec0.toNat)
      let d1 := BitVec.ofNat 256 (10 ^ pool.dec1.toNat)
      let (rin, rout, din, dout) := if zeroForOne then (w0, w1, d0, d1) else (w1, w0, d1, d0)
      return AeroStable.getAmountOut amountIn rin rout din dout pool.feeBps
    else
      let (rin, rout) := if zeroForOne then (w0, w1) else (w1, w0)
      return V2.getAmountOut amountIn rin rout pool.feeBps
  | some (.cl plan) =>
    let word0 ← readSlot plan.addr plan.slot0
    let (sqrt, tick) := decodeV3Slot0 word0
    if sqrt = 0#256 then return some 0#256
    else
      let liq := decodeShifted128 (← readSlot plan.addr plan.liquidity) plan.liquidityShift
      let reader ← peek plan.reader
      return some (getAmountOutSrc M (reader.source keccak)
        ⟨zeroForOne, plan.fee.pips pool word0, plan.tickCodec.walkSpacing pool⟩ amountIn sqrt tick liq)

variable {K : Type} [Field K] [LinearOrder K]

def quoteF64Reading [FloorSemiring K] (solve : K → K → K → K) (pool : PoolMeta) (amountIn : K) (zeroForOne : Bool) :
    Logged ChainState SlotKey K := do
  match ← planOf pool.idx with
  | none => return 0
  | some (.v2Packed addr slot) =>
    let (r0, r1) := decodeV2Packed (← readSlot addr slot)
    let (rin, rout) := inDirection zeroForOne ((r0.toNat : K), (r1.toNat : K))
    return V2.getAmountOutF64 amountIn rin rout pool.feeBps
  | some (.v2TwoSlot addr r0) =>
    let w0 ← readSlot addr r0
    let w1 ← readSlot addr (r0 + 1#256)
    let (rin, rout) := inDirection zeroForOne (u256ToF64 K w0, u256ToF64 K w1)
    if pool.dex = .aeroStable then
      let (din, dout) := inDirection zeroForOne ((10 : K) ^ pool.dec0.toNat, (10 : K) ^ pool.dec1.toNat)
      return AeroStable.getAmountOutWith solve amountIn rin rout din dout pool.feeBps
    else return V2.getAmountOutF64 amountIn rin rout pool.feeBps
  | some (.cl _) =>
    return ((← quoteReading M keccak pool (wholeAmount amountIn) zeroForOne).map (u256ToF64 K)).getD 0

variable (K) in
def spotRateReading (pool : PoolMeta) (zeroForOne : Bool) : Logged ChainState SlotKey K := do
  match ← planOf pool.idx with
  | none => return 0
  | some (.v2Packed addr slot) =>
    let (r0, r1) := decodeV2Packed (← readSlot addr slot)
    let (rin, rout) := inDirection zeroForOne ((r0.toNat : K), (r1.toNat : K))
    return if rin ≤ 0 ∨ rout ≤ 0 then 0 else feeFactor K pool.feeBps * rout / rin
  | some (.v2TwoSlot addr r0) =>
    let w0 ← readSlot addr r0
    let w1 ← readSlot addr (r0 + 1#256)
    if pool.dex = .aeroStable then
      let x := u256ToF64 K w0 / 10 ^ pool.dec0.toNat
      let y := u256ToF64 K w1 / 10 ^ pool.dec1.toNat
      if x ≤ 0 ∨ y ≤ 0 then return 0
      else
        let (a, b) := inDirection zeroForOne (x, y)
        let num := 3 * a * a * b + b * b * b
        let den := a * a * a + 3 * a * b * b
        return if den ≤ 0 then 0 else feeFactor K pool.feeBps * num / den
    else
      let (rin, rout) := inDirection zeroForOne (u256ToF64 K w0, u256ToF64 K w1)
      return if rin ≤ 0 ∨ rout ≤ 0 then 0 else feeFactor K pool.feeBps * rout / rin
  | some (.cl plan) =>
    let word0 ← readSlot plan.addr plan.slot0
    let sp := u256ToF64 K (decodeV3Slot0 word0).1
    let ratio := sp / 2 ^ 96
    let price1Per0 := ratio * ratio
    if price1Per0 ≤ 0 then return 0
    else
      let gamma := ((1000000 - (plan.fee.pips pool word0).toNat : Int) : K) / 1000000
      return if zeroForOne then gamma * price1Per0 else gamma / price1Per0

variable (K) in
def pureReservesReading (idx : Nat) (pool : PoolMeta) : Logged ChainState SlotKey (Option (K × K)) := do
  match ← planOf idx with
  | some (.v2Packed addr slot) =>
    let (r0, r1) := decodeV2Packed (← readSlot addr slot)
    return some ((r0.toNat : K), (r1.toNat : K))
  | some (.v2TwoSlot addr r0) =>
    if pool.dex = .aeroVolatile then
      let w0 ← readSlot addr r0
      let w1 ← readSlot addr (r0 + 1#256)
      return some (u256ToF64 K w0, u256ToF64 K w1)
    else return none
  | _ => return none

end Pools

section Routes

variable {K : Type} [Field K] [LinearOrder K] {ε : Type} (M : SwapMath ε) (keccak : Keccak) (engine : Engine)

def quoteHopsReading : List Hop → U256 → Logged ChainState SlotKey (Option (Option U256))
  | [], amt => return some (some amt)
  | hop :: rest, amt => do
    match engine.metaOf hop.pool with
    | none => return none
    | some pool =>
      match ← quoteReading M keccak pool amt hop.zeroForOne with
      | none => return none
      | some out => if out = 0#256 then return some none else quoteHopsReading rest out

def quoteRouteReading (route : Route) (amountIn : U256) : Logged ChainState SlotKey (Option (Option U256)) :=
  quoteHopsReading M keccak engine route.hops amountIn

def quoteHopsF64Reading [FloorSemiring K] (solve : K → K → K → K) : List Hop → K →
    Logged ChainState SlotKey (Option K)
  | [], amt => return some amt
  | hop :: rest, amt => do
    match engine.metaOf hop.pool with
    | none => return none
    | some pool =>
      let out ← quoteF64Reading M keccak solve pool amt hop.zeroForOne
      if out ≤ 0 then return some 0 else quoteHopsF64Reading solve rest out

def quoteRouteF64Reading [FloorSemiring K] (route : Route) (amountIn : K) : Logged ChainState SlotKey (Option K) :=
  quoteHopsF64Reading M keccak engine AeroStable.newton route.hops amountIn

def spotHopsReading : List Hop → K → Logged ChainState SlotKey (Option K)
  | [], prod => return some prod
  | hop :: rest, prod => do
    match engine.metaOf hop.pool with
    | none => return none
    | some pool =>
      let next := prod * (← spotRateReading K pool hop.zeroForOne)
      if next = 0 then return some 0 else spotHopsReading rest next

variable (K) in
def spotProductReading (route : Route) : Logged ChainState SlotKey (Option K) := spotHopsReading engine route.hops 1

variable (K) in
def pureHopsReading : List Hop → Logged ChainState SlotKey (Option (Option (List (K × K × U32))))
  | [] => return some (some [])
  | hop :: rest => do
    match engine.metaOf hop.pool with
    | none => return none
    | some pool =>
      match ← pureReservesReading K hop.pool pool with
      | none => return some none
      | some reserves =>
        let (rin, rout) := inDirection hop.zeroForOne reserves
        return (← pureHopsReading rest).map (·.map ((rin, rout, pool.feeBps) :: ·))

variable (K) in
def isPureV2Reading (route : Route) : Logged ChainState SlotKey (Option (Option (List (K × K × U32)))) :=
  pureHopsReading K engine route.hops

end Routes

section Values

variable {ε : Type} {M : SwapMath ε} {keccak : Keccak} {s : ChainState} {pool : PoolMeta} {zeroForOne : Bool}

theorem quoteReading_value {amountIn : U256} :
    (quoteReading M keccak pool amountIn zeroForOne).value s = quote M keccak s pool amountIn zeroForOne := by
  unfold quoteReading quote
  simp only [value_bind, planOf, value_peek]
  cases s.plan pool.idx with
  | none => rfl
  | some plan =>
    cases plan with
    | v2Packed addr slot =>
      cases zeroForOne <;> simp only [value_bind, value_ite, value_pure] <;> rfl
    | v2TwoSlot addr r0 =>
      cases zeroForOne <;> simp only [value_bind, value_ite, value_pure] <;> rfl
    | cl plan =>
      simp only [value_bind, value_ite, value_pure]
      rfl

variable {K : Type} [Field K]

theorem pureReservesReading_value (idx : Nat) :
    (pureReservesReading K idx pool).value s = pureReserves K s idx pool := by
  unfold pureReservesReading pureReserves
  simp only [value_bind, planOf, value_peek]
  cases s.plan idx with
  | none => rfl
  | some plan =>
    cases plan with
    | v2Packed addr slot => rfl
    | v2TwoSlot addr r0 =>
      simp only [value_bind, value_ite, value_pure]
      rfl
    | cl plan => rfl

theorem pureHopsReading_value (engine : Engine) (hops : List Hop) :
    (pureHopsReading K engine hops).value s = pureHops K engine s hops := by
  induction hops with
  | nil => rfl
  | cons hop rest ih =>
    unfold pureHopsReading pureHops
    cases engine.metaOf hop.pool with
    | none => rfl
    | some pool =>
      simp only [value_bind, pureReservesReading_value, Option.bind_eq_bind, Option.bind_some]
      cases pureReserves K s hop.pool pool with
      | none => rfl
      | some reserves =>
        simp only [value_bind, value_pure, ih]
        cases pureHops K engine s rest with
        | none => rfl
        | some hops => rfl

variable [LinearOrder K]

theorem quoteF64Reading_value [FloorSemiring K] {solve : K → K → K → K} {amountIn : K} :
    (quoteF64Reading M keccak solve pool amountIn zeroForOne).value s =
      quoteF64With M keccak solve s pool amountIn zeroForOne := by
  unfold quoteF64Reading quoteF64With
  simp only [value_bind, planOf, value_peek]
  cases s.plan pool.idx with
  | none => rfl
  | some plan =>
    cases plan with
    | v2Packed addr slot => rfl
    | v2TwoSlot addr r0 =>
      simp only [value_bind, value_ite, value_pure]
      rfl
    | cl plan =>
      rw [← quoteReading_value]
      rfl

theorem spotRateReading_value : (spotRateReading K pool zeroForOne).value s = spotRate s pool zeroForOne := by
  unfold spotRateReading spotRate
  simp only [value_bind, planOf, value_peek]
  cases s.plan pool.idx with
  | none => rfl
  | some plan =>
    cases plan with
    | v2Packed addr slot => rfl
    | v2TwoSlot addr r0 =>
      simp only [value_bind, value_ite, value_pure]
      rfl
    | cl plan =>
      simp only [value_bind, value_ite, value_pure]
      rfl

theorem quoteHopsReading_value (engine : Engine) (hops : List Hop) (amountIn : U256) :
    (quoteHopsReading M keccak engine hops amountIn).value s = quoteHops M keccak engine s hops amountIn := by
  induction hops generalizing amountIn with
  | nil => rfl
  | cons hop rest ih =>
    unfold quoteHopsReading quoteHops
    cases engine.metaOf hop.pool with
    | none => rfl
    | some pool =>
      simp only [value_bind, quoteReading_value, Option.bind_eq_bind, Option.bind_some]
      cases quote M keccak s pool amountIn hop.zeroForOne with
      | none => rfl
      | some out =>
        simp only [Option.bind_some, value_ite, ih]
        rfl

theorem quoteHopsF64Reading_value [FloorSemiring K] {solve : K → K → K → K} (engine : Engine) (hops : List Hop)
    (amountIn : K) : (quoteHopsF64Reading M keccak engine solve hops amountIn).value s =
      quoteHopsF64With M keccak solve engine s hops amountIn := by
  induction hops generalizing amountIn with
  | nil => rfl
  | cons hop rest ih =>
    unfold quoteHopsF64Reading quoteHopsF64With
    cases engine.metaOf hop.pool with
    | none => rfl
    | some pool =>
      simp only [value_bind, quoteF64Reading_value, Option.bind_eq_bind, Option.bind_some, value_ite, ih]
      rfl

theorem spotHopsReading_value (engine : Engine) (hops : List Hop) (prod : K) :
    (spotHopsReading engine hops prod).value s = spotHops engine s hops prod := by
  induction hops generalizing prod with
  | nil => rfl
  | cons hop rest ih =>
    unfold spotHopsReading spotHops
    cases engine.metaOf hop.pool with
    | none => rfl
    | some pool =>
      simp only [value_bind, spotRateReading_value, Option.bind_eq_bind, Option.bind_some, value_ite, ih]
      rfl

end Values

section Footprints

variable {ε : Type} {M : SwapMath ε} {keccak : Keccak} {s : ChainState} {pool : PoolMeta} {zeroForOne : Bool}
  {P : SlotKey → Prop}

def SlotsOf (s : ChainState) (P : SlotKey → Prop) (idx : Nat) : Prop :=
  ∀ plan, s.plan idx = some plan → ∀ key ∈ ChainState.planSlots plan, P key

section Reads

variable {α : Type} {idx : Nat}

theorem SlotsOf.packed {addr : Address} {slot : U256} (h : SlotsOf s P idx)
    (hPlan : s.plan idx = some (.v2Packed addr slot)) {f : U256 → Logged ChainState SlotKey α}
    (hf : ∀ w, (f w).Within s P) : (readSlot addr slot >>= f).Within s P :=
  Within.bind (Within.lookup (h _ hPlan _ List.mem_cons_self)) (hf _)

theorem SlotsOf.twoSlot {addr : Address} {r0 : U256} (h : SlotsOf s P idx)
    (hPlan : s.plan idx = some (.v2TwoSlot addr r0)) {f : U256 → U256 → Logged ChainState SlotKey α}
    (hf : ∀ w0 w1, (f w0 w1).Within s P) :
    (do
      let w0 ← readSlot addr r0
      let w1 ← readSlot addr (r0 + 1#256)
      f w0 w1).Within s P := by
  apply Within.bind (Within.lookup (h _ hPlan _ List.mem_cons_self))
  apply Within.bind (Within.lookup (h _ hPlan _ (List.mem_cons_of_mem _ List.mem_cons_self)))
  exact hf _ _

theorem SlotsOf.slot0 {plan : ClPlan} (h : SlotsOf s P idx) (hPlan : s.plan idx = some (.cl plan))
    {f : U256 → Logged ChainState SlotKey α} (hf : ∀ w, (f w).Within s P) :
    (readSlot plan.addr plan.slot0 >>= f).Within s P :=
  Within.bind (Within.lookup (h _ hPlan _ List.mem_cons_self)) (hf _)

theorem SlotsOf.liquidity {plan : ClPlan} (h : SlotsOf s P idx) (hPlan : s.plan idx = some (.cl plan))
    {f : U256 → Logged ChainState SlotKey α} (hf : ∀ w, (f w).Within s P) :
    (readSlot plan.addr plan.liquidity >>= f).Within s P :=
  Within.bind (Within.lookup (h _ hPlan _ (List.mem_cons_of_mem _ List.mem_cons_self))) (hf _)

end Reads

theorem quoteReading_within {amountIn : U256} (h : SlotsOf s P pool.idx) :
    (quoteReading M keccak pool amountIn zeroForOne).Within s P := by
  apply Within.bind (Within.peek _)
  simp only [value_peek]
  cases hPlan : s.plan pool.idx with
  | none => exact Within.pure _
  | some plan =>
    cases plan with
    | v2Packed addr slot =>
      apply h.packed hPlan
      intro w
      cases zeroForOne <;> exact Within.ite (fun _ => Within.pure _) fun _ => Within.pure _
    | v2TwoSlot addr r0 =>
      apply h.twoSlot hPlan
      intro w0 w1
      apply Within.ite (fun _ => Within.pure _)
      intro _
      cases zeroForOne <;> exact Within.ite (fun _ => Within.pure _) fun _ => Within.pure _
    | cl plan =>
      apply h.slot0 hPlan
      intro w
      apply Within.ite (fun _ => Within.pure _)
      intro _
      apply h.liquidity hPlan
      intro w
      exact Within.bind (Within.peek _) (Within.pure _)

variable {K : Type} [Field K]

theorem pureReservesReading_within {idx : Nat} (h : SlotsOf s P idx) :
    (pureReservesReading K idx pool).Within s P := by
  apply Within.bind (Within.peek _)
  simp only [value_peek]
  cases hPlan : s.plan idx with
  | none => exact Within.pure _
  | some plan =>
    cases plan with
    | v2Packed addr slot => exact h.packed hPlan fun _ => Within.pure _
    | v2TwoSlot addr r0 =>
      apply Within.ite
      · intro _
        exact h.twoSlot hPlan fun _ _ => Within.pure _
      · exact fun _ => Within.pure _
    | cl plan => exact Within.pure _

theorem pureHopsReading_within {engine : Engine} {hops : List Hop} (h : ∀ hop ∈ hops, SlotsOf s P hop.pool) :
    (pureHopsReading K engine hops).Within s P := by
  induction hops with
  | nil => exact Within.pure _
  | cons hop rest ih =>
    obtain ⟨hHop, hRest⟩ := List.forall_mem_cons.mp h
    unfold pureHopsReading
    cases engine.metaOf hop.pool with
    | none => exact Within.pure _
    | some pool =>
      apply Within.bind (pureReservesReading_within hHop)
      cases (pureReservesReading K hop.pool pool).value s with
      | none => exact Within.pure _
      | some reserves => exact Within.bind (ih hRest) (Within.pure _)

variable [LinearOrder K]

theorem quoteF64Reading_within [FloorSemiring K] {solve : K → K → K → K} {amountIn : K} (h : SlotsOf s P pool.idx) :
    (quoteF64Reading M keccak solve pool amountIn zeroForOne).Within s P := by
  apply Within.bind (Within.peek _)
  simp only [value_peek]
  cases hPlan : s.plan pool.idx with
  | none => exact Within.pure _
  | some plan =>
    cases plan with
    | v2Packed addr slot => exact h.packed hPlan fun _ => Within.pure _
    | v2TwoSlot addr r0 =>
      apply h.twoSlot hPlan
      intro w0 w1
      exact Within.ite (fun _ => Within.pure _) fun _ => Within.pure _
    | cl plan => exact Within.bind (quoteReading_within h) (Within.pure _)

theorem spotRateReading_within (h : SlotsOf s P pool.idx) : (spotRateReading K pool zeroForOne).Within s P := by
  apply Within.bind (Within.peek _)
  simp only [value_peek]
  cases hPlan : s.plan pool.idx with
  | none => exact Within.pure _
  | some plan =>
    cases plan with
    | v2Packed addr slot => exact h.packed hPlan fun _ => Within.pure _
    | v2TwoSlot addr r0 =>
      apply h.twoSlot hPlan
      intro w0 w1
      exact Within.ite (fun _ => Within.ite (fun _ => Within.pure _) fun _ => Within.pure _) fun _ => Within.pure _
    | cl plan =>
      apply h.slot0 hPlan
      intro w
      exact Within.ite (fun _ => Within.pure _) fun _ => Within.pure _

variable {engine : Engine} (hIdx : ∀ idx pool, engine.metaOf idx = some pool → pool.idx = idx)

include hIdx

theorem quoteHopsReading_within {hops : List Hop} (h : ∀ hop ∈ hops, SlotsOf s P hop.pool) (amountIn : U256) :
    (quoteHopsReading M keccak engine hops amountIn).Within s P := by
  induction hops generalizing amountIn with
  | nil => exact Within.pure _
  | cons hop rest ih =>
    obtain ⟨hHop, hRest⟩ := List.forall_mem_cons.mp h
    unfold quoteHopsReading
    cases hPool : engine.metaOf hop.pool with
    | none => exact Within.pure _
    | some pool =>
      apply Within.bind (quoteReading_within (hIdx _ _ hPool ▸ hHop))
      cases (quoteReading M keccak pool amountIn hop.zeroForOne).value s with
      | none => exact Within.pure _
      | some out => exact Within.ite (fun _ => Within.pure _) fun _ => ih hRest out

theorem quoteHopsF64Reading_within [FloorSemiring K] {solve : K → K → K → K} {hops : List Hop}
    (h : ∀ hop ∈ hops, SlotsOf s P hop.pool) (amountIn : K) :
    (quoteHopsF64Reading M keccak engine solve hops amountIn).Within s P := by
  induction hops generalizing amountIn with
  | nil => exact Within.pure _
  | cons hop rest ih =>
    obtain ⟨hHop, hRest⟩ := List.forall_mem_cons.mp h
    unfold quoteHopsF64Reading
    cases hPool : engine.metaOf hop.pool with
    | none => exact Within.pure _
    | some pool =>
      apply Within.bind (quoteF64Reading_within (hIdx _ _ hPool ▸ hHop))
      exact Within.ite (fun _ => Within.pure _) fun _ => ih hRest _

theorem spotHopsReading_within {hops : List Hop} (h : ∀ hop ∈ hops, SlotsOf s P hop.pool) (prod : K) :
    (spotHopsReading engine hops prod).Within s P := by
  induction hops generalizing prod with
  | nil => exact Within.pure _
  | cons hop rest ih =>
    obtain ⟨hHop, hRest⟩ := List.forall_mem_cons.mp h
    unfold spotHopsReading
    cases hPool : engine.metaOf hop.pool with
    | none => exact Within.pure _
    | some pool =>
      apply Within.bind (spotRateReading_within (hIdx _ _ hPool ▸ hHop))
      exact Within.ite (fun _ => Within.pure _) fun _ => ih hRest _

end Footprints

end Robinarb
