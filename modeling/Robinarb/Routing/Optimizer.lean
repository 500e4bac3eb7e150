import Robinarb.Math.QuoteF64
import Robinarb.Routing.Graph

/-! # Sizing a route

`routing::optimizer`, its floats in exact arithmetic over an ordered field. A pool index
that the registry does not know panics, which is the outer `none` below.
-/

namespace Robinarb

open scoped Numerals

def Engine.metaOf (e : Engine) (idx : Nat) : Option PoolMeta := e.metas[idx]?

structure Optimizer.Opportunity where
  routeId : Nat
  amountIn : U256
  grossOut : U256
  grossProfit : U256
  deriving DecidableEq

section Exact

variable {ε : Type} (M : SwapMath ε) (keccak : Keccak) (engine : Engine) (s : ChainState)

/-- The loop of `quote_route`, with the hops it has left. -/
def quoteHops : List Hop → U256 → Option (Option U256)
  | [], amt => some (some amt)
  | hop :: rest, amt => do
    let pool ← engine.metaOf hop.pool
    let out ← quote M keccak s pool amt hop.zeroForOne
    if out = 0#256 then return none else quoteHops rest out

def quoteRoute (route : Route) (amountIn : U256) : Option (Option U256) :=
  quoteHops M keccak engine s route.hops amountIn

end Exact

section Float

variable {K : Type} [Field K] [LinearOrder K]

section Quote

variable [FloorSemiring K] {ε : Type} (M : SwapMath ε) (keccak : Keccak) (solve : K → K → K → K) (engine : Engine)
  (s : ChainState)

/-- The loop of `quote_route_f64`, with the hops it has left. -/
def quoteHopsF64With : List Hop → K → Option K
  | [], amt => some amt
  | hop :: rest, amt => do
    let pool ← engine.metaOf hop.pool
    let out := quoteF64With M keccak solve s pool amt hop.zeroForOne
    if out ≤ 0 then return 0 else quoteHopsF64With rest out

def quoteRouteF64 (route : Route) (amountIn : K) : Option K :=
  quoteHopsF64With M keccak AeroStable.newton engine s route.hops amountIn

end Quote

section Rates

variable (engine : Engine) (s : ChainState)

/-- The loop of `spot_product`, with the hops it has left. -/
def spotHops : List Hop → K → Option K
  | [], prod => some prod
  | hop :: rest, prod => do
    let pool ← engine.metaOf hop.pool
    let next := prod * spotRate s pool hop.zeroForOne
    if next = 0 then return 0 else spotHops rest next

variable (K) in
def spotProduct (route : Route) : Option K := spotHops engine s route.hops 1

variable (K) in
/-- The reserves of a constant-product pool. -/
def pureReserves (idx : Nat) (pool : PoolMeta) : Option (K × K) :=
  match s.plan idx with
  | some (.v2Packed addr slot) =>
    let (r0, r1) := decodeV2Packed (s.read addr slot)
    some ((r0.toNat : K), (r1.toNat : K))
  | some (.v2TwoSlot addr r0) =>
    if pool.dex = .aeroVolatile then some (u256ToF64 K (s.read addr r0), u256ToF64 K (s.read addr (r0 + 1#256)))
    else none
  | _ => none

variable (K) in
/-- The loop of `is_pure_v2`: input reserve, output reserve and fee of each hop. -/
def pureHops : List Hop → Option (Option (List (K × K × U32)))
  | [] => some (some [])
  | hop :: rest => do
    let pool ← engine.metaOf hop.pool
    match pureReserves K s hop.pool pool with
    | none => return none
    | some reserves =>
      let (rin, rout) := inDirection hop.zeroForOne reserves
      return (← pureHops rest).map ((rin, rout, pool.feeBps) :: ·)

variable (K) in
def isPureV2 (route : Route) : Option (Option (List (K × K × U32))) := pureHops K engine s route.hops

end Rates

section Size

/-- The hops of a chain as one rational function. -/
def composeHops (first : K × K × U32) (rest : List (K × K × U32)) : V2.HopCoef K :=
  rest.foldl (fun coef h => V2.compose coef (V2.hopCoef h.1 h.2.1 h.2.2)) (V2.hopCoef first.1 first.2.1 first.2.2)

def closedFormOptimal (sqrt : K → K) (first : K × K × U32) (rest : List (K × K × U32)) : Option K :=
  let coef := composeHops first rest
  if coef.a ≤ coef.b ∨ coef.c ≤ 0 then none
  else
    let x := (sqrt (coef.a * coef.b) - coef.b) / coef.c
    if 0 < x then some x else none

/-- One turn of the ternary search. -/
def ternaryStep (profit : K → Option K) (range : K × K) : Option (K × K) := do
  let (lo, hi) := range
  let m1 := lo + (hi - lo) / 3
  let m2 := hi - (hi - lo) / 3
  let p1 ← profit m1
  let p2 ← profit m2
  return if p1 < p2 then (m1, hi) else (lo, m2)

/-- The loop of `ternary_search`, with the iterations it has left. -/
def ternaryLoop (profit : K → Option K) : Nat → K × K → Option (K × K)
  | 0, range => some range
  | n + 1, range => do ternaryLoop profit n (← ternaryStep profit range)

def ternarySearch (profit : K → Option K) (lo hi : K) (iters : Nat) : Option K :=
  (ternaryLoop profit iters (lo, hi)).map fun range => (range.1 + range.2) / 2

/-- `f64::clamp`, which panics when its bounds are out of order. -/
def clampF64 (x lo hi : K) : Option K :=
  if lo ≤ hi then some (if x < lo then lo else if hi < x then hi else x) else none

end Size

section Optimize

variable [FloorSemiring K] {ε : Type} (M : SwapMath ε) (keccak : Keccak) (sqrt : K → K) (engine : Engine)
  (s : ChainState)

def routeProfit (route : Route) (x : K) : Option K := (quoteRouteF64 M keccak engine s route x).map (· - x)

/-- The size that `optimize` tries; the inner `none` gives the route up. -/
def candidateSize (route : Route) (minIn maxIn : K) : Option (Option K) := do
  match ← isPureV2 K engine s route with
  | some [] => none
  | some (first :: rest) =>
    match closedFormOptimal sqrt first rest with
    | none => return none
    | some x => return some (← clampF64 x minIn maxIn)
  | none =>
    -- the probe before the search
    if (← routeProfit M keccak engine s route minIn) ≤ 0 then return none
    else
      let x ← ternarySearch (routeProfit M keccak engine s route) minIn maxIn 60
      return some (← clampF64 x minIn maxIn)

def optimize (route : Route) (minIn maxIn : K) : Option (Option Optimizer.Opportunity) := do
  match ← candidateSize M keccak sqrt engine s route minIn maxIn with
  | none => return none
  | some x =>
    let amountIn := wholeAmount x
    if amountIn = 0#256 then return none
    else
      match ← quoteRoute M keccak engine s route amountIn with
      | none => return none
      | some grossOut =>
        if grossOut ≤ amountIn then return none
        else return some ⟨route.id, amountIn, grossOut, grossOut - amountIn⟩

end Optimize

end Float

end Robinarb
