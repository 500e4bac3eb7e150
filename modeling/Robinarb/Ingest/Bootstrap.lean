import Robinarb.Ingest.Discovery
import Robinarb.Library.Batch
import Robinarb.Routing.Candidates

/-! # Bootstrap hydration

`hydrate`: from discovered pools and the answers of the multicalls to registrations.
`none` is a panic, which stops the whole run. The return decoders of the generated
bindings and the `f64` operations of the liquidity gate are parameters.
-/

namespace Robinarb

open Batch

inductive Calldata where
  | decimals
  | getReserves
  | getFee (pool : Address) (stable : Bool)
  | slot0
  | globalState
  | liquidity
  | fee
  | getSlot0 (poolId : B256)
  | getLiquidity (poolId : B256)
  | balanceOf (owner : Address)

structure Call where
  target : Address
  calldata : Calldata

structure CallResult where
  success : Bool
  returnData : List U8

/-- The chain as the bootstrap asks it: the multicall, and `probe_token`. -/
structure BootstrapRpc where
  aggregate3 : List Call → List CallResult
  probeToken : Address → List Address → U8 → Option Bool

structure StateViewSlot0 where
  sqrtPriceX96 : BitVec 160
  tick : BitVec 24
  protocolFee : BitVec 24
  lpFee : BitVec 24

structure GlobalState where
  price : BitVec 160
  tick : BitVec 24

structure ReturnDecoders where
  uniReserves : List U8 → Option (BitVec 112 × BitVec 112)
  aeroReserves : List U8 → Option (U256 × U256)
  uint256 : List U8 → Option U256
  globalState : List U8 → Option GlobalState
  stateViewSlot0 : List U8 → Option StateViewSlot0

structure FloatOps (F : Type) where
  zero : F
  two : F
  twoPow96 : F
  ofU128 : U128 → F
  u256ToF64 : U256 → F
  tenPow : U8 → F
  mul : F → F → F
  div : F → F → F
  lt : F → F → Bool
  le : F → F → Bool

structure GateAnchor (F : Type) extends AnchorConfig where
  minLiquidity : F

structure FilterConfig where
  tokenWhitelist : List Address
  tokenBlacklist : List Address

/-- A gate of `none` is settled by the balances the pool really holds. -/
structure PoolRegistration (F : Type) where
  pool : PoolMeta
  factory : Address
  gate : Option (List (Address × F))

/-- The configuration of one bootstrap, with the fee verdicts of earlier runs. -/
structure Bootstrap (F : Type) where
  float : FloatOps F
  decoders : ReturnDecoders
  anchors : List (GateAnchor F)
  filter : FilterConfig
  feeCache : Address → Option Bool
  enforceLiquidity : Bool

def wordOf (bytes : List U8) : Nat := bytes.foldl (fun n b => n * 256 + b.toNat) 0

def leadingWord (data : List U8) : U256 := BitVec.ofNat 256 (wordOf (data.take 32))

/-- The conversion to `u128` panics when the word does not fit. -/
def decodeU128 (data : List U8) : Option (Option U128) :=
  if data.length < 32 then some none
  else if 2 ^ 128 ≤ (leadingWord data).toNat then none
  else some (some ((leadingWord data).setWidth 128))

def decodeSlot0 (data : List U8) : Option (U256 × Int) :=
  if data.length < 64 then none
  else some (leadingWord data, (BitVec.ofNat 32 (wordOf ((data.drop 60).take 4))).toInt)

/-- The bytes a call returned, if it was answered with success. -/
def answered (result : Option CallResult) : Option (List U8) := (result.filter CallResult.success).map CallResult.returnData

/-- `fee()`, cut to 32 bits. -/
def decodeFee (fee : Option (List U8)) : Option (Option U32) :=
  match fee with
  | none => some none
  | some data => (decodeU128 data).map (Option.map (BitVec.setWidth 32))

/-- The fee of a pool that may already be known; `fee()` is read where it is not. -/
def feePipsOr (known : Option U32) (fee : Option (List U8)) : Option U32 :=
  match known with
  | some pips => some pips
  | none => (decodeFee fee).map (Option.getD · 3000#32)

def saturatingU128 (x : U256) : U128 := if x.toNat < 2 ^ 128 then x.setWidth 128 else BitVec.allOnes 128

/-- The last value entered under a key. -/
def lastEntry {κ γ : Type} [BEq κ] (entries : List (κ × γ)) (key : κ) : Option γ :=
  (entries.filter fun entry => entry.1 == key).getLast?.map Prod.snd

def decimalsOf (decimals : List (Address × U8)) (token : Address) : U8 := (decimals.lookup token).getD 18#8

namespace Bootstrap

variable {F : Type} (b : Bootstrap F)

section Requests

def decimalsCall (token : Address) : List Call := [⟨token, .decimals⟩]

def reservesCall (p : DiscoveredPool × Nat) : List Call := [⟨p.1.address, .getReserves⟩]

def aeroFeeCall (p : DiscoveredPool × Nat) : List Call :=
  [⟨p.1.factory, .getFee p.1.address (p.1.dex = .aeroStable)⟩]

def v3Calls (p : DiscoveredPool) : List Call :=
  [⟨p.address, .slot0⟩, ⟨p.address, .liquidity⟩, ⟨p.address, .fee⟩]

def algebraCalls (p : DiscoveredPool) : List Call :=
  [⟨p.address, .globalState⟩, ⟨p.address, .liquidity⟩, ⟨p.address, .fee⟩]

def v4Calls (p : DiscoveredPool) : List Call :=
  [⟨univ4StateView, .getSlot0 (p.poolId.getD 0#256)⟩, ⟨univ4StateView, .getLiquidity (p.poolId.getD 0#256)⟩]

def balanceCall (target : Address × GateAnchor F) : List Call := [⟨target.2.token, .balanceOf target.1⟩]

end Requests

section Families

variable (discovered : List DiscoveredPool)

def v2Pools : List (DiscoveredPool × Nat) :=
  discovered.zipIdx.filter fun p => p.1.dex.isV2Family || decide (p.1.dex = .aeroStable)

def aeroPools : List (DiscoveredPool × Nat) :=
  discovered.zipIdx.filter fun p => decide (p.1.dex = .aeroVolatile) || decide (p.1.dex = .aeroStable)

def v3Pools : List DiscoveredPool := discovered.filter fun p => p.dex.isV3Family

def algebraPools : List DiscoveredPool := discovered.filter fun p => p.dex.isAlgebra

def v4Pools : List DiscoveredPool := discovered.filter fun p => p.dex.isV4

end Families

section Sites

/-- `fetch_decimals`: what does not answer has 18. -/
def decimalsSite (token : Address) (row : Nat → Option CallResult) : Option (Option (Address × U8)) :=
  match row 0 with
  | none => some none
  | some result =>
    match answered (some result) with
    | none => some (some (token, 18#8))
    | some data => (decodeU128 data).map fun v => some (token, (v.map (BitVec.setWidth 8)).getD 18#8)

def aeroFeeSite (p : DiscoveredPool × Nat) (row : Nat → Option CallResult) : Option (Option (Nat × U32)) :=
  match (answered (row 0)).bind b.decoders.uint256 with
  | none => some none
  | some fee => if 2 ^ 32 ≤ fee.toNat then none else some (some (p.2, fee.setWidth 32))

def decodeReservesV2ish (dex : DexTag) (data : List U8) : Option (U128 × U128) :=
  match dex with
  | .uniV2Fork => (b.decoders.uniReserves data).map fun r => (r.1.setWidth 128, r.2.setWidth 128)
  | .aeroVolatile => (b.decoders.aeroReserves data).map fun r => (saturatingU128 r.1, saturatingU128 r.2)
  | _ => none

/-- One entry for each side an anchor is on. -/
def anchorSides (pool : PoolMeta) (r0 r1 : F) : List (Address × F) :=
  b.anchors.flatMap fun a =>
    (if pool.token0 = a.token then [(a.token, b.float.div r0 (b.float.tenPow pool.dec0))] else []) ++
      if pool.token1 = a.token then [(a.token, b.float.div r1 (b.float.tenPow pool.dec1))] else []

variable (decimals : List (Address × U8))

/-- The index is filled in when the registrations are numbered. -/
def poolMeta (p : DiscoveredPool) (dex : DexTag) (feeBps feePips : U32) (tickSpacing : Int) (v4 : Option V4Meta) :
    PoolMeta where
  idx := 0
  address := p.address
  dex := dex
  token0 := p.token0
  token1 := p.token1
  dec0 := decimalsOf decimals p.token0
  dec1 := decimalsOf decimals p.token1
  feeBps := feeBps
  feePips := feePips
  tickSpacing := tickSpacing
  v4 := v4

def v2Registration (p : DiscoveredPool) (feeBps : U32) (r0 r1 : F) : PoolRegistration F :=
  let pool := poolMeta decimals p p.dex feeBps (feeBps * 100#32) 0 none
  ⟨pool, p.factory, some (b.anchorSides pool r0 r1)⟩

def v2Site (aeroFees : List (Nat × U32)) (p : DiscoveredPool × Nat) (row : Nat → Option CallResult) :
    Option (Option (PoolRegistration F)) :=
  some <| (answered (row 0)).bind fun data =>
    match p.1.dex with
    | .uniV2Fork | .aeroVolatile =>
      (b.decodeReservesV2ish p.1.dex data).map fun r =>
        let feeBps := if p.1.dex = .aeroVolatile then (aeroFees.lookup p.2).getD 30#32 else p.1.feeBps.getD 30#32
        b.v2Registration decimals p.1 feeBps (b.float.ofU128 r.1) (b.float.ofU128 r.2)
    | .aeroStable =>
      (b.decoders.aeroReserves data).map fun r =>
        b.v2Registration decimals p.1 ((aeroFees.lookup p.2).getD 5#32) (b.float.u256ToF64 r.1) (b.float.u256ToF64 r.2)
    | _ => none

def clRegistration (p : DiscoveredPool) (dex : DexTag) (feePips : U32) : PoolRegistration F :=
  ⟨poolMeta decimals p dex (feePips / 100#32) feePips (p.tickSpacing.getD 60) none, p.factory, none⟩

/-- The answers with which a V3 pool is registered. -/
def v3Live (row : Nat → Option CallResult) : Bool :=
  (answered (row 1)).isSome && ((answered (row 0)).bind decodeSlot0).isSome

def v3Site (p : DiscoveredPool) (row : Nat → Option CallResult) : Option (Option (PoolRegistration F)) :=
  match answered (row 0), answered (row 1) with
  | some s, some l =>
    match decodeSlot0 s with
    | none => some none
    | some _ => do
      let _liquidity ← decodeU128 l
      let feePips ← feePipsOr p.feePips (answered (row 2))
      return some (clRegistration decimals p p.dex feePips)
  | _, _ => some none

/-- The answers with which an Algebra pool is registered. -/
def algebraLive (row : Nat → Option CallResult) : Bool :=
  (answered (row 1)).isSome && ((answered (row 0)).bind b.decoders.globalState).any fun state => state.price ≠ 0#160

def algebraSite (p : DiscoveredPool) (row : Nat → Option CallResult) : Option (Option (PoolRegistration F)) :=
  match answered (row 0), answered (row 1) with
  | some gs, some l =>
    match b.decoders.globalState gs with
    | none => some none
    | some state =>
      if state.price = 0#160 then some none
      else do
        let _liquidity ← decodeU128 l
        let feePips ← feePipsOr none (answered (row 2))
        return some (clRegistration decimals p .algebra feePips)
  | _, _ => some none

/-- Half the virtual reserves at the current price. -/
def v4Registration (p : DiscoveredPool) (id : B256) (sqrtPrice : U256) (liquidity : U128) (feePips : U32)
    (tickSpacing : Int) (currency0 : Address) : PoolRegistration F :=
  let pool := poolMeta decimals p .uniV4 (feePips / 100#32) feePips tickSpacing
    (some ⟨id, currency0, p.token1, feePips, tickSpacing⟩)
  let sp := b.float.div (b.float.u256ToF64 sqrtPrice) b.float.twoPow96
  let l := b.float.ofU128 liquidity
  let virtual := if b.float.lt b.float.zero sp then (b.float.div l sp, b.float.mul l sp) else (b.float.zero, b.float.zero)
  let gate := (b.anchorSides pool virtual.1 virtual.2).map fun side => (side.1, b.float.div side.2 b.float.two)
  ⟨pool, p.factory, some gate⟩

/-- The answers with which a V4 pool is registered; others drop it before they are narrowed. -/
def v4Live (feePips : Option U32) (row : Nat → Option CallResult) : Bool :=
  (answered (row 1)).isSome && ((answered (row 0)).bind b.decoders.stateViewSlot0).any fun slot0 =>
    decide (slot0.sqrtPriceX96 ≠ 0#160) && decide (slot0.protocolFee = 0#24) &&
      decide (feePips = some (slot0.lpFee.setWidth 32))

def v4Site (p : DiscoveredPool) (row : Nat → Option CallResult) : Option (Option (PoolRegistration F)) := do
  let id ← p.poolId
  match answered (row 0), answered (row 1) with
  | some s, some l =>
    match b.decoders.stateViewSlot0 s with
    | none => some none
    | some slot0 =>
      if slot0.sqrtPriceX96 = 0#160 then some none
      else if slot0.protocolFee ≠ 0#24 then some none
      else do
        let feePips ← p.feePips
        if slot0.lpFee.setWidth 32 ≠ feePips then some none
        else do
          let liquidity ← decodeU128 l
          let tickSpacing ← p.tickSpacing
          let currency0 ← p.currency0Raw
          return some (b.v4Registration decimals p id (slot0.sqrtPriceX96.setWidth 256) (liquidity.getD 0#128) feePips
            tickSpacing currency0)
  | _, _ => some none

def balanceSite (target : Address × GateAnchor F) (row : Nat → Option CallResult) :
    Option (Option ((Address × Address) × F)) :=
  match answered (row 0) with
  | none => some none
  | some data => (decodeU128 data).map <| Option.map fun bal =>
      ((target.1, target.2.token), b.float.div (b.float.ofU128 bal) (b.float.tenPow target.2.decimals))

end Sites

/-- The anchors a pair of tokens touches, with the pool they are held by. -/
def balanceTargets (pool token0 token1 : Address) : List (Address × GateAnchor F) :=
  (b.anchors.filter fun a => decide (token0 = a.token) || decide (token1 = a.token)).map fun a => (pool, a)

/-- At most three distinct holders of a token; V4 pools are held by the manager. -/
def addHolder (holders : Address → List Address) (t candidate : Address) : Address → List Address :=
  if b.anchors.any fun a => a.token = t then holders
  else if candidate ∈ holders t ∨ 3 ≤ (holders t).length then holders
  else Function.update holders t (holders t ++ [candidate])

def holdersOf (discovered : List DiscoveredPool) : Address → List Address :=
  discovered.foldl (fun holders p =>
    let candidate := if p.dex.isV4 then univ4PoolManager else p.address
    [p.token0, p.token1].foldl (fun holders t => b.addHolder holders t candidate) holders) fun _ => []

/-- `detect`: verdicts of earlier runs stand, tokens without one are probed. -/
def isFeeToken (rpc : BootstrapRpc) (discovered : List DiscoveredPool) (decimals : List (Address × U8))
    (t : Address) : Bool :=
  match b.feeCache t with
  | some bad => bad
  | none => decide (t ∈ tokenSet discovered) && !(b.anchors.any fun a => a.token = t) &&
      decide (rpc.probeToken t (b.holdersOf discovered t) (decimalsOf decimals t) = some true)

def anchorLiquidity (balances : List ((Address × Address) × F)) (reg : PoolRegistration F) : Bool :=
  let touches := b.anchors.filter fun a => decide (reg.pool.token0 = a.token) || decide (reg.pool.token1 = a.token)
  touches.isEmpty || touches.any fun a =>
    let depth :=
      match reg.gate with
      | some sides => (sides.lookup a.token).getD b.float.zero
      | none => (lastEntry balances (reg.pool.address, a.token)).getD b.float.zero
    b.float.le a.minLiquidity depth

/-- `apply_filter` on one registration. -/
def keeps (feeToken : Address → Bool) (balances : List ((Address × Address) × F)) (reg : PoolRegistration F) : Bool :=
  let blacklisted := fun t => decide (t ∈ b.filter.tokenBlacklist) || feeToken t
  let listed := fun t => (b.anchors.any fun a => a.token = t) || decide (t ∈ b.filter.tokenWhitelist)
  !(blacklisted reg.pool.token0 || blacklisted reg.pool.token1) &&
    (b.filter.tokenWhitelist.isEmpty || listed reg.pool.token0 && listed reg.pool.token1) &&
    (!b.enforceLiquidity || b.anchorLiquidity balances reg)

def number (regs : List (PoolRegistration F)) : List (PoolRegistration F) :=
  regs.mapIdx fun i reg => { reg with pool := { reg.pool with idx := i } }

/-- The registrations before the filter, family by family. -/
def registrations (rpc : BootstrapRpc) (discovered : List DiscoveredPool) (decimals : List (Address × U8)) :
    Option (List (PoolRegistration F)) := do
  let aeroFees ← batched rpc.aggregate3 1 aeroFeeCall b.aeroFeeSite (aeroPools discovered)
  let v2 ← batched rpc.aggregate3 1 reservesCall (b.v2Site decimals aeroFees) (v2Pools discovered)
  let v3 ← batched rpc.aggregate3 3 v3Calls (v3Site decimals) (v3Pools discovered)
  let algebra ← batched rpc.aggregate3 3 algebraCalls (b.algebraSite decimals) (algebraPools discovered)
  let v4 ← batched rpc.aggregate3 2 v4Calls (b.v4Site decimals) (v4Pools discovered)
  return number (v2 ++ v3 ++ algebra ++ v4)

/-- The balances that settle the registrations without a gate. -/
def targetsOf (regs : List (PoolRegistration F)) : List (Address × GateAnchor F) :=
  (regs.filter fun reg => reg.gate.isNone).flatMap fun reg =>
    b.balanceTargets reg.pool.address reg.pool.token0 reg.pool.token1

def anchorBalances (rpc : BootstrapRpc) (regs : List (PoolRegistration F)) : Option (List ((Address × Address) × F)) :=
  if b.enforceLiquidity then batched rpc.aggregate3 1 balanceCall b.balanceSite (b.targetsOf regs) else some []

def hydrate (rpc : BootstrapRpc) (found : List DiscoveredPool) : Option (List (PoolRegistration F)) := do
  let discovered := dedupe [] found
  let decimals ← batched rpc.aggregate3 1 decimalsCall decimalsSite (tokenSet discovered)
  let regs ← b.registrations rpc discovered decimals
  let balances ← b.anchorBalances rpc regs
  return number (regs.filter (b.keeps (b.isFeeToken rpc discovered decimals) balances))

end Bootstrap

end Robinarb
