import Robinarb.Ingest.Bootstrap
import Robinarb.Ingest.FactoryScan
import Robinarb.Library.FirstMatch
import Robinarb.Library.LastEntry

/-! # Pools from pins

`load_pinned_pools`: pins with an address are classified by what the pool answers, V4 pins
by their id or their key. The return decoders of the generated bindings are parameters.
-/

namespace Robinarb

open Batch

structure PoolPin where
  address : Option Address
  dex : String
  poolId : Option B256
  currency0 : Option Address
  currency1 : Option Address
  fee : Option U32
  tickSpacing : Option Int

structure NamedDex extends DexConfig where
  name : String

inductive PinCalldata where
  | token0
  | token1
  | factory
  | tickSpacing
  | fee
  | stable
  | getSlot0 (poolId : B256)

structure PinCall where
  target : Address
  calldata : PinCalldata

structure PinDecoders where
  tickSpacing : List U8 → Option Int
  fee : List U8 → Option (BitVec 24)
  stable : List U8 → Option Bool
  stateViewSlot0 : List U8 → Option StateViewSlot0

/-- `multicall` is the error of the provider, whatever it is. -/
inductive LoadError where
  | bail (text : String)
  | multicall
  deriving DecidableEq

/-- What a load of pins works with: the contract calls of a multicall, by batch and attempt,
and the cache files. -/
structure Loader where
  mc : Nat → Nat → List PinCall → Option (List CallResult)
  decoders : PinDecoders
  keccak : KeyHash
  dexes : List NamedDex
  cache : String → Option DexCache

def mcBatch : Nat := 200
def callsPerPin : Nat := 6

def decodeAddr (data : List U8) : Option Address :=
  if data.length < 32 then none else some (BitVec.ofNat 160 (wordOf ((data.drop 12).take 20)))

def PoolPin.mixed (pin : PoolPin) : Bool :=
  pin.address.isSome && (pin.poolId.isSome || pin.currency0.isSome || pin.currency1.isSome)

def PoolPin.mixedText (pin : PoolPin) : String :=
  "pools.toml pin for dex '" ++ pin.dex ++ "' mixes `address` with V4 identity fields"

def PoolPin.missingText (pin : PoolPin) : String := "pools.toml pin for dex '" ++ pin.dex ++ "' is missing `address`"

def pinCalls (a : Address) : List PinCall :=
  [⟨a, .token0⟩, ⟨a, .token1⟩, ⟨a, .factory⟩, ⟨a, .tickSpacing⟩, ⟨a, .fee⟩, ⟨a, .stable⟩]

def slot0Call (p : DiscoveredPool) : PinCall := ⟨univ4StateView, .getSlot0 (p.poolId.getD 0#256)⟩

def addressedPool (address factory token0 token1 : Address) (tag : DexTag) (hTag : tag.isV4 = false) (feePips : Option U32)
    (tickSpacing : Option Int) (feeBps : Option U32) : DiscoveredPool where
  address := address
  dex := tag
  factory := factory
  token0 := token0
  token1 := token1
  feePips := feePips
  tickSpacing := tickSpacing
  feeBps := feeBps
  poolId := none
  currency0Raw := none
  v4Complete := fun h => Bool.noConfusion (hTag.symm.trans (congrArg DexTag.isV4 h))

namespace Loader

variable (L : Loader)

/-- The last of the dexes with this factory. -/
def byFactory : Address → Option NamedDex := LastEntry.ofList (fun dex => dex.factory) L.dexes

/-- One pin with its six answers; `none` is a pin that is dropped. -/
def classify (address : Address) (row : Nat → Option CallResult) : Option DiscoveredPool :=
  let tickSpacing := (answered (row 3)).bind L.decoders.tickSpacing
  let feePips := ((answered (row 4)).bind L.decoders.fee).map (BitVec.setWidth 32)
  let stable := (answered (row 5)).bind L.decoders.stable
  match (answered (row 0)).bind decodeAddr, (answered (row 1)).bind decodeAddr with
  | some token0, some token1 =>
    match (answered (row 2)).bind decodeAddr with
    | none => none
    | some factory =>
      match L.byFactory factory with
      | none => none
      | some dex =>
        match dex.kind with
        | .v2 => some (addressedPool address factory token0 token1 .uniV2Fork rfl none none dex.feeBps)
        | .aero =>
          some (if stable.getD false then addressedPool address factory token0 token1 .aeroStable rfl none none none
            else addressedPool address factory token0 token1 .aeroVolatile rfl none none none)
        | .v3 => some (addressedPool address factory token0 token1 .uniV3Fork rfl feePips tickSpacing none)
        | .pancakeV3 => some (addressedPool address factory token0 token1 .pancakeV3 rfl feePips tickSpacing none)
        | .slipstream => some (addressedPool address factory token0 token1 .slipstream rfl feePips tickSpacing none)
        | .v4 => none
        | .other kind =>
          if kind = "algebra" then some (addressedPool address factory token0 token1 .algebra rfl none tickSpacing none)
          else none
  | _, _ => none

def loadAddressPins (addresses : List Address) : Except LoadError (List DiscoveredPool) :=
  if addresses.isEmpty then .ok []
  else
    match aggregate3 L.mc (addresses.flatMap pinCalls) mcBatch with
    | none => .error .multicall
    | some res => .ok (addresses.zipIdx.filterMap fun pin => L.classify pin.1 (rowOf callsPerPin res pin.2))

def cachedPools (name : String) : List DiscoveredPool := (loadCache (L.cache name)).pools

/-- The pool a V4 pin stands for; `some none` is a pin that is dropped. -/
def v4Candidate (pin : PoolPin) : Except LoadError (Option DiscoveredPool) :=
  match L.dexes.find? fun dex => dex.name == pin.dex with
  | none => .ok none
  | some dex =>
    if dex.kind ≠ .v4 then .error (.bail pin.missingText)
    else
      match pin.currency0, pin.currency1, pin.fee, pin.tickSpacing with
      | some c0, some c1, some fee, some ts =>
        if ¬(-8388608 ≤ ts ∧ ts ≤ 8388607) ∨ univ4MaxLpFee < fee then .ok none
        else .ok (v4PoolFromKey dex.factory (V4Meta.poolIdOf L.keccak c0 c1 fee ts) c0 c1 fee ts 0#160)
      | _, _, _, _ =>
        match pin.poolId with
        | some id => .ok (lastEntry ((L.cachedPools dex.name).filterMap fun p => p.poolId.map fun id => (id, p)) id)
        | none => .ok none

/-- The id has been initialized: its price is not zero. -/
def live (result : CallResult) : Bool :=
  match answered (some result) with
  | none => false
  | some data => ((L.decoders.stateViewSlot0 data).map fun s => decide (s.sqrtPriceX96 ≠ 0#160)).getD false

def loadV4Pins (pins : List PoolPin) : Except LoadError (List DiscoveredPool) :=
  if pins.isEmpty then .ok []
  else do
    let candidates := (← pins.mapM L.v4Candidate).reduceOption
    match aggregate3 L.mc (candidates.map slot0Call) mcBatch with
    | none => .error .multicall
    | some res => .ok ((candidates.zip res).filterMap fun pair => if L.live pair.2 then some pair.1 else none)

def loadPinnedPools (pins : List PoolPin) : Except LoadError (List DiscoveredPool) :=
  match pins.find? PoolPin.mixed with
  | some pin => .error (.bail pin.mixedText)
  | none => do
    let out ← L.loadAddressPins (pins.filterMap PoolPin.address)
    let v4 ← L.loadV4Pins (pins.filter fun pin => pin.address.isNone)
    return out ++ v4

section Alone

variable (f : PinCall → CallResult)

/-- A pin of a dex of another kind, which should have an address. -/
def misses (pin : PoolPin) : Bool := (L.dexes.find? fun dex => dex.name == pin.dex).any fun dex => decide (dex.kind ≠ .v4)

def candidate (pin : PoolPin) : Option DiscoveredPool := (L.v4Candidate pin).toOption.join

/-- What one pin is when its calls are made on their own. -/
def loadAlone (pin : PoolPin) : Option DiscoveredPool :=
  match pin.address with
  | some a => L.classify a fun j => (pinCalls a)[j]?.map f
  | none => (L.candidate pin).filter fun p => L.live (f (slot0Call p))

/-- The pins one by one: the first error, or the pools of the pins with an address and then
those of the others. -/
def loadEach (pins : List PoolPin) : Except LoadError (List DiscoveredPool) :=
  match pins.find? PoolPin.mixed with
  | some pin => .error (.bail pin.mixedText)
  | none =>
    match pins.find? fun pin => pin.address.isNone && L.misses pin with
    | some pin => .error (.bail pin.missingText)
    | none =>
      .ok ((pins.filter fun pin => pin.address.isSome).filterMap (L.loadAlone f) ++
        (pins.filter fun pin => pin.address.isNone).filterMap (L.loadAlone f))

variable {L f}

theorem v4Candidate_eq (pin : PoolPin) :
    L.v4Candidate pin = if L.misses pin then .error (.bail pin.missingText) else .ok (L.candidate pin) := by
  unfold candidate v4Candidate misses
  cases L.dexes.find? fun dex => dex.name == pin.dex with
  | none => rfl
  | some dex =>
    rw [Option.any_some]
    by_cases hKind : dex.kind = .v4
    · simp only [hKind, ne_eq, not_true_eq_false, if_false, decide_false, Bool.false_eq_true]
      split
      · split <;> rfl
      · split <;> rfl
    · simp only [hKind, ne_eq, not_false_eq_true, if_true, decide_true]

theorem classify_congr {a : Address} {row row' : Nat → Option CallResult} (h : ∀ j < callsPerPin, row j = row' j) :
    L.classify a row = L.classify a row' := by
  simp only [classify, h 0 (by decide), h 1 (by decide), h 2 (by decide), h 3 (by decide), h 4 (by decide), h 5 (by decide)]

/-- One contract call answers each call it is given as the chain does, in order. -/
def Truthful (L : Loader) (f : PinCall → CallResult) : Prop :=
  ∀ i attempt chunk res, L.mc i attempt chunk = some res → res = chunk.map f

def Served (L : Loader) : Prop := ∀ i chunk, ∃ attempt < 5, (L.mc i attempt chunk).isSome

theorem Truthful.aggregate3 (h : L.Truthful f) {calls : List PinCall} {res : List CallResult}
    (hRes : aggregate3 L.mc calls mcBatch = some res) : res = calls.map f :=
  ChunkedQuery.queried_eq_map h hRes

theorem Served.aggregate3 (hServed : L.Served) (h : L.Truthful f) (calls : List PinCall) :
    Robinarb.aggregate3 L.mc calls mcBatch = some (calls.map f) := by
  obtain ⟨res, hRes⟩ : ∃ res, ChunkedQuery.queried 5 mcBatch L.mc calls = some res := ChunkedQuery.queried_isSome hServed
  exact hRes.trans (congrArg some (h.aggregate3 hRes))

theorem pinCalls_length (a : Address) : (pinCalls a).length = callsPerPin := rfl

theorem rows_alone (addresses : List Address) :
    (addresses.zipIdx.filterMap fun pin =>
      L.classify pin.1 (rowOf callsPerPin ((addresses.flatMap pinCalls).map f) pin.2)) =
      addresses.filterMap fun a => L.classify a fun j => (pinCalls a)[j]?.map f := by
  have hEach : ∀ pin ∈ addresses.zipIdx, L.classify pin.1 (rowOf callsPerPin ((addresses.flatMap pinCalls).map f) pin.2) =
      L.classify pin.1 fun j => (pinCalls pin.1)[j]?.map f := by
    rintro ⟨a, i⟩ hMem
    apply classify_congr
    intro j hj
    have hAt : addresses[i]? = some a := List.mem_zipIdx_iff_getElem?.mp hMem
    have hHere : (addresses.flatMap pinCalls)[callsPerPin * i + j]? = (pinCalls a)[j]? :=
      getElem?_flatMap pinCalls_length hAt hj
    rw [rowOf, List.getElem?_map, hHere]
  have hPlaces := List.filterMap_map (l := addresses.zipIdx) (f := Prod.fst)
    (g := fun a => L.classify a fun j => (pinCalls a)[j]?.map f)
  rw [List.zipIdx_map_fst] at hPlaces
  rw [List.filterMap_congr hEach, hPlaces]
  rfl

theorem loadAddressPins_eq (hServed : L.Served) (h : L.Truthful f) (addresses : List Address) :
    L.loadAddressPins addresses = .ok (addresses.filterMap fun a => L.classify a fun j => (pinCalls a)[j]?.map f) := by
  unfold loadAddressPins
  split
  · rename_i hEmpty
    rw [List.isEmpty_iff.mp hEmpty]
    rfl
  · rw [hServed.aggregate3 h]
    exact congrArg Except.ok (rows_alone addresses)

theorem live_alone (candidates : List DiscoveredPool) :
    ((candidates.zip ((candidates.map slot0Call).map f)).filterMap fun pair => if L.live pair.2 then some pair.1 else none) =
      candidates.filterMap fun p => (some p).filter fun p => L.live (f (slot0Call p)) := by
  induction candidates with
  | nil => rfl
  | cons p rest ih =>
    rw [List.filterMap_cons, ← ih]
    rfl

theorem addressed_alone (pins : List PoolPin) :
    ((pins.filterMap PoolPin.address).filterMap fun a => L.classify a fun j => (pinCalls a)[j]?.map f) =
      (pins.filter fun pin => pin.address.isSome).filterMap (L.loadAlone f) := by
  rw [List.filterMap_filterMap, List.filterMap_filter]
  refine List.filterMap_congr fun pin _ => ?_
  unfold loadAlone
  cases pin.address <;> rfl

theorem v4_alone (pins : List PoolPin) :
    ((pins.filter fun pin => pin.address.isNone).filterMap fun pin => (L.candidate pin).filter fun p => L.live (f (slot0Call p))) =
      (pins.filter fun pin => pin.address.isNone).filterMap (L.loadAlone f) := by
  refine List.filterMap_congr fun pin hMem => ?_
  rw [loadAlone, Option.isNone_iff_eq_none.mp (List.mem_filter.mp hMem).2]

theorem loadV4Pins_eq (hServed : L.Served) (h : L.Truthful f) (pins : List PoolPin) :
    L.loadV4Pins pins = match pins.find? L.misses with
      | some pin => .error (.bail pin.missingText)
      | none => .ok (pins.filterMap fun pin => (L.candidate pin).filter fun p => L.live (f (slot0Call p))) := by
  unfold loadV4Pins
  split
  · rename_i hEmpty
    rw [List.isEmpty_iff.mp hEmpty]
    rfl
  · rw [funext v4Candidate_eq, FirstMatch.mapM_guarded]
    cases pins.find? L.misses with
    | some pin => rfl
    | none =>
      change (match Robinarb.aggregate3 L.mc ((pins.map L.candidate).reduceOption.map slot0Call) mcBatch with
        | none => _
        | some res => _) = _
      rw [hServed.aggregate3 h]
      dsimp only
      rw [live_alone, List.reduceOption, List.filterMap_filterMap, List.filterMap_map]
      refine congrArg Except.ok (List.filterMap_congr fun pin _ => ?_)
      cases hCandidate : L.candidate pin <;> simp [hCandidate]

/-- However the calls are batched and often they are tried: pins loaded together are the
pins loaded one by one. -/
theorem loadPinnedPools_eq (hServed : L.Served) (h : L.Truthful f) (pins : List PoolPin) :
    L.loadPinnedPools pins = L.loadEach f pins := by
  unfold loadPinnedPools loadEach
  cases pins.find? PoolPin.mixed with
  | some pin => rfl
  | none =>
    dsimp only
    have hFind : (pins.filter fun pin => pin.address.isNone).find? L.misses =
        pins.find? fun pin => pin.address.isNone && L.misses pin := by
      rw [List.find?_filter]
      simp only [Bool.decide_and, Bool.decide_eq_true]
    rw [loadAddressPins_eq hServed h, loadV4Pins_eq hServed h, hFind]
    cases pins.find? fun pin => pin.address.isNone && L.misses pin with
    | some pin => rfl
    | none => exact congrArg₂ (fun out v4 => Except.ok (out ++ v4)) (addressed_alone pins) (v4_alone pins)

end Alone

section Sample

/-- A key of native ETH, one of WETH, and what they hash to; the last is the second one with
its currencies exchanged. -/
def cachedKey : PoolKey :=
  ⟨0#160, 0x5fc5360D0400a0Fd4f2af552ADD042D716F1d168#160, 3000#32, 60, 0#160, by decide, by decide, by decide⟩

def pinnedKey : PoolKey := ⟨weth, cachedKey.currency1, 500#32, 10, 0#160, by decide, by decide, by decide⟩

def keyDigests (words : BitVec 1280) : B256 :=
  if words.extractLsb' 1024 256 = 0#256 then 0xd313d79d9d6a714e7bdf02fc42a2c27ede7e51928ffd605126fe9e1192630cf8#256
  else if words.extractLsb' 1024 256 = weth.setWidth 256 then
    0xfcfae8fa0bd6da961bcf5d990f27690932deac4f093e99bf3e871691c6586593#256
  else 0x2ba21101352a627856d66ab813405396695bdfece736c20825b3f53e9a18d1cf#256

def abiWord (n : Nat) : List U8 := (List.range 32).map fun i => BitVec.ofNat 8 (n >>> (8 * (31 - i)))

/-- Pairs of the factory 5, and the two keys at price one. -/
def pinAnswers (call : PinCall) : CallResult :=
  match call.calldata with
  | .token0 => ⟨true, abiWord 2⟩
  | .token1 => ⟨true, abiWord 3⟩
  | .factory => ⟨true, abiWord 5⟩
  | .getSlot0 id =>
    ⟨true, abiWord (if id = cachedKey.id keyDigests ∨ id = pinnedKey.id keyDigests then 2 ^ 96 else 0) ++ abiWord 0 ++
      abiWord 0 ++ abiWord 0⟩
  | _ => ⟨false, []⟩

def pinDecoders : PinDecoders where
  tickSpacing data := if data.length < 32 then none else some (BitVec.ofNat 24 (wordOf (data.take 32))).toInt
  fee data := if data.length < 32 then none else some (BitVec.ofNat 24 (wordOf (data.take 32)))
  stable data := if data.length < 32 then none else some (decide (wordOf (data.take 32) ≠ 0))
  stateViewSlot0 data :=
    if data.length < 128 then none
    else some ⟨BitVec.ofNat 160 (wordOf (data.take 32)), BitVec.ofNat 24 (wordOf ((data.drop 32).take 32)),
      BitVec.ofNat 24 (wordOf ((data.drop 64).take 32)), BitVec.ofNat 24 (wordOf ((data.drop 96).take 32))⟩

/-- Every first attempt fails. -/
def secondAttempts (_ attempt : Nat) (chunk : List PinCall) : Option (List CallResult) :=
  if attempt = 0 then none else some (chunk.map pinAnswers)

def pinDexes : List NamedDex :=
  [⟨⟨.v2, 5#160, some 30#32, none⟩, "pairs"⟩, ⟨⟨.v4, univ4PoolManager, none, none⟩, "uniswap_v4"⟩]

def addressPin (address : Address) : PoolPin := ⟨some address, "pairs", none, none, none, none, none⟩

def keyPin (currency0 currency1 : Address) : PoolPin :=
  ⟨none, "uniswap_v4", none, some currency0, some currency1, some 500#32, some 10⟩

/-- More calls than one batch holds, an id, and a key in both orders. -/
def samplePins : List PoolPin :=
  (List.range 34).map (fun n => addressPin (BitVec.ofNat 160 (100 + n))) ++
    [⟨none, "uniswap_v4", some (cachedKey.id keyDigests), none, none, none, none⟩,
      keyPin pinnedKey.currency0 pinnedKey.currency1, keyPin pinnedKey.currency1 pinnedKey.currency0]

def sampleLoader : Loader where
  mc := secondAttempts
  decoders := pinDecoders
  keccak := keyDigests
  dexes := pinDexes
  cache name :=
    if name = "uniswap_v4" then
      some ⟨9#64, (v4PoolFromKey univ4PoolManager (cachedKey.id keyDigests) cachedKey.currency0 cachedKey.currency1
        cachedKey.fee cachedKey.tickSpacing cachedKey.hooks).toList⟩
    else none

theorem samplePins_loaded : sampleLoader.loadPinnedPools samplePins = sampleLoader.loadEach pinAnswers samplePins ∧
    ((sampleLoader.loadPinnedPools samplePins).toOption.map (List.map DiscoveredPool.address)) =
      some ((List.range 34).map (fun n => BitVec.ofNat 160 (100 + n)) ++
        [V4Meta.syntheticAddress (cachedKey.id keyDigests), V4Meta.syntheticAddress (pinnedKey.id keyDigests)]) := by
  have hServed : sampleLoader.Served := fun i chunk => ⟨1, by decide, rfl⟩
  have hTruthful : sampleLoader.Truthful pinAnswers := by
    intro i attempt chunk res hRes
    obtain ⟨-, h⟩ := Option.ite_none_left_eq_some.mp hRes
    exact (Option.some.inj h).symm
  have hEach := loadPinnedPools_eq hServed hTruthful samplePins
  refine ⟨hEach, ?_⟩
  rw [hEach]
  decide +kernel

end Sample

end Loader

end Robinarb
