import Robinarb.Word

/-! # The executor contract

`ArbExecutor.sol`. Every call that leaves the contract is a request to a handler,
which answers with return words in a new state: pools, tokens, the PoolManager,
Morpho, and whatever they call back into. The state is the world the contract sees
and the handler's own memory. Arithmetic reverts on overflow, explicit conversions
wrap.
-/

namespace Robinarb

abbrev U16 := BitVec 16

namespace ArbExecutor

def WETH : Address := 0x0Bd7D308f8E1639FAb988df18A8011f41EAcAD73#160
def MORPHO : Address := 0x9D53d5E3bd5E8d4Cbfa6DB1ca238AEA02E651010#160
def POOL_MANAGER : Address := 0x8366a39CC670B4001A1121B8F6A443A643e40951#160

def MIN_SQRT_RATIO : U256 := 4295128740#256
def MAX_SQRT_RATIO : U256 := 1461446703485210103287273052203988822378723970341#256

/-- `address(0)`: no caller expected, native ETH as a currency, no hooks. -/
def zeroAddress : Address := 0#160

/-- Kind 0 is a UniV2 fork, 1 Aerodrome, 2 the UniV3 family, 3 UniV4, 4 Algebra; for
kind 3 the fee field is an index into the keys. -/
structure Hop where
  kind : U8
  pool : Address
  zeroForOne : Bool
  feeBps : U16

structure V4Key where
  currency0 : Address
  currency1 : Address
  fee : U32
  tickSpacing : Int

/-- What `executeArb` hands Morpho for the callback. -/
structure FlashData where
  hops : List Hop
  v4Keys : List V4Key
  anchor : Address
  minProfit : U256

/-- What a segment hands the PoolManager for the callback. -/
structure UnlockData where
  keys : List V4Key
  dirs : List Bool
  amountIn : U256

/-- The calls the contract makes, each to a target, some with a value. -/
inductive Request where
  | balanceOf (token account : Address)
  | transfer (token recipient : Address) (amount : U256)
  | approve (token spender : Address) (amount : U256)
  | getReserves (pair : Address)
  | token0 (pool : Address)
  | token1 (pool : Address)
  | pairSwap (pool : Address) (amount0Out amount1Out : U256) (recipient : Address)
  | getAmountOut (pool : Address) (amountIn : U256) (tokenIn : Address)
  | v3Swap (pool recipient : Address) (zeroForOne : Bool) (amountSpecified : I256) (sqrtPriceLimit : U256)
  | unlock (data : UnlockData)
  | managerSwap (key : V4Key) (hooks : Address) (zeroForOne : Bool) (amountSpecified : I256)
      (sqrtPriceLimit : U256)
  | sync (currency : Address)
  | settle (value : U256)
  | take (currency recipient : Address) (amount : U256)
  | wethWithdraw (amount : U256)
  | wethDeposit (value : U256)
  | flashLoan (token : Address) (assets : U256) (data : FlashData)
  | sendValue (recipient : Address) (value : U256)

inductive Revert where
  | notOwner
  | notExecutor
  | profitTooLow
  | badCallback
  | panic
  /-- A failed external call, or return data that does not decode. -/
  | foreign
  deriving DecidableEq

/-- Token balances (native ETH under the zero address) and the contract's own storage. -/
structure World where
  balance : Address → Address → U256
  owner : Address
  executors : Address → Bool
  expectedCaller : Address
  inFlight : Bool
  inV4 : Bool

/-- The world and the memory of what answers the contract's calls. -/
structure State (E : Type) where
  world : World
  env : E

abbrev Exec (E α : Type) := StateT (State E) (Except Revert) α

abbrev Handler (E : Type) := Request → Exec E (List U256)

section Machine

variable {E : Type}

def revert {α : Type} (reason : Revert) : Exec E α := fun _ => .error reason

def require (condition : Bool) (reason : Revert) : Exec E Unit :=
  if condition then pure () else revert reason

def getWorld : Exec E World := fun st => .ok (st.world, st)

def setWorld (f : World → World) : Exec E Unit := fun st => .ok ((), { st with world := f st.world })

def checkedAdd (a b : U256) : Exec E U256 :=
  if a.toNat + b.toNat < 2 ^ 256 then pure (a + b) else revert .panic

def checkedMul (a b : U256) : Exec E U256 :=
  if a.toNat * b.toNat < 2 ^ 256 then pure (a * b) else revert .panic

def checkedDiv (a b : U256) : Exec E U256 :=
  if b = 0#256 then revert .panic else pure (a / b)

/-- `-x` on `int256`. -/
def checkedNeg (x : I256) : Exec E I256 :=
  if x = BitVec.intMin 256 then revert .panic else pure (-x)

def index {α : Type} (xs : List α) (i : Nat) : Exec E α :=
  match xs[i]? with
  | some x => pure x
  | none => revert .panic

/-- The word of the return data at a position, when it fits the type. -/
def decodeWord (bits : Nat) (reply : List U256) (i : Nat) : Exec E U256 :=
  match reply[i]? with
  | some word => if word.toNat < 2 ^ bits then pure word else revert .foreign
  | none => revert .foreign

def decodeAddress (reply : List U256) : Exec E Address := do
  let word ← decodeWord 160 reply 0
  return word.setWidth 160

end Machine

section Contract

variable {E : Type} (self : Address) (ext : Handler E)

def balanceOf (token account : Address) : Exec E U256 := do
  decodeWord 256 (← ext (.balanceOf token account)) 0

/-- A token transfer whose result is decoded and dropped. -/
def transfer (token recipient : Address) (amount : U256) : Exec E Unit := do
  let _ ← decodeWord 1 (← ext (.transfer token recipient amount)) 0

def token0 (pool : Address) : Exec E Address := do decodeAddress (← ext (.token0 pool))

def token1 (pool : Address) : Exec E Address := do decodeAddress (← ext (.token1 pool))

def onlyOwner (sender : Address) : Exec E Unit := do
  require (sender = (← getWorld).owner) .notOwner

def onlyExecutor (sender : Address) : Exec E Unit := do
  require ((← getWorld).executors sender) .notExecutor

def setExecutor (sender who : Address) (ok : Bool) : Exec E Unit := do
  onlyOwner sender
  setWorld fun w => { w with executors := fun a => if a = who then ok else w.executors a }

def transferOwnership (sender next : Address) : Exec E Unit := do
  onlyOwner sender
  setWorld fun w => { w with owner := next }

def withdraw (sender token : Address) (amount : U256) : Exec E Unit := do
  onlyOwner sender
  let owner := (← getWorld).owner
  if token = zeroAddress then
    let _ ← ext (.sendValue owner amount)
  else
    transfer ext token owner amount

def approveMorphoMax (sender token : Address) : Exec E Unit := do
  onlyOwner sender
  let _ ← decodeWord 1 (← ext (.approve token MORPHO (BitVec.allOnes 256))) 0

def _swapV2 (h : Hop) (amountIn : U256) : Exec E U256 := do
  let reserves ← ext (.getReserves h.pool)
  let r0 ← decodeWord 112 reserves 0
  let r1 ← decodeWord 112 reserves 1
  let _ ← decodeWord 32 reserves 2
  let (rIn, rOut) := if h.zeroForOne then (r0, r1) else (r1, r0)
  let tokenIn ← if h.zeroForOne then token0 ext h.pool else token1 ext h.pool
  require (h.feeBps.toNat ≤ 10000) .panic
  let amountInWithFee ← checkedMul amountIn ((10000#16 - h.feeBps).setWidth 256)
  let numerator ← checkedMul amountInWithFee rOut
  let denominator ← checkedAdd (← checkedMul rIn 10000#256) amountInWithFee
  let amountOut ← checkedDiv numerator denominator
  transfer ext tokenIn h.pool amountIn
  let (a0, a1) := if h.zeroForOne then (0#256, amountOut) else (amountOut, 0#256)
  let _ ← ext (.pairSwap h.pool a0 a1 self)
  return amountOut

def _swapAero (h : Hop) (amountIn : U256) : Exec E U256 := do
  let tokenIn ← if h.zeroForOne then token0 ext h.pool else token1 ext h.pool
  let amountOut ← decodeWord 256 (← ext (.getAmountOut h.pool amountIn tokenIn)) 0
  transfer ext tokenIn h.pool amountIn
  let (a0, a1) := if h.zeroForOne then (0#256, amountOut) else (amountOut, 0#256)
  let _ ← ext (.pairSwap h.pool a0 a1 self)
  return amountOut

def _swapV3 (h : Hop) (amountIn : U256) : Exec E U256 := do
  setWorld fun w => { w with expectedCaller := h.pool }
  let limit := if h.zeroForOne then MIN_SQRT_RATIO else MAX_SQRT_RATIO
  let reply ← ext (.v3Swap h.pool self h.zeroForOne amountIn limit)
  let amount0 ← decodeWord 256 reply 0
  let amount1 ← decodeWord 256 reply 1
  setWorld fun w => { w with expectedCaller := zeroAddress }
  -- the output is the negative delta
  checkedNeg (if h.zeroForOne then amount1 else amount0)

def _v4InCurrency (h : Hop) (keys : List V4Key) : Exec E Address := do
  let k ← index keys h.feeBps.toNat
  return if h.zeroForOne then k.currency0 else k.currency1

def _v4OutCurrency (h : Hop) (keys : List V4Key) : Exec E Address := do
  let k ← index keys h.feeBps.toNat
  return if h.zeroForOne then k.currency1 else k.currency0

/-- The inner loop of `_runHops`: the end of the run of V4 hops that goes on at `j`,
with the turns it has left. -/
def segmentEnd (hops : List Hop) (v4Keys : List V4Key) : Nat → Nat → Exec E Nat
  | 0, j => pure j
  | n + 1, j =>
    match hops[j]? with
    | none => pure j
    | some hop =>
      if hop.kind = 3#8 then do
        let before ← _v4OutCurrency (← index hops (j - 1)) v4Keys
        let current ← _v4InCurrency hop v4Keys
        if before = current then segmentEnd hops v4Keys n (j + 1) else pure j
      else
        pure j

/-- Keys and directions of the hops `[i, j)`. -/
def segmentKeys (hops : List Hop) (keys : List V4Key) (i j : Nat) : Exec E (List V4Key × List Bool) := do
  let segment := (hops.drop i).take (j - i)
  let segKeys ← segment.mapM fun hop => index keys hop.feeBps.toNat
  return (segKeys, segment.map Hop.zeroForOne)

def _runV4Segment (hops : List Hop) (keys : List V4Key) (i j : Nat) (amountIn : U256) : Exec E U256 := do
  let (segKeys, dirs) ← segmentKeys hops keys i j
  setWorld fun w => { w with inV4 := true }
  let res ← ext (.unlock ⟨segKeys, dirs, amountIn⟩)
  setWorld fun w => { w with inV4 := false }
  decodeWord 256 res 0

/-- The outer loop of `_runHops` from hop `i` on. A turn advances by a hop at least, so
the number of hops bounds the turns. -/
def runHopsFrom (hops : List Hop) (v4Keys : List V4Key) : Nat → Nat → U256 → Exec E U256
  | 0, _, amount => pure amount
  | n + 1, i, amount =>
    match hops[i]? with
    | none => pure amount
    | some hop =>
      if hop.kind = 0#8 then do
        runHopsFrom hops v4Keys n (i + 1) (← _swapV2 self ext hop amount)
      else if hop.kind = 1#8 then do
        runHopsFrom hops v4Keys n (i + 1) (← _swapAero self ext hop amount)
      else if hop.kind = 2#8 ∨ hop.kind = 4#8 then do
        runHopsFrom hops v4Keys n (i + 1) (← _swapV3 self ext hop amount)
      else do
        let j ← segmentEnd hops v4Keys hops.length (i + 1)
        runHopsFrom hops v4Keys n j (← _runV4Segment ext hops v4Keys i j amount)

def _runHops (hops : List Hop) (v4Keys : List V4Key) (amountIn : U256) : Exec E U256 :=
  runHopsFrom self ext hops v4Keys hops.length 0 amountIn

def profitCheck (start stop minProfit : U256) : Exec E Unit := do
  let bar ← checkedAdd start minProfit
  require (bar ≤ stop) .profitTooLow

/-- The hops between two readings of the anchor balance, the same in both funding modes. -/
def guardedHops (hops : List Hop) (v4Keys : List V4Key) (anchor : Address) (amountIn minProfit : U256) :
    Exec E Unit := do
  let start ← balanceOf ext anchor self
  let _ ← _runHops self ext hops v4Keys amountIn
  let stop ← balanceOf ext anchor self
  profitCheck start stop minProfit

def executeArb (sender : Address) (hops : List Hop) (v4Keys : List V4Key) (anchor : Address)
    (amountIn minProfit : U256) (useFlashloan : Bool) : Exec E Unit := do
  onlyExecutor sender
  if useFlashloan then
    setWorld fun w => { w with inFlight := true }
    let _ ← ext (.flashLoan anchor amountIn ⟨hops, v4Keys, anchor, minProfit⟩)
    setWorld fun w => { w with inFlight := false }
  else
    guardedHops self ext hops v4Keys anchor amountIn minProfit

/-- `none` is data that does not decode. -/
def onMorphoFlashLoan (sender : Address) (assets : U256) (data : Option FlashData) : Exec E Unit := do
  require (sender = MORPHO) .badCallback
  require (← getWorld).inFlight .badCallback
  match data with
  | none => revert .foreign
  | some d => guardedHops self ext d.hops d.v4Keys d.anchor assets d.minProfit

/-- One swap of a segment: the positive credit of its output side. -/
def segmentSwap (key : V4Key) (dir : Bool) (amount : U256) : Exec E U256 := do
  let specified ← checkedNeg amount
  let limit := if dir then MIN_SQRT_RATIO else MAX_SQRT_RATIO
  let delta ← decodeWord 256 (← ext (.managerSwap key zeroAddress dir specified limit)) 0
  let outSigned : I128 := if dir then delta.setWidth 128 else (delta >>> 128).setWidth 128
  require (0 < outSigned.toInt) .badCallback
  return outSigned.setWidth 256

def segmentSwaps (keys : List V4Key) (dirs : List Bool) : List V4Key → Nat → U256 → Exec E U256
  | [], _, amount => pure amount
  | key :: rest, k, amount => do
    let dir ← index dirs k
    segmentSwaps keys dirs rest (k + 1) (← segmentSwap ext key dir amount)

def settleInput (inCur : Address) (amountIn : U256) : Exec E Unit := do
  if inCur = zeroAddress then
    let _ ← ext (.wethWithdraw amountIn)
    let _ ← decodeWord 256 (← ext (.settle amountIn)) 0
  else
    let _ ← ext (.sync inCur)
    transfer ext inCur POOL_MANAGER amountIn
    let _ ← decodeWord 256 (← ext (.settle 0#256)) 0

def takeOutput (outCur : Address) (amount : U256) : Exec E Unit := do
  if outCur = zeroAddress then
    let _ ← ext (.take zeroAddress self amount)
    let _ ← ext (.wethDeposit amount)
  else
    let _ ← ext (.take outCur self amount)

def unlockCallback (sender : Address) (data : Option UnlockData) : Exec E (List U256) := do
  require (sender = POOL_MANAGER) .badCallback
  require (← getWorld).inV4 .badCallback
  match data with
  | none => revert .foreign
  | some d =>
    let amount ← segmentSwaps ext d.keys d.dirs d.keys 0 d.amountIn
    let first ← index d.keys 0
    let inCur := if ← index d.dirs 0 then first.currency0 else first.currency1
    settleInput ext inCur d.amountIn
    let last ← index d.keys (d.keys.length - 1)
    let outCur := if ← index d.dirs (d.keys.length - 1) then last.currency1 else last.currency0
    takeOutput self ext outCur amount
    return [amount]

/-- The body the three swap callbacks share: pay the owed token. -/
def swapCallback (sender : Address) (amount0Delta amount1Delta : I256) : Exec E Unit := do
  require (sender = (← getWorld).expectedCaller) .badCallback
  if 0 < amount0Delta.toInt then
    transfer ext (← token0 ext sender) sender amount0Delta
  else if 0 < amount1Delta.toInt then
    transfer ext (← token1 ext sender) sender amount1Delta

def uniswapV3SwapCallback (sender : Address) (amount0Delta amount1Delta : I256) : Exec E Unit :=
  swapCallback ext sender amount0Delta amount1Delta

def pancakeV3SwapCallback (sender : Address) (amount0Delta amount1Delta : I256) : Exec E Unit :=
  swapCallback ext sender amount0Delta amount1Delta

def algebraSwapCallback (sender : Address) (amount0Delta amount1Delta : I256) : Exec E Unit :=
  swapCallback ext sender amount0Delta amount1Delta

/-- The external functions, with the arguments a caller chooses. -/
inductive Call where
  | setExecutor (who : Address) (ok : Bool)
  | transferOwnership (next : Address)
  | withdraw (token : Address) (amount : U256)
  | approveMorphoMax (token : Address)
  | executeArb (hops : List Hop) (v4Keys : List V4Key) (anchor : Address) (amountIn minProfit : U256)
      (useFlashloan : Bool)
  | onMorphoFlashLoan (assets : U256) (data : Option FlashData)
  | unlockCallback (data : Option UnlockData)
  | uniswapV3SwapCallback (amount0Delta amount1Delta : I256)
  | pancakeV3SwapCallback (amount0Delta amount1Delta : I256)
  | algebraSwapCallback (amount0Delta amount1Delta : I256)
  | receive

def returnsNothing (body : Exec E Unit) : Exec E (List U256) := do
  body
  return []

def dispatch (sender : Address) : Call → Exec E (List U256)
  | .setExecutor who ok => returnsNothing (setExecutor sender who ok)
  | .transferOwnership next => returnsNothing (transferOwnership sender next)
  | .withdraw token amount => returnsNothing (withdraw ext sender token amount)
  | .approveMorphoMax token => returnsNothing (approveMorphoMax ext sender token)
  | .executeArb hops v4Keys anchor amountIn minProfit useFlashloan =>
    returnsNothing (executeArb self ext sender hops v4Keys anchor amountIn minProfit useFlashloan)
  | .onMorphoFlashLoan assets data => returnsNothing (onMorphoFlashLoan self ext sender assets data)
  | .unlockCallback data => unlockCallback self ext sender data
  | .uniswapV3SwapCallback a b => returnsNothing (uniswapV3SwapCallback ext sender a b)
  | .pancakeV3SwapCallback a b => returnsNothing (pancakeV3SwapCallback ext sender a b)
  | .algebraSwapCallback a b => returnsNothing (algebraSwapCallback ext sender a b)
  | .receive => returnsNothing (pure ())

end Contract

end ArbExecutor

end Robinarb
