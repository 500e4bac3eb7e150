import Robinarb.Gas.GasStation
import Robinarb.Ingest.Discovery
import Robinarb.Library.PartialMaps
import Robinarb.Routing.Candidates
import Robinarb.Routing.Optimizer
import Mathlib.Tactic.FieldSimp
import Mathlib.Tactic.GCongr

/-! # The profit gate

Anchor rates as `pricing` fetches them, the conversions between an anchor and ETH, and
`apply_gas_gate`. Every operation on floats rounds to the nearest double. A missing rate or
an unreadable threshold panics: the outer `none`.
-/

namespace Robinarb

open scoped Numerals
open Binary64 GasStation

structure RoutingConfig (K : Type) extends GraphConfig where
  dropMs : Nat
  spotGateBps : K
  tier2TopN : Nat

/-- An anchor with its thresholds; `minProfit` is `none` where its text is no decimal integer. -/
structure TradingAnchor (K : Type) extends AnchorConfig where
  minTrade : K
  maxTrade : K
  minProfit : Option U256

section Rates

def usdg : Address := 0x5fc5360D0400a0Fd4f2af552ADD042D716F1d168#160

def binanceSymbol (token : Address) : Option String := if token = weth then some "ETHUSDT" else none

def coingeckoId (token : Address) : Option String := if token = usdg then some "global-dollar" else none

structure PriceSources (K : Type) where
  binance : String → Option K
  coingecko : String → Option K

variable {K : Type} [Field K] [LinearOrder K] [FloorSemiring K] (sources : PriceSources K)

def fetchUsdPrice (token : Address) : Option K :=
  match binanceSymbol token with
  | some symbol => sources.binance symbol
  | none => (coingeckoId token).bind sources.coingecko

/-- The price of WETH once it is fetched, and the rates so far. -/
structure FetchedRates (K : Type) where
  wethUsd : Option K
  rates : Address → Option K

/-- One turn of the loop of `fetch_anchor_rates`. -/
def fetchRate (fetched : FetchedRates K) (anchor : TradingAnchor K) : Option (FetchedRates K) :=
  if anchor.token = weth then some { fetched with rates := Function.update fetched.rates anchor.token (some 1) }
  else do
    let wethUsd ← fetched.wethUsd <|> fetchUsdPrice sources weth
    let anchorUsd ← fetchUsdPrice sources anchor.token
    if 0 < anchorUsd then
      return ⟨some wethUsd, Function.update fetched.rates anchor.token (some (rounded (anchorUsd / wethUsd)))⟩
    else none

def fetchAnchorRates (anchors : List (TradingAnchor K)) : Option (Address → Option K) :=
  (anchors.foldlM (fetchRate sources) ⟨none, fun _ => none⟩).map FetchedRates.rates

/-- The rates of the anchors met so far, from one price of WETH. -/
structure Rated (seen : List Address) (fetched : FetchedRates K) : Prop where
  priced : ∀ x ∈ fetched.wethUsd, fetchUsdPrice sources weth = some x
  known : ∀ token ∈ seen, (fetched.rates token).isSome
  native : ∀ rate ∈ fetched.rates weth, rate = 1
  others : ∀ token ≠ weth, ∀ rate ∈ fetched.rates token, ∃ wethUsd anchorUsd,
    fetchUsdPrice sources weth = some wethUsd ∧ fetchUsdPrice sources token = some anchorUsd ∧ 0 < anchorUsd ∧
      rate = rounded (anchorUsd / wethUsd)

variable {sources}

theorem Rated.update {seen : List Address} {fetched : FetchedRates K} (h : Rated sources seen fetched) {token : Address}
    {wethUsd : Option K} {rate : K} (hPriced : ∀ x ∈ wethUsd, fetchUsdPrice sources weth = some x)
    (hNative : token = weth → rate = 1)
    (hOther : token ≠ weth → ∃ wethUsd anchorUsd, fetchUsdPrice sources weth = some wethUsd ∧
      fetchUsdPrice sources token = some anchorUsd ∧ 0 < anchorUsd ∧ rate = rounded (anchorUsd / wethUsd)) :
    Rated sources (token :: seen) ⟨wethUsd, Function.update fetched.rates token (some rate)⟩ := by
  have hHere : ∀ found, Function.update fetched.rates token (some rate) token = some found → found = rate := by
    intro found hFound
    rw [Function.update_self] at hFound
    exact (Option.some.inj hFound).symm
  have hElse : ∀ other ≠ token, Function.update fetched.rates token (some rate) other = fetched.rates other :=
    fun other hNot => Function.update_of_ne hNot ..
  refine ⟨hPriced, fun other hMem => ?_, fun found hFound => ?_, fun other hOtherToken found hFound => ?_⟩
  · dsimp only
    by_cases hSame : other = token
    · rw [hSame, Function.update_self]
      rfl
    · rw [hElse other hSame]
      exact h.known other ((List.mem_cons.mp hMem).resolve_left hSame)
  · by_cases hSame : weth = token
    · exact (hHere found (hSame ▸ hFound)).trans (hNative hSame.symm)
    · exact h.native found ((hElse weth hSame).symm.trans hFound)
  · by_cases hSame : other = token
    · rw [hHere found (hSame ▸ hFound), hSame]
      exact hOther (hSame ▸ hOtherToken)
    · exact h.others other hOtherToken found ((hElse other hSame).symm.trans hFound)

theorem Rated.fetch {seen : List Address} {fetched next : FetchedRates K} {anchor : TradingAnchor K}
    (h : Rated sources seen fetched) (hFetch : fetchRate sources fetched anchor = some next) :
    Rated sources (anchor.token :: seen) next := by
  unfold fetchRate at hFetch
  split at hFetch
  next hWeth =>
    cases hFetch
    exact h.update h.priced (fun _ => rfl) fun hNot => absurd hWeth hNot
  next hWeth =>
    obtain ⟨wethUsd, hWethUsd, hRest⟩ := Option.bind_eq_some_iff.mp hFetch
    obtain ⟨anchorUsd, hAnchorUsd, hEnd⟩ := Option.bind_eq_some_iff.mp hRest
    split at hEnd
    next hPositive =>
      cases hEnd
      have hPriced : fetchUsdPrice sources weth = some wethUsd := by
        cases hFetched : fetched.wethUsd with
        | none =>
          rw [hFetched] at hWethUsd
          exact hWethUsd
        | some x =>
          rw [hFetched] at hWethUsd
          cases hWethUsd
          exact h.priced wethUsd hFetched
      refine h.update (fun x hx => ?_) (fun hSame => absurd hSame hWeth) fun _ => ⟨wethUsd, anchorUsd, hPriced, hAnchorUsd,
        hPositive, rfl⟩
      cases hx
      exact hPriced
    · cases hEnd

theorem Rated.fetchAll {anchors : List (TradingAnchor K)} {seen : List Address} {fetched last : FetchedRates K}
    (h : Rated sources seen fetched) (hFetch : anchors.foldlM (fetchRate sources) fetched = some last) :
    ∀ token, token ∈ seen ∨ (∃ anchor ∈ anchors, anchor.token = token) → (last.rates token).isSome ∧
      Rated sources [] last := by
  induction anchors generalizing seen fetched with
  | nil =>
    cases hFetch
    rintro token (hSeen | ⟨anchor, hNil, -⟩)
    · exact ⟨h.known token hSeen, h.priced, nofun, h.native, h.others⟩
    · cases hNil
  | cons first rest ih =>
    rw [List.foldlM_cons] at hFetch
    obtain ⟨next, hFirst, hRest⟩ := Option.bind_eq_some_iff.mp hFetch
    intro token hKnown
    apply ih (h.fetch hFirst) hRest
    obtain hSeen | ⟨anchor, hMem, rfl⟩ := hKnown
    · exact .inl (List.mem_cons_of_mem _ hSeen)
    obtain rfl | hLater := List.mem_cons.mp hMem
    · exact .inl List.mem_cons_self
    · exact .inr ⟨anchor, hLater, rfl⟩

/-- Prices that a market can have. -/
def Plausible (sources : PriceSources K) : Prop :=
  ∀ token, ∀ usd ∈ fetchUsdPrice sources token, 1 ≤ usd * 2 ^ 100 ∧ usd ≤ 2 ^ 100

/-- Fetched rates cover every anchor. That of WETH is one, and those of plausible prices are
far from the ends of the floats. -/
theorem fetchAnchorRates_rated [IsStrictOrderedRing K] {anchors : List (TradingAnchor K)}
    {rates : Address → Option K} (hFetch : fetchAnchorRates sources anchors = some rates) {anchor : TradingAnchor K}
    (hAnchor : anchor ∈ anchors) : ∃ rate, rates anchor.token = some rate ∧ (anchor.token = weth → rate = 1) ∧
      (Plausible sources → 1 ≤ rate * 2 ^ 200 ∧ rate ≤ 2 ^ 200) := by
  obtain ⟨last, hLast, rfl⟩ := Option.map_eq_some_iff.mp hFetch
  have hStart : Rated sources [] (⟨none, fun _ => none⟩ : FetchedRates K) := ⟨nofun, nofun, nofun, nofun⟩
  obtain ⟨hSome, hRated⟩ := hStart.fetchAll hLast anchor.token (.inr ⟨anchor, hAnchor, rfl⟩)
  obtain ⟨rate, hRate⟩ := Option.isSome_iff_exists.mp hSome
  refine ⟨rate, hRate, fun hWeth => hRated.native rate (hWeth ▸ hRate), fun hPlausible => ?_⟩
  by_cases hWeth : anchor.token = weth
  · rw [hRated.native rate (hWeth ▸ hRate)]
    constructor <;> norm_num
  · obtain ⟨wethUsd, anchorUsd, hWethUsd, hAnchorUsd, hPositive, rfl⟩ := hRated.others _ hWeth rate hRate
    obtain ⟨hWethLow, hWethHigh⟩ := hPlausible weth wethUsd hWethUsd
    obtain ⟨hLow, hHigh⟩ := hPlausible _ anchorUsd hAnchorUsd
    have hWethPositive : 0 < wethUsd := pos_of_mul_pos_left (zero_lt_one.trans_le hWethLow) (by positivity)
    constructor
    · apply le_rounded_mul (by decide)
      rw [div_mul_eq_mul_div, le_div_iff₀ hWethPositive, one_mul]
      calc wethUsd ≤ 2 ^ 100 := hWethHigh
        _ ≤ anchorUsd * 2 ^ 100 * 2 ^ 100 := le_mul_of_one_le_left (by positivity) hLow
        _ = anchorUsd * 2 ^ 200 := by ring
    · rw [← rounded_two_pow 200]
      apply rounded_mono
      rw [div_le_iff₀ hWethPositive]
      calc anchorUsd ≤ 2 ^ 100 := hHigh
        _ ≤ 2 ^ 100 * (wethUsd * 2 ^ 100) := le_mul_of_one_le_right (by positivity) hWethLow
        _ = 2 ^ 200 * wethUsd := by ring

end Rates

def hopGasKind (dex : DexTag) : HopGasKind :=
  if dex.isV4 then .v4
  else if dex.isV3Family || dex.isAlgebra then .v3
  else if dex = .aeroStable then .aeroStable
  else .v2

def u128From (v : U256) : U128 := if (2 ^ 128 - 1 : Nat) < v.toNat then BitVec.allOnes 128 else v.setWidth 128

/-- `detectedAt` is an instant in nanoseconds. -/
structure Evaluator.Evaluated where
  opp : Optimizer.Opportunity
  netProfitWei : U128
  gasUnits : U64
  gasCostWei : U128
  priorityFeeWei : U128
  block : Nat
  detectedAt : Nat
  deriving DecidableEq

structure Evaluator (K : Type) where
  engine : Engine
  store : RouteStore
  gas : GasConfig K
  cfg : RoutingConfig K
  anchors : List (TradingAnchor K)
  prices : Address → Option K

namespace Evaluator

section Calldata

variable {K : Type} (ev : Evaluator K)

def hopKinds (route : Route) : Option (List HopGasKind) :=
  route.hops.mapM fun h => (ev.engine.metaOf h.pool).map fun pool => hopGasKind pool.dex

def calldataLen (route : Route) (kinds : List HopGasKind) : Nat :=
  200 + route.hops.length * 160 + 64 + kinds.countP (· = .v4) * 128

variable {ev}

theorem calldataLen_lt {route : Route} {kinds : List HopGasKind} (hKinds : ev.hopKinds route = some kinds)
    (hLength : route.hops.length ≤ 65536) : calldataLen route kinds < 2 ^ 32 := by
  have hSame := PartialMaps.length_of_mapM hKinds
  have hCount := List.countP_le_length (p := fun k : HopGasKind => decide (k = .v4)) (l := kinds)
  unfold calldataLen
  omega

end Calldata

section Gate

variable {K : Type} [Field K] [LinearOrder K] [FloorSemiring K] (ev : Evaluator K)

def anchorToWethWei (anchor : TradingAnchor K) (amount : U128) : Option U128 :=
  (ev.prices anchor.token).map fun rate =>
    asU128 (rounded (rounded (rounded (rounded (amount.toNat : K) / powi 10 anchor.decimals.toNat) * rate) * 10 ^ 18))

def wethWeiToAnchor (anchor : TradingAnchor K) (wei : U128) : Option U128 :=
  (ev.prices anchor.token).map fun rate =>
    asU128 (rounded (rounded (rounded (rounded (wei.toNat : K) / 10 ^ 18) / rate) * powi 10 anchor.decimals.toNat))

def applyGasGate (g : GasStation) (opp : Optimizer.Opportunity) (block : Nat) (anchor : TradingAnchor K)
    (detectedAt : Nat) : Option (Option Evaluated) := do
  let route ← ev.store.route opp.routeId
  let kinds ← ev.hopKinds route
  let gasUnits := routeGasUnits kinds true
  let gross := u128From opp.grossProfit
  let grossWethWei ← ev.anchorToWethWei anchor gross
  let prio ← priorityFee ev.gas grossWethWei gasUnits
  let gasCostWei := totalGasCost ev.gas g gasUnits prio (calldataLen route kinds)
  let gasCost ← ev.wethWeiToAnchor anchor gasCostWei
  if gross ≤ gasCost then return none
  else
    let net := gross - gasCost
    if net.setWidth 256 < (← anchor.minProfit) then return none
    else return some ⟨opp, net, gasUnits, gasCostWei, prio, block, detectedAt⟩

variable {ev} {g : GasStation} {opp : Optimizer.Opportunity} {anchor : TradingAnchor K} {block detectedAt : Nat}

/-- What an opportunity that passes the gate has been through: the cost of its transaction, at
a tip for its gross profit, and what that leaves of the profit. -/
structure Passes (ev : Evaluator K) (g : GasStation) (anchor : TradingAnchor K) (route : Route) (e : Evaluated) : Prop where
  gasUnits : ∃ kinds, ev.hopKinds route = some kinds ∧ e.gasUnits = routeGasUnits kinds true ∧
    e.gasCostWei = totalGasCost ev.gas g e.gasUnits e.priorityFeeWei (calldataLen route kinds)
  tip : ∃ grossWethWei, ev.anchorToWethWei anchor (u128From e.opp.grossProfit) = some grossWethWei ∧
    priorityFee ev.gas grossWethWei e.gasUnits = some e.priorityFeeWei
  net : 0 < e.netProfitWei.toNat ∧ ∃ gasCost, ev.wethWeiToAnchor anchor e.gasCostWei = some gasCost ∧
    e.netProfitWei.toNat + gasCost.toNat = (u128From e.opp.grossProfit).toNat
  threshold : ∃ minProfit, anchor.minProfit = some minProfit ∧ minProfit.toNat ≤ e.netProfitWei.toNat

theorem Passes.tip_le {route : Route} {e : Evaluated} (h : ev.Passes g anchor route e) :
    e.priorityFeeWei ≤ maxPriorityFee ev.gas := by
  obtain ⟨grossWethWei, -, hPrio⟩ := h.tip
  by_cases hTips : minPriorityFee ev.gas ≤ maxPriorityFee ev.gas
  · obtain ⟨prio, hSame, -, hMax⟩ := priorityFee_spec hTips grossWethWei e.gasUnits
    rw [Option.some.inj (hPrio.symm.trans hSame)]
    exact hMax
  · unfold priorityFee at hPrio
    dsimp only at hPrio
    rw [if_neg hTips] at hPrio
    cases hPrio

theorem applyGasGate_passes {e : Evaluated} (hGate : ev.applyGasGate g opp block anchor detectedAt = some (some e)) :
    ∃ route, ev.store.route opp.routeId = some route ∧ ev.Passes g anchor route e ∧ e.opp = opp ∧ e.block = block ∧
      e.detectedAt = detectedAt := by
  obtain ⟨route, hRoute, hGate⟩ := Option.bind_eq_some_iff.mp hGate
  obtain ⟨kinds, hKinds, hGate⟩ := Option.bind_eq_some_iff.mp hGate
  obtain ⟨grossWethWei, hGross, hGate⟩ := Option.bind_eq_some_iff.mp hGate
  obtain ⟨prio, hPrio, hGate⟩ := Option.bind_eq_some_iff.mp hGate
  obtain ⟨gasCost, hCost, hGate⟩ := Option.bind_eq_some_iff.mp hGate
  split at hGate
  · cases hGate
  next hProfit =>
    obtain ⟨minProfit, hMin, hGate⟩ := Option.bind_eq_some_iff.mp hGate
    split at hGate
    · cases hGate
    next hThreshold =>
      cases hGate
      rw [BitVec.not_le, BitVec.lt_def] at hProfit
      rw [BitVec.not_lt, BitVec.le_def, BitVec.toNat_setWidth_of_le (by decide)] at hThreshold
      refine ⟨route, hRoute, ⟨⟨kinds, hKinds, rfl, rfl⟩, ⟨grossWethWei, hGross, hPrio⟩, ?_, ⟨minProfit, hMin, hThreshold⟩⟩,
        rfl, rfl, rfl⟩
      dsimp only
      rw [BitVec.toNat_sub_of_le (BitVec.le_def.mpr hProfit.le)]
      exact ⟨Nat.sub_pos_of_lt hProfit, gasCost, hCost, Nat.sub_add_cancel hProfit.le⟩

/-- Nothing else is asked of it. -/
theorem Passes.applyGasGate {route : Route} {e : Evaluated} (h : ev.Passes g anchor route e)
    (hRoute : ev.store.route e.opp.routeId = some route) :
    ev.applyGasGate g e.opp e.block anchor e.detectedAt = some (some e) := by
  obtain ⟨kinds, hKinds, hUnits, hGasCost⟩ := h.gasUnits
  obtain ⟨grossWethWei, hGross, hPrio⟩ := h.tip
  obtain ⟨hPositive, gasCost, hCost, hNet⟩ := h.net
  obtain ⟨minProfit, hMin, hThreshold⟩ := h.threshold
  have hProfit : ¬u128From e.opp.grossProfit ≤ gasCost := by
    rw [BitVec.le_def]
    omega
  have hLeft : u128From e.opp.grossProfit - gasCost = e.netProfitWei := by
    apply BitVec.eq_of_toNat_eq
    rw [BitVec.toNat_sub_of_le (BitVec.le_def.mpr (by omega))]
    omega
  have hReached : ¬e.netProfitWei.setWidth 256 < minProfit := by
    rw [BitVec.lt_def, BitVec.toNat_setWidth_of_le (by decide)]
    omega
  unfold Evaluator.applyGasGate
  simp only [hRoute, hKinds, hGross, hMin, Option.bind_eq_bind, Option.bind_some, ← hUnits, hPrio, ← hGasCost, hCost,
    if_neg hProfit, hLeft, if_neg hReached]
  rfl

theorem applyGasGate_returns {route : Route} (hRoute : ev.store.route opp.routeId = some route)
    (hHops : ∀ h ∈ route.hops, ∃ pool, ev.engine.metaOf h.pool = some pool)
    (hTips : minPriorityFee ev.gas ≤ maxPriorityFee ev.gas) (hRate : (ev.prices anchor.token).isSome)
    (hMin : anchor.minProfit.isSome) (g : GasStation) (block detectedAt : Nat) :
    (ev.applyGasGate g opp block anchor detectedAt).isSome := by
  obtain ⟨rate, hRate⟩ := Option.isSome_iff_exists.mp hRate
  obtain ⟨minProfit, hMin⟩ := Option.isSome_iff_exists.mp hMin
  obtain ⟨kinds, hKinds⟩ : ∃ kinds, ev.hopKinds route = some kinds := by
    apply PartialMaps.mapM_isSome
    intro h hHop
    obtain ⟨pool, hPool⟩ := hHops h hHop
    rw [hPool]
    rfl
  obtain ⟨grossWethWei, hGross⟩ : ∃ wei, ev.anchorToWethWei anchor (u128From opp.grossProfit) = some wei := by
    unfold anchorToWethWei
    rw [hRate]
    exact ⟨_, rfl⟩
  obtain ⟨prio, hPrio, -⟩ := priorityFee_spec hTips grossWethWei (routeGasUnits kinds true)
  unfold applyGasGate wethWeiToAnchor
  simp only [hRoute, hKinds, hGross, hRate, hMin, Option.map_some, Option.bind_eq_bind, Option.bind_some, hPrio]
  split
  · rfl
  · split <;> rfl

def worth (anchor : TradingAnchor K) (rate : K) (amount : Nat) : K :=
  (amount : K) / 10 ^ anchor.decimals.toNat * rate * 10 ^ 18

theorem worth_add (anchor : TradingAnchor K) (rate : K) (a b : Nat) :
    worth anchor rate (a + b) = worth anchor rate a + worth anchor rate b := by
  unfold worth
  rw [Nat.cast_add]
  ring

variable [IsStrictOrderedRing K]

theorem worth_mono {anchor : TradingAnchor K} {rate : K} (hRate : 0 ≤ rate) {a b : Nat} (h : a ≤ b) :
    worth anchor rate a ≤ worth anchor rate b := by
  unfold worth
  gcongr

/-- The conversion of an amount that is not zero rounds four times, and once more for each
decimal at most. -/
theorem wethWeiToAnchor_near (anchor : TradingAnchor K) {rate : K} (hLow : 1 ≤ rate * 2 ^ 200) (hHigh : rate ≤ 2 ^ 200)
    {wei : Nat} (hWei : 0 < wei) :
    Near (4 + anchor.decimals.toNat)
      (rounded (rounded (rounded (rounded (wei : K) / 10 ^ 18) / rate) * powi 10 anchor.decimals.toNat))
      ((wei : K) / 10 ^ 18 / rate * 10 ^ anchor.decimals.toNat) := by
  have hPositive : 0 < rate := pos_of_mul_pos_left (zero_lt_one.trans_le hLow) (by positivity)
  have hDecimals : anchor.decimals.toNat < 2 ^ 32 := (show anchor.decimals.toNat < 2 ^ 8 from anchor.decimals.isLt).trans (by decide)
  obtain ⟨hUnits, hUnitsLow⟩ := powi_near (K := K) (x := 10) (by norm_num) hDecimals
  have hOne : 1 ≤ (wei : K) * 2 ^ 0 := by
    rw [pow_zero, mul_one]
    exact_mod_cast hWei
  have hRead := (Near.refl (wei : K)).rounded (normal_of_le (by decide) hOne)
  have hReadLow := le_rounded_mul (by decide) hOne
  have hEthLow : 1 ≤ rounded (wei : K) / 10 ^ 18 * 2 ^ 60 := by
    rw [div_mul_eq_mul_div, le_div_iff₀ (by positivity), one_mul]
    calc (10 : K) ^ 18 ≤ 1 * 2 ^ 60 := by norm_num
      _ ≤ rounded (wei : K) * 2 ^ 60 := by
        rw [pow_zero, mul_one] at hReadLow
        gcongr
  have hEth := (hRead.div_right (show (0 : K) ≤ 10 ^ 18 by positivity)).rounded (normal_of_le (by decide) hEthLow)
  have hRatedLow : 1 ≤ rounded (rounded (wei : K) / 10 ^ 18) / rate * 2 ^ 260 := by
    rw [div_mul_eq_mul_div, le_div_iff₀ hPositive, one_mul]
    calc rate ≤ 2 ^ 200 := hHigh
      _ ≤ rounded (rounded (wei : K) / 10 ^ 18) * 2 ^ 60 * 2 ^ 200 :=
        le_mul_of_one_le_left (by positivity) (le_rounded_mul (by decide) hEthLow)
      _ = rounded (rounded (wei : K) / 10 ^ 18) * 2 ^ 260 := by rw [mul_assoc, ← pow_add]
  have hRated := (hEth.div_right hPositive.le).rounded (normal_of_le (by decide) hRatedLow)
  have hScaledLow : 1 ≤ rounded (rounded (rounded (wei : K) / 10 ^ 18) / rate) * powi 10 anchor.decimals.toNat * 2 ^ 260 := by
    calc (1 : K) ≤ rounded (rounded (rounded (wei : K) / 10 ^ 18) / rate) * 2 ^ 260 := le_rounded_mul (by decide) hRatedLow
      _ ≤ rounded (rounded (rounded (wei : K) / 10 ^ 18) / rate) * 2 ^ 260 * powi 10 anchor.decimals.toNat :=
        le_mul_of_one_le_right (zero_le_one.trans (le_rounded_mul (by decide) hRatedLow)) hUnitsLow
      _ = _ := mul_right_comm _ _ _
  have hNonneg : 0 ≤ rounded (rounded (rounded (wei : K) / 10 ^ 18) / rate) :=
    rounded_nonneg (div_nonneg (rounded_nonneg (div_nonneg (rounded_nonneg (Nat.cast_nonneg _)) (by positivity))) hPositive.le)
  have hAll := (hRated.mul hUnits (by positivity) (by positivity) hNonneg (zero_le_one.trans hUnitsLow)).rounded
    (normal_of_le (by decide) hScaledLow)
  rwa [show 0 + 1 + 1 + 1 + anchor.decimals.toNat + 1 = 4 + anchor.decimals.toNat by omega] at hAll

/-- The gas cost in the anchor loses less than one of its smallest units, beside the roundings. -/
theorem lt_worth_of_wethWeiToAnchor {rate : K} (hRate : ev.prices anchor.token = some rate) (hLow : 1 ≤ rate * 2 ^ 200)
    (hHigh : rate ≤ 2 ^ 200) {wei gasCost : U128} (hCost : ev.wethWeiToAnchor anchor wei = some gasCost)
    (hRoom : gasCost.toNat < 2 ^ 128 - 1) :
    (wei.toNat : K) * kept K (4 + anchor.decimals.toNat) < worth anchor rate (gasCost.toNat + 1) := by
  have hPositive : 0 < rate := pos_of_mul_pos_left (zero_lt_one.trans_le hLow) (by positivity)
  have hUnits : (0 : K) < 10 ^ anchor.decimals.toNat := by positivity
  rcases Nat.eq_zero_or_pos wei.toNat with hNone | hSome
  · rw [hNone, Nat.cast_zero, zero_mul, worth]
    positivity
  unfold wethWeiToAnchor at hCost
  rw [hRate, Option.map_some, Option.some.injEq] at hCost
  rw [← hCost] at hRoom
  have hLoss := lt_asU128_add_one hRoom
  rw [hCost] at hLoss
  have hNear := (wethWeiToAnchor_near anchor hLow hHigh hSome).ge (by positivity)
  have hScaled : (wei.toNat : K) * kept K (4 + anchor.decimals.toNat) = wei.toNat / 10 ^ 18 / rate *
      10 ^ anchor.decimals.toNat * kept K (4 + anchor.decimals.toNat) / 10 ^ anchor.decimals.toNat *
      rate * 10 ^ 18 := by field_simp
  rw [hScaled, worth, Nat.cast_add, Nat.cast_one]
  have hBelow := hNear.trans_lt hLoss
  gcongr

/-- What passes the gate pays for its transaction, and for the threshold, but for one smallest
unit of the anchor and the roundings, as long as the transaction keeps to its gas and the base
fee has not grown by more than an eighth. -/
theorem Passes.covers {route : Route} {e : Evaluated} (h : ev.Passes g anchor route e) (hModerate : Moderate ev.gas)
    (hLength : route.hops.length ≤ 65536) {rate : K} (hRate : ev.prices anchor.token = some rate)
    (hLow : 1 ≤ rate * 2 ^ 200) (hHigh : rate ≤ 2 ^ 200) {gasUsed baseFee : Nat} (hUsed : gasUsed ≤ e.gasUnits.toNat)
    (hFee : baseFee * 8 ≤ g.baseFee.toNat * 9) :
    ∃ kinds minProfit, ev.hopKinds route = some kinds ∧ anchor.minProfit = some minProfit ∧
      ((gasUsed * (baseFee + e.priorityFeeWei.toNat) + l1Fee g (calldataLen route kinds) : Nat) : K) *
            kept K (5 + anchor.decimals.toNat) + worth anchor rate minProfit.toNat <
          worth anchor rate ((u128From e.opp.grossProfit).toNat + 1) := by
  obtain ⟨kinds, hKinds, hUnits, hCost⟩ := h.gasUnits
  obtain ⟨hPositiveNet, gasCost, hAnchorCost, hNet⟩ := h.net
  obtain ⟨minProfit, hMin, hThreshold⟩ := h.threshold
  refine ⟨kinds, minProfit, hKinds, hMin, ?_⟩
  have hPositive : 0 < rate := pos_of_mul_pos_left (zero_lt_one.trans_le hLow) (by positivity)
  have hShort : kinds.length ≤ 65536 := (PartialMaps.length_of_mapM hKinds).trans_le hLength
  have hGross : (u128From e.opp.grossProfit).toNat < 2 ^ 128 := (u128From e.opp.grossProfit).isLt
  have hRoom : gasCost.toNat < 2 ^ 128 - 1 := by omega
  have hPays := cost_le_totalGasCost (g := g) hModerate h.tip_le (hUnits ▸ routeGasUnits_lt hShort)
    (calldataLen_lt hKinds hLength) hUsed hFee
  rw [← hCost] at hPays
  generalize gasUsed * (baseFee + e.priorityFeeWei.toNat) + l1Fee g (calldataLen route kinds) = cost at hPays ⊢
  have hDecimals : anchor.decimals.toNat < 2 ^ 8 := anchor.decimals.isLt
  have hRoundings : (cost : K) * kept K (5 + anchor.decimals.toNat) ≤
      e.gasCostWei.toNat * kept K (4 + anchor.decimals.toNat) := by
    have hSplit := kept_add_le (K := K) 1 (4 + anchor.decimals.toNat)
    rw [← Nat.add_assoc] at hSplit
    calc (cost : K) * kept K (5 + anchor.decimals.toNat) ≤ cost * (kept K 1 * kept K (4 + anchor.decimals.toNat)) :=
          mul_le_mul_of_nonneg_left hSplit (Nat.cast_nonneg cost)
      _ = cost * kept K 1 * kept K (4 + anchor.decimals.toNat) := by rw [mul_assoc]
      _ ≤ _ := mul_le_mul_of_nonneg_right hPays (kept_nonneg (by omega))
  calc (cost : K) * kept K (5 + anchor.decimals.toNat) + worth anchor rate minProfit.toNat ≤
        e.gasCostWei.toNat * kept K (4 + anchor.decimals.toNat) + worth anchor rate e.netProfitWei.toNat :=
        add_le_add hRoundings (worth_mono hPositive.le hThreshold)
    _ < worth anchor rate (gasCost.toNat + 1) + worth anchor rate e.netProfitWei.toNat :=
        add_lt_add_of_lt_of_le (lt_worth_of_wethWeiToAnchor hRate hLow hHigh hAnchorCost hRoom) le_rfl
    _ = worth anchor rate ((u128From e.opp.grossProfit).toNat + 1) := by
        rw [← worth_add, ← hNet]
        congr 1
        omega

end Gate

end Evaluator

end Robinarb
