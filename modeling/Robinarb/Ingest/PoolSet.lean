import Robinarb.Ingest.Loader
import Robinarb.Library.BitFields

/-! # The pool set of a start

`App::bootstrap` takes its pools from factory scans or from pins, over the cache files that
the starts before it left. Every V4 pool it goes on with is one the PoolManager has
initialized, with the key it was initialized with.
-/

namespace Robinarb

open CheckpointedLoop

/-- The cache files, by the name of their dex. -/
abbrev CacheFiles := String → Option DexCache

/-- What a run of `discover_all` meets: one head, and a scan for each dex. -/
structure AllRun where
  head : U64
  fails : Nat → Nat → Nat → Nat → Bool
  clocks : Nat → List Bool
  refuses : ∀ n first last attempt, last < first → fails n first last attempt = true

def AllRun.scan (r : AllRun) (n : Nat) : DiscoveryRun := ⟨r.head, r.fails n, r.clocks n, r.refuses n⟩

/-- `scan` is a scan that fails or is interrupted. -/
inductive StartError where
  | bail (text : String)
  | scan
  | load (e : LoadError)
  deriving DecidableEq

/-- One start of the program: its configuration, and what it meets. -/
structure Startup where
  events : CreationEvents
  decoders : PinDecoders
  chain : List Log
  mc : Nat → Nat → List PinCall → Option (List CallResult)
  dexes : List NamedDex
  discovery : DiscoveryConfig
  enabled : Bool
  poolsFile : String
  pins : List PoolPin
  run : AllRun

namespace Startup

variable (s : Startup)

/-- `discover_all`, with the files as it leaves them. -/
def discoverAll : List (NamedDex × Nat) → CacheFiles → Option (List DiscoveredPool) × CacheFiles
  | [], files => (some [], files)
  | (dex, n) :: rest, files =>
    match discover s.events dex.toDexConfig s.discovery s.chain (s.run.scan n) (files dex.name) with
    | .stopped disk => (none, Function.update files dex.name disk)
    | .done scan disk =>
      let (found, files) := discoverAll rest (Function.update files dex.name disk)
      (found.map (scan.cache.pools ++ ·), files)

def loader (keccak : KeyHash) (files : CacheFiles) : Loader := ⟨s.mc, s.decoders, keccak, s.dexes, files⟩

def wrongManager (dex : NamedDex) : Bool := decide (dex.kind = .v4) && decide (dex.factory ≠ univ4PoolManager)

def managerText (dex : NamedDex) : String :=
  "[[dex]] " ++ dex.name ++ " kind=v4 must use the Robinhood Chain PoolManager 0x8366a39CC670B4001A1121B8F6A443A643e40951"

/-- The first step of `App::bootstrap`: the discovered pools, and the files as they are left. -/
def poolSet (keccak : KeyHash) (files : CacheFiles) : Except StartError (List DiscoveredPool) × CacheFiles :=
  match s.dexes.find? wrongManager with
  | some dex => (.error (.bail (managerText dex)), files)
  | none =>
    if s.enabled then
      let (found, files) := s.discoverAll s.dexes.zipIdx files
      (match found with | none => .error .scan | some pools => .ok pools, files)
    else if s.pins.isEmpty then
      (.error (.bail ("discovery.enabled = false but " ++ s.poolsFile ++ " has no [[pool]] entries")), files)
    else (((s.loader keccak files).loadPinnedPools s.pins).mapError StartError.load, files)

end Startup

section Keys

/-- What is hashed for the id of a key. -/
def keyWords (currency0 currency1 : Address) (fee : U32) (tickSpacing : Int) (hooks : Address) : BitVec 1280 :=
  currency0.setWidth 256 ++ currency1.setWidth 256 ++ (fee.setWidth 24).setWidth 256 ++ BitVec.ofInt 256 tickSpacing ++
    hooks.setWidth 256

def PoolKey.words (key : PoolKey) : BitVec 1280 :=
  keyWords key.currency0 key.currency1 key.fee key.tickSpacing key.hooks

/-- The `Initialize` event of a key. -/
def PoolKey.announcement (keccak : KeyHash) (key : PoolKey) : V4Initialize :=
  ⟨key.id keccak, key.currency0, key.currency1, key.fee.setWidth 24, key.tickSpacing, key.hooks⟩

theorem PoolKey.fee_back (key : PoolKey) : (key.fee.setWidth 24).setWidth 32 = key.fee := by
  apply BitVec.eq_of_toNat_eq
  have hRange := key.feeRange
  simp only [BitVec.toNat_setWidth]
  omega

theorem words_inj {key : PoolKey} {c0 c1 : Address} {fee : U32} {ts : Int} {hooks : Address}
    (hFee : fee ≤ univ4MaxLpFee) (hSpacing : -8388608 ≤ ts ∧ ts ≤ 8388607) (h : key.words = keyWords c0 c1 fee ts hooks) :
    key.currency0 = c0 ∧ key.currency1 = c1 ∧ key.fee = fee ∧ key.tickSpacing = ts ∧ key.hooks = hooks := by
  obtain ⟨h, hHooks⟩ := BitFields.append_inj h
  obtain ⟨h, hTicks⟩ := BitFields.append_inj h
  obtain ⟨h, hPips⟩ := BitFields.append_inj h
  obtain ⟨h0, h1⟩ := BitFields.append_inj h
  have hRange := key.feeRange
  have hBound := key.spacingRange
  have hSmall : fee.toNat ≤ 1000000 := hFee
  have hSame := congrArg BitVec.toNat (BitFields.setWidth_inj (by decide) hPips)
  rw [BitVec.toNat_setWidth, BitVec.toNat_setWidth] at hSame
  refine ⟨BitFields.setWidth_inj (by decide) h0, BitFields.setWidth_inj (by decide) h1, BitVec.eq_of_toNat_eq (by omega),
    BitFields.ofInt_inj (by decide) ?_ ?_ hTicks, BitFields.setWidth_inj (by decide) hHooks⟩
  · norm_num
    omega
  · norm_num
    omega

end Keys

section Identity

variable (keccak : KeyHash) (initialized : PoolKey → Prop)

/-- A V4 pool is that of an initialized key of the PoolManager. -/
def DiscoveredPool.Keyed (p : DiscoveredPool) : Prop :=
  p.dex = .uniV4 → p.factory = univ4PoolManager ∧ ∃ key, initialized key ∧ p.FromKey keccak key

def CacheFiles.Keyed (files : CacheFiles) : Prop :=
  ∀ name cache, files name = some cache → ∀ p ∈ cache.pools, p.Keyed keccak initialized

/-- The PoolManager announces the keys it initializes, the state view has a price for these
only, and no pin is of another key with the same id. -/
structure Startup.Genuine (answers : PinCall → CallResult → Prop) (s : Startup) : Prop where
  announced : ∀ log ∈ s.chain, log.address = univ4PoolManager → ∀ ev, s.events.uniV4.decodeLog log = some ev →
    ∃ key, initialized key ∧ ev = key.announcement keccak
  multicall : ∀ i attempt chunk res, s.mc i attempt chunk = some res → List.Forall₂ answers chunk res
  priced : ∀ id data slot0, answers ⟨univ4StateView, .getSlot0 id⟩ ⟨true, data⟩ →
    s.decoders.stateViewSlot0 data = some slot0 → slot0.sqrtPriceX96 ≠ 0#160 → ∃ key, initialized key ∧ key.id keccak = id
  apart : ∀ pin ∈ s.pins, ∀ c0 c1 fee ts, pin.currency0 = some c0 → pin.currency1 = some c1 → pin.fee = some fee →
    pin.tickSpacing = some ts → ∀ key, initialized key → key.id keccak = V4Meta.poolIdOf keccak c0 c1 fee ts →
      key.words = keyWords c0 c1 fee ts 0#160

/-- The cache files after any number of starts, each of which may fail or be interrupted
anywhere, and with files torn between them. -/
inductive CacheFiles.Left (answers : PinCall → CallResult → Prop) : CacheFiles → Prop where
  | fresh : Left answers fun _ => none
  | started {files : CacheFiles} (before : Left answers files) (s : Startup) (genuine : s.Genuine keccak initialized answers) :
      Left answers (s.poolSet keccak files).2
  | torn {files : CacheFiles} (before : Left answers files) (name : String) : Left answers (Function.update files name none)

variable {keccak initialized} {answers : PinCall → CallResult → Prop} {s : Startup}

theorem keyed_of_key {key : PoolKey} (hKey : initialized key) {p : DiscoveredPool}
    (h : v4PoolFromKey univ4PoolManager (key.id keccak) key.currency0 key.currency1 key.fee key.tickSpacing key.hooks = some p) :
    p.Keyed keccak initialized := by
  refine fun _ => ⟨?_, key, hKey, univ4PoolManager, h⟩
  obtain ⟨-, h⟩ := Option.ite_none_left_eq_some.mp h
  obtain ⟨-, h⟩ := Option.ite_none_left_eq_some.mp h
  obtain rfl := Option.some.inj h
  rfl

theorem keyed_of_dex {p : DiscoveredPool} (h : p.dex.isV4 = false) : p.Keyed keccak initialized :=
  fun hDex => Bool.noConfusion (h.symm.trans (congrArg DexTag.isV4 hDex))

section Scans

variable {dex : DexConfig}

theorem scanFilter_address {topic : B256} {log : Log} (h : (scanFilter dex topic).selects log = true) :
    log.address = dex.factory := by
  have hAddress := (Bool.and_eq_true_iff.mp h).1
  simpa [scanFilter, matchesAddress] using hAddress

theorem mem_of_reduceOption {events : CreationEvents} {logs : List Log} {found : List (Option DiscoveredPool)}
    (h : logs.mapM (decodePoolLog events dex) = some found) {p : DiscoveredPool} (hp : p ∈ found.reduceOption) :
    ∃ log ∈ logs, decodePoolLog events dex log = some (some p) := by
  rw [reduceOption_of_mapM h, List.mem_filterMap] at hp
  obtain ⟨log, hMem, hLog⟩ := hp
  exact ⟨log, hMem, Option.join_eq_some_iff.mp hLog⟩

theorem decodePoolLog_keyed (hs : s.Genuine keccak initialized answers) (hManager : dex.kind = .v4 → dex.factory = univ4PoolManager)
    {log : Log} (hMem : log ∈ s.chain) (hAddress : log.address = dex.factory) {p : DiscoveredPool}
    (h : decodePoolLog s.events dex log = some (some p)) : p.Keyed keccak initialized := by
  unfold decodePoolLog at h
  split at h
  · obtain ⟨ev, -, h⟩ := Option.bind_eq_some_iff.mp h
    cases h
    exact keyed_of_dex rfl
  · obtain ⟨ev, -, h⟩ := Option.bind_eq_some_iff.mp h
    cases h
    refine keyed_of_dex ?_
    dsimp only
    split <;> rfl
  · obtain ⟨ev, -, h⟩ := Option.bind_eq_some_iff.mp h
    cases h
    exact keyed_of_dex rfl
  · obtain ⟨ev, -, h⟩ := Option.bind_eq_some_iff.mp h
    cases h
    exact keyed_of_dex rfl
  · obtain ⟨ev, -, h⟩ := Option.bind_eq_some_iff.mp h
    cases h
    exact keyed_of_dex rfl
  · rename_i hKind
    obtain ⟨ev, hEv, h⟩ := Option.bind_eq_some_iff.mp h
    obtain ⟨key, hKey, rfl⟩ := hs.announced log hMem (hAddress.trans (hManager hKind)) ev hEv
    have hPool := Option.some.inj h
    rw [hManager hKind] at hPool
    refine keyed_of_key hKey (Eq.trans ?_ hPool)
    rw [PoolKey.announcement, key.fee_back]
  · cases h

def DexCache.Keyed (keccak : KeyHash) (initialized : PoolKey → Prop) (cache : DexCache) : Prop :=
  ∀ p ∈ cache.pools, p.Keyed keccak initialized

theorem scanChunk_keyed (hs : s.Genuine keccak initialized answers) (hManager : dex.kind = .v4 → dex.factory = univ4PoolManager)
    {fails : Nat → Nat → Nat → Bool} {topic : B256} {head : U64} {before after : ScanState}
    (h : before.cache.Keyed keccak initialized)
    (hStep : scanChunk s.events dex s.discovery ⟨s.chain, fails⟩ topic head before = some after) :
    after.cache.Keyed keccak initialized := by
  unfold scanChunk at hStep
  dsimp only at hStep
  split at hStep
  · cases hStep
  · rename_i logs hLogs
    obtain ⟨found, hFound, hEnd⟩ := Option.bind_eq_some_iff.mp hStep
    cases hEnd
    intro p hp
    obtain hOld | hNew := List.mem_append.mp hp
    · exact h p hOld
    · obtain ⟨log, hMem, hLog⟩ := mem_of_reduceOption hFound hNew
      obtain ⟨hMined, hSelects⟩ := LogProvider.mem_of_getLogsBisect hLogs hMem
      exact decodePoolLog_keyed hs hManager hMined (scanFilter_address hSelects) hLog

theorem discover_keyed (hs : s.Genuine keccak initialized answers) (hManager : dex.kind = .v4 → dex.factory = univ4PoolManager)
    (r : DiscoveryRun) {disk : Option DexCache} (h : ∀ cache ∈ disk, cache.Keyed keccak initialized) :
    (∀ cache ∈ (discover s.events dex s.discovery s.chain r disk).disk, cache.Keyed keccak initialized) ∧
      ∀ scan left, discover s.events dex s.discovery s.chain r disk = .done scan left → scan.cache.Keyed keccak initialized := by
  have hLoad : (loadCache disk).Keyed keccak initialized := by
    cases disk with
    | none => exact nofun
    | some cache => exact h cache rfl
  unfold discover
  dsimp only
  split
  · split
    · exact ⟨h, nofun⟩
    · rename_i topic _
      have hTurns : ∀ before after disk clock,
          (before.cache.Keyed keccak initialized ∧ ∀ cache ∈ disk, cache.Keyed keccak initialized) →
          (scanLoop s.events dex s.discovery ⟨s.chain, r.fails⟩ topic r.head).going before = true →
          (scanLoop s.events dex s.discovery ⟨s.chain, r.fails⟩ topic r.head).step before = some after →
          after.cache.Keyed keccak initialized ∧
            ∀ cache ∈ (scanLoop s.events dex s.discovery ⟨s.chain, r.fails⟩ topic r.head).next clock after disk,
              cache.Keyed keccak initialized := by
        rintro before after disk clock ⟨hCache, hDisk⟩ - hStep
        have hAfter := scanChunk_keyed hs hManager hCache hStep
        refine ⟨hAfter, fun cache hMem => ?_⟩
        unfold Loop.next at hMem
        split at hMem
        · cases hMem
          exact hAfter
        · exact hDisk cache hMem
      obtain ⟨⟨_, -, hLeft⟩, hDone⟩ := Loop.run_keeps hTurns r.clocks
        (s := ⟨scanStart dex s.discovery (loadCache disk), loadCache disk⟩) ⟨hLoad, h⟩
      exact ⟨hLeft, fun scan left hEnd => (hDone scan left hEnd).1.1⟩
  · refine ⟨h, ?_⟩
    rintro _ _ ⟨⟩
    exact hLoad

theorem CacheFiles.Keyed.update {files : CacheFiles} (h : files.Keyed keccak initialized) (name : String) {disk : Option DexCache}
    (hDisk : ∀ cache ∈ disk, cache.Keyed keccak initialized) : CacheFiles.Keyed keccak initialized (Function.update files name disk) := by
  intro other cache hCache
  by_cases hSame : other = name
  · rw [hSame, Function.update_self] at hCache
    exact hDisk cache hCache
  · rw [Function.update_of_ne hSame] at hCache
    exact h other cache hCache

theorem discoverAll_keyed (hs : s.Genuine keccak initialized answers) {dexes : List (NamedDex × Nat)}
    (hManager : ∀ dex ∈ dexes, dex.1.kind = .v4 → dex.1.factory = univ4PoolManager) {files : CacheFiles}
    (h : files.Keyed keccak initialized) :
    CacheFiles.Keyed keccak initialized (s.discoverAll dexes files).2 ∧
      ∀ found, (s.discoverAll dexes files).1 = some found → ∀ p ∈ found, p.Keyed keccak initialized := by
  induction dexes generalizing files with
  | nil =>
    refine ⟨h, ?_⟩
    rintro _ ⟨⟩
    exact nofun
  | cons first rest ih =>
    obtain ⟨hFirst, hRest⟩ := List.forall_mem_cons.mp hManager
    obtain ⟨hLeft, hDone⟩ := discover_keyed hs hFirst (s.run.scan first.2) (h first.1.name)
    rw [Startup.discoverAll]
    cases hOutcome : discover s.events first.1.toDexConfig s.discovery s.chain (s.run.scan first.2) (files first.1.name) with
    | stopped disk =>
      rw [hOutcome] at hLeft
      exact ⟨h.update first.1.name hLeft, nofun⟩
    | done scan disk =>
      rw [hOutcome] at hLeft
      obtain ⟨hFiles, hFound⟩ := ih hRest (h.update first.1.name hLeft)
      refine ⟨hFiles, fun found hAll p hp => ?_⟩
      obtain ⟨others, hOthers, rfl⟩ := Option.map_eq_some_iff.mp hAll
      obtain hHere | hLater := List.mem_append.mp hp
      · exact hDone scan disk hOutcome p hHere
      · exact hFound others hOthers p hLater

end Scans

section Pins

variable {L : Loader}

theorem classify_not_v4 {a : Address} {row : Nat → Option CallResult} {p : DiscoveredPool} (h : L.classify a row = some p) :
    p.dex.isV4 = false := by
  unfold Loader.classify at h
  dsimp only at h
  split at h
  · split at h
    · cases h
    · split at h
      · cases h
      · split at h
        · cases h
          rfl
        · cases h
          split <;> rfl
        · cases h
          rfl
        · cases h
          rfl
        · cases h
          rfl
        · cases h
        · obtain ⟨-, h⟩ := Option.ite_none_right_eq_some.mp h
          cases h
          rfl
  · cases h

theorem mem_loadAddressPins {addresses : List Address} {pools : List DiscoveredPool}
    (h : L.loadAddressPins addresses = .ok pools) {p : DiscoveredPool} (hp : p ∈ pools) : p.dex.isV4 = false := by
  unfold Loader.loadAddressPins at h
  split at h
  · cases h
    cases hp
  · split at h
    · cases h
    · cases h
      obtain ⟨pin, -, hPin⟩ := List.mem_filterMap.mp hp
      exact classify_not_v4 hPin

theorem mem_candidates {pins : List PoolPin} {found : List (Option DiscoveredPool)} (h : pins.mapM L.v4Candidate = .ok found)
    {p : DiscoveredPool} (hp : some p ∈ found) : ∃ pin ∈ pins, L.v4Candidate pin = .ok (some p) := by
  rw [funext Loader.v4Candidate_eq, FirstMatch.mapM_guarded] at h
  cases hFind : pins.find? L.misses with
  | some pin =>
    rw [hFind] at h
    cases h
  | none =>
    rw [hFind] at h
    cases h
    obtain ⟨pin, hMem, hPin⟩ := List.mem_map.mp hp
    have hKind := List.find?_eq_none.mp hFind pin hMem
    exact ⟨pin, hMem, by rw [Loader.v4Candidate_eq, if_neg hKind, hPin]⟩

theorem mem_loadV4Pins {answers : PinCall → CallResult → Prop}
    (hCalls : ∀ i attempt chunk res, L.mc i attempt chunk = some res → List.Forall₂ answers chunk res)
    {pins : List PoolPin} {pools : List DiscoveredPool} (h : L.loadV4Pins pins = .ok pools) {p : DiscoveredPool} (hp : p ∈ pools) :
    ∃ pin ∈ pins, L.v4Candidate pin = .ok (some p) ∧ ∃ result, answers (slot0Call p) result ∧ L.live result = true := by
  unfold Loader.loadV4Pins at h
  split at h
  · cases h
    cases hp
  · obtain ⟨found, hFound, h⟩ := FirstMatch.bind_eq_ok.mp h
    dsimp only at h
    split at h
    · cases h
    · rename_i res hRes
      cases h
      have hEach : List.Forall₂ answers (found.reduceOption.map slot0Call) res := ChunkedQuery.queried_answers hCalls hRes
      obtain ⟨⟨q, result⟩, hPair, hLive⟩ := List.mem_filterMap.mp hp
      obtain ⟨hResult, hSame⟩ := Option.ite_none_right_eq_some.mp hLive
      obtain rfl := Option.some.inj hSame
      have hAnswer : answers (slot0Call q) result := List.forall₂_zip (List.forall₂_map_left_iff.mp hEach) hPair
      obtain ⟨pin, hPin, hCandidate⟩ := mem_candidates hFound (List.reduceOption_mem_iff.mp (List.of_mem_zip hPair).1)
      exact ⟨pin, hPin, hCandidate, result, hAnswer, hResult⟩

theorem live_eq {result : CallResult} (h : L.live result = true) :
    ∃ slot0, result.success = true ∧ L.decoders.stateViewSlot0 result.returnData = some slot0 ∧ slot0.sqrtPriceX96 ≠ 0#160 := by
  obtain ⟨success, data⟩ := result
  unfold Loader.live answered at h
  cases success with
  | false => cases h
  | true =>
    change ((L.decoders.stateViewSlot0 data).map fun s => decide (s.sqrtPriceX96 ≠ 0#160)).getD false = true at h
    cases hSlot : L.decoders.stateViewSlot0 data with
    | none =>
      rw [hSlot] at h
      cases h
    | some slot0 =>
      rw [hSlot] at h
      exact ⟨slot0, rfl, rfl, of_decide_eq_true h⟩

theorem mem_loadPinnedPools {answers : PinCall → CallResult → Prop}
    (hCalls : ∀ i attempt chunk res, L.mc i attempt chunk = some res → List.Forall₂ answers chunk res)
    {pins : List PoolPin} {pools : List DiscoveredPool} (h : L.loadPinnedPools pins = .ok pools) {p : DiscoveredPool}
    (hp : p ∈ pools) : p.dex.isV4 = false ∨ ∃ pin ∈ pins, L.v4Candidate pin = .ok (some p) ∧
      ∃ data slot0, answers (slot0Call p) ⟨true, data⟩ ∧ L.decoders.stateViewSlot0 data = some slot0 ∧
        slot0.sqrtPriceX96 ≠ 0#160 := by
  unfold Loader.loadPinnedPools at h
  split at h
  · cases h
  · obtain ⟨out, hOut, h⟩ := FirstMatch.bind_eq_ok.mp h
    obtain ⟨v4, hV4, h⟩ := FirstMatch.bind_eq_ok.mp h
    cases h
    obtain hAddressed | hKeyed := List.mem_append.mp hp
    · exact .inl (mem_loadAddressPins hOut hAddressed)
    · obtain ⟨pin, hPin, hCandidate, ⟨success, data⟩, hAnswer, hLive⟩ := mem_loadV4Pins hCalls hV4 hKeyed
      obtain ⟨slot0, hSuccess, hSlot, hPrice⟩ := live_eq hLive
      cases hSuccess
      exact .inr ⟨pin, List.mem_of_mem_filter hPin, hCandidate, data, slot0, hAnswer, hSlot, hPrice⟩

theorem mem_of_lastEntry {κ γ : Type} [BEq κ] [LawfulBEq κ] {entries : List (κ × γ)} {key : κ} {x : γ}
    (h : lastEntry entries key = some x) : (key, x) ∈ entries := by
  obtain ⟨entry, hEntry, rfl⟩ := Option.map_eq_some_iff.mp h
  obtain ⟨hMem, hKey⟩ := List.mem_filter.mp (List.mem_of_getLast? hEntry)
  rw [← LawfulBEq.eq_of_beq hKey]
  exact hMem

/-- A V4 pin that is a candidate is a cached pool, or it has a key in range. -/
theorem v4Candidate_cases {pin : PoolPin} {p : DiscoveredPool} (h : L.v4Candidate pin = .ok (some p)) :
    ∃ dex ∈ L.dexes, dex.kind = .v4 ∧ (p ∈ L.cachedPools dex.name ∨
      ∃ c0 c1 fee ts, pin.currency0 = some c0 ∧ pin.currency1 = some c1 ∧ pin.fee = some fee ∧ pin.tickSpacing = some ts ∧
        (-8388608 ≤ ts ∧ ts ≤ 8388607) ∧ fee ≤ univ4MaxLpFee ∧
        v4PoolFromKey dex.factory (V4Meta.poolIdOf L.keccak c0 c1 fee ts) c0 c1 fee ts 0#160 = some p) := by
  unfold Loader.v4Candidate at h
  split at h
  · cases h
  · rename_i dex hDex
    have hMem := List.mem_of_find?_eq_some hDex
    split at h
    · cases h
    · rename_i hKind
      refine ⟨dex, hMem, not_not.mp hKind, ?_⟩
      split at h
      · rename_i c0 c1 fee ts hC0 hC1 hFee hTs
        split at h
        · cases h
        · rename_i hRange
          rw [not_or, not_not, BitVec.not_lt] at hRange
          exact .inr ⟨c0, c1, fee, ts, hC0, hC1, hFee, hTs, hRange.1, hRange.2, Except.ok.inj h⟩
      · split at h
        · have hEntry := mem_of_lastEntry (Except.ok.inj h)
          obtain ⟨q, hq, hSame⟩ := List.mem_filterMap.mp hEntry
          obtain ⟨id, -, hPair⟩ := Option.map_eq_some_iff.mp hSame
          cases hPair
          exact .inl hq
        · cases h

theorem v4PoolFromKey_id {manager : Address} {id : B256} {c0 c1 : Address} {fee : U32} {ts : Int} {hooks : Address}
    {p : DiscoveredPool} (h : v4PoolFromKey manager id c0 c1 fee ts hooks = some p) : p.poolId = some id := by
  obtain ⟨-, h⟩ := Option.ite_none_left_eq_some.mp h
  obtain ⟨-, h⟩ := Option.ite_none_left_eq_some.mp h
  obtain rfl := Option.some.inj h
  rfl

theorem pinned_keyed (hs : s.Genuine keccak initialized answers)
    (hManager : ∀ dex ∈ s.dexes, dex.kind = .v4 → dex.factory = univ4PoolManager) {files : CacheFiles}
    (hFiles : files.Keyed keccak initialized) {pools : List DiscoveredPool}
    (h : (s.loader keccak files).loadPinnedPools s.pins = .ok pools) {p : DiscoveredPool} (hp : p ∈ pools) :
    p.Keyed keccak initialized := by
  obtain hOther | ⟨pin, hPin, hCandidate, data, slot0, hAnswer, hSlot, hPrice⟩ := mem_loadPinnedPools hs.multicall h hp
  · exact keyed_of_dex hOther
  obtain ⟨dex, hDex, hKind, hCached | ⟨c0, c1, fee, ts, hC0, hC1, hFee, hTs, hRange, hMax, hPool⟩⟩ := v4Candidate_cases hCandidate
  · cases hCache : files dex.name with
    | none =>
      rw [Loader.cachedPools, show (s.loader keccak files).cache dex.name = none from hCache] at hCached
      cases hCached
    | some cache =>
      rw [Loader.cachedPools, show (s.loader keccak files).cache dex.name = some cache from hCache] at hCached
      exact hFiles dex.name cache hCache p hCached
  · rw [slot0Call, v4PoolFromKey_id hPool] at hAnswer
    obtain ⟨key, hKey, hId⟩ := hs.priced _ data slot0 hAnswer hSlot hPrice
    obtain ⟨rfl, rfl, rfl, rfl, hHooks⟩ := words_inj hMax hRange (hs.apart pin hPin c0 c1 fee ts hC0 hC1 hFee hTs key hKey hId)
    rw [hManager dex hDex hKind] at hPool
    refine keyed_of_key hKey (Eq.trans ?_ hPool)
    rw [hHooks, hId]
    rfl

end Pins

theorem poolSet_keeps (hs : s.Genuine keccak initialized answers) {files : CacheFiles} (hFiles : files.Keyed keccak initialized) :
    CacheFiles.Keyed keccak initialized (s.poolSet keccak files).2 ∧
      ∀ pools, (s.poolSet keccak files).1 = .ok pools → ∀ p ∈ pools, p.Keyed keccak initialized := by
  unfold Startup.poolSet
  split
  · exact ⟨hFiles, nofun⟩
  · rename_i hWrong
    have hManager : ∀ dex ∈ s.dexes, dex.kind = .v4 → dex.factory = univ4PoolManager := by
      intro dex hDex hKind
      have hRight := List.find?_eq_none.mp hWrong dex hDex
      simpa [Startup.wrongManager, hKind] using hRight
    split
    · have hAll : ∀ dex ∈ s.dexes.zipIdx, dex.1.kind = .v4 → dex.1.factory = univ4PoolManager :=
        fun dex hDex => hManager dex.1 (List.fst_mem_of_mem_zipIdx hDex)
      obtain ⟨hLeft, hFound⟩ := discoverAll_keyed hs hAll hFiles
      refine ⟨hLeft, fun pools hPools => ?_⟩
      cases hSome : (s.discoverAll s.dexes.zipIdx files).1 with
      | none => simp [hSome] at hPools
      | some found =>
        simp only [hSome, Except.ok.injEq] at hPools
        exact hPools ▸ hFound found hSome
    · split
      · exact ⟨hFiles, nofun⟩
      · refine ⟨hFiles, fun pools hPools p hp => ?_⟩
        cases hLoad : (s.loader keccak files).loadPinnedPools s.pins with
        | error e =>
          rw [hLoad] at hPools
          cases hPools
        | ok found =>
          rw [hLoad] at hPools
          cases hPools
          exact pinned_keyed hs hManager hFiles hLoad hp

theorem CacheFiles.Left.keyed {files : CacheFiles} (h : CacheFiles.Left keccak initialized answers files) :
    files.Keyed keccak initialized := by
  induction h with
  | fresh => exact nofun
  | started before s hs ih => exact (poolSet_keeps hs ih).1
  | torn before name ih => exact ih.update name nofun

/-- Whatever the starts before it were, and whichever way it gets its pools: every V4 pool a
start goes on with is that of a key the PoolManager has initialized. -/
theorem poolSet_keyed {files : CacheFiles} (hFiles : CacheFiles.Left keccak initialized answers files)
    (hs : s.Genuine keccak initialized answers) {pools : List DiscoveredPool} (h : (s.poolSet keccak files).1 = .ok pools) :
    ∀ p ∈ pools, p.dex = .uniV4 → p.factory = univ4PoolManager ∧ ∃ key, initialized key ∧ p.FromKey keccak key :=
  (poolSet_keeps hs hFiles.keyed).2 pools h

end Identity

section Sample

open Loader

/-- The topics of an event are its name and the indexed fields. -/
def initializeEvent : SolEvent V4Initialize where
  signatureHash := 0xdd466e674ea557f56295e2d0218a125ea4b4f0f6f3307b95f85e6110838d6438#256
  decodeLog log := do
    let id ← log.topics[1]?
    let currency0 ← log.topics[2]?
    let currency1 ← log.topics[3]?
    if log.data.length < 96 then none
    else
      return ⟨id, currency0.setWidth 160, currency1.setWidth 160, BitVec.ofNat 24 (wordOf (log.data.take 32)),
        (BitVec.ofNat 24 (wordOf ((log.data.drop 32).take 32))).toInt, BitVec.ofNat 160 (wordOf ((log.data.drop 64).take 32))⟩

def initializeLog : Log where
  address := univ4PoolManager
  topics := [initializeEvent.signatureHash, cachedKey.id keyDigests, cachedKey.currency0.setWidth 256,
    cachedKey.currency1.setWidth 256]
  data := abiWord 3000 ++ abiWord 60 ++ abiWord 0 ++ abiWord (2 ^ 96) ++ abiWord 0
  blockNumber := some 3
  logIndex := some 0

theorem initializeLog_decodes : initializeEvent.decodeLog initializeLog = some (cachedKey.announcement keyDigests) := by
  have hData : ¬initializeLog.data.length < 96 ∧ BitVec.ofNat 24 (wordOf (initializeLog.data.take 32)) = 3000#24 ∧
      (BitVec.ofNat 24 (wordOf ((initializeLog.data.drop 32).take 32))).toInt = 60 ∧
      BitVec.ofNat 160 (wordOf ((initializeLog.data.drop 64).take 32)) = 0#160 := by
    decide +kernel
  obtain ⟨hLong, hFee, hSpacing, hHooks⟩ := hData
  have hTopics : initializeLog.topics = [initializeEvent.signatureHash, cachedKey.id keyDigests,
      cachedKey.currency0.setWidth 256, cachedKey.currency1.setWidth 256] := rfl
  simp only [initializeEvent, hTopics, hLong, hFee, hSpacing, hHooks]
  rfl

/-- The dex file is written by a scan, and pins are loaded over it. -/
def sampleStartup (enabled : Bool) : Startup where
  events := { pairEvents with uniV4 := initializeEvent }
  decoders := pinDecoders
  chain := [initializeLog]
  mc := secondAttempts
  dexes := pinDexes
  discovery := ⟨100#64, 1#64⟩
  enabled := enabled
  poolsFile := "pools.toml"
  pins := samplePins
  run := ⟨9#64, fun _ first last _ => decide (last < first), fun _ => [false, false], by simp⟩

theorem ids_apart :
    cachedKey.id keyDigests ≠ V4Meta.poolIdOf keyDigests pinnedKey.currency0 pinnedKey.currency1 500#32 10 ∧
      cachedKey.id keyDigests ≠ V4Meta.poolIdOf keyDigests pinnedKey.currency1 pinnedKey.currency0 500#32 10 ∧
      pinnedKey.id keyDigests ≠ V4Meta.poolIdOf keyDigests pinnedKey.currency1 pinnedKey.currency0 500#32 10 := by
  decide +kernel

def Initialized (key : PoolKey) : Prop := key = cachedKey ∨ key = pinnedKey

theorem sampleStartup_genuine (enabled : Bool) :
    (sampleStartup enabled).Genuine keyDigests Initialized fun call result => result = pinAnswers call where
  announced := by
    intro log hLog _ ev hEv
    obtain rfl := List.mem_singleton.mp hLog
    exact ⟨cachedKey, .inl rfl, Option.some.inj (hEv.symm.trans initializeLog_decodes)⟩
  multicall := by
    intro i attempt chunk res hRes
    obtain ⟨-, h⟩ := Option.ite_none_left_eq_some.mp hRes
    obtain rfl := Option.some.inj h
    exact List.forall₂_map_right_iff.mpr (List.forall₂_same.mpr fun _ _ => rfl)
  priced := by
    intro id data slot0 hAnswer hSlot hPrice
    cases hAnswer
    by_cases hKnown : id = cachedKey.id keyDigests ∨ id = pinnedKey.id keyDigests
    · obtain rfl | rfl := hKnown
      · exact ⟨cachedKey, .inl rfl, rfl⟩
      · exact ⟨pinnedKey, .inr rfl, rfl⟩
    · have hZero : (pinDecoders.stateViewSlot0 (abiWord 0 ++ abiWord 0 ++ abiWord 0 ++ abiWord 0)).map
          StateViewSlot0.sqrtPriceX96 = some 0#160 := by
        decide +kernel
      dsimp only [sampleStartup] at hSlot
      rw [if_neg hKnown] at hSlot
      rw [hSlot] at hZero
      exact absurd (Option.some.inj hZero) hPrice
  apart := by
    intro pin hPin c0 c1 fee ts hC0 hC1 hFee hTs key hKey hId
    obtain hAddress | hV4 := List.mem_append.mp hPin
    · obtain ⟨n, -, rfl⟩ := List.mem_map.mp hAddress
      cases hC0
    · simp only [List.mem_cons, List.not_mem_nil, or_false] at hV4
      obtain rfl | rfl | rfl := hV4
      · cases hC0
      · cases hC0
        cases hC1
        cases hFee
        cases hTs
        obtain rfl | rfl := hKey
        · exact absurd hId ids_apart.1
        · rfl
      · cases hC0
        cases hC1
        cases hFee
        cases hTs
        obtain rfl | rfl := hKey
        · exact absurd hId ids_apart.2.1
        · exact absurd hId ids_apart.2.2

theorem sampleStartups_keyed : ∃ files pools, CacheFiles.Left keyDigests Initialized (fun call result => result = pinAnswers call) files ∧
    ((sampleStartup false).poolSet keyDigests files).1 = .ok pools ∧
    pools.map DiscoveredPool.address = (List.range 34).map (fun n => BitVec.ofNat 160 (100 + n)) ++
      [V4Meta.syntheticAddress (cachedKey.id keyDigests), V4Meta.syntheticAddress (pinnedKey.id keyDigests)] ∧
    ∀ p ∈ pools, p.dex = .uniV4 → p.factory = univ4PoolManager ∧ ∃ key, Initialized key ∧ p.FromKey keyDigests key := by
  have hLeft : CacheFiles.Left keyDigests Initialized (fun call result => result = pinAnswers call)
      ((sampleStartup true).poolSet keyDigests fun _ => none).2 := .started .fresh _ (sampleStartup_genuine true)
  have hAddresses : ((sampleStartup false).poolSet keyDigests ((sampleStartup true).poolSet keyDigests fun _ => none).2).1.toOption.map
      (List.map DiscoveredPool.address) = some ((List.range 34).map (fun n => BitVec.ofNat 160 (100 + n)) ++
        [V4Meta.syntheticAddress (cachedKey.id keyDigests), V4Meta.syntheticAddress (pinnedKey.id keyDigests)]) := by
    decide +kernel
  cases hPools : ((sampleStartup false).poolSet keyDigests ((sampleStartup true).poolSet keyDigests fun _ => none).2).1 with
  | error e =>
    rw [hPools] at hAddresses
    cases hAddresses
  | ok pools =>
    rw [hPools] at hAddresses
    exact ⟨_, pools, hLeft, hPools, Option.some.inj hAddresses, poolSet_keyed hLeft (sampleStartup_genuine false) hPools⟩

end Sample

end Robinarb
