import Robinarb.Ingest.Discovery
import Robinarb.Ingest.Multicall
import Robinarb.Library.CheckpointedLoop

/-! # Factory scans

The scan of one factory with its cache file, as `discover_all` runs it for each dex. The
decoders of the creation events are generated code and a parameter.
-/

namespace Robinarb

open CheckpointedLoop

structure SolEvent (α : Type) where
  signatureHash : B256
  decodeLog : Log → Option α

structure PairCreated where
  token0 : Address
  token1 : Address
  pair : Address

structure AeroPoolCreated where
  token0 : Address
  token1 : Address
  stable : Bool
  pool : Address

structure V3PoolCreated where
  token0 : Address
  token1 : Address
  fee : BitVec 24
  tickSpacing : Int
  pool : Address

structure SlipstreamPoolCreated where
  token0 : Address
  token1 : Address
  tickSpacing : Int
  pool : Address

structure V4Initialize where
  id : B256
  currency0 : Address
  currency1 : Address
  fee : BitVec 24
  tickSpacing : Int
  hooks : Address

structure CreationEvents where
  uniV2 : SolEvent PairCreated
  aero : SolEvent AeroPoolCreated
  uniV3 : SolEvent V3PoolCreated
  slipstream : SolEvent SlipstreamPoolCreated
  uniV4 : SolEvent V4Initialize

inductive DexKind where
  | v2
  | aero
  | v3
  | pancakeV3
  | slipstream
  | v4
  | other (kind : String)
  deriving DecidableEq

structure DexConfig where
  kind : DexKind
  factory : Address
  feeBps : Option U32
  deployBlock : Option U64

structure DiscoveryConfig where
  getlogsChunk : U64
  startBlock : U64

structure DexCache where
  lastSyncedBlock : U64
  pools : List DiscoveredPool

/-- A file that is missing or torn reads as no cache. -/
def loadCache (disk : Option DexCache) : DexCache := disk.getD ⟨0#64, []⟩

section Decode

variable (events : CreationEvents)

def creationTopic : DexKind → Option B256
  | .v2 => some events.uniV2.signatureHash
  | .aero => some events.aero.signatureHash
  | .v3 | .pancakeV3 => some events.uniV3.signatureHash
  | .slipstream => some events.slipstream.signatureHash
  | .v4 => some events.uniV4.signatureHash
  | .other _ => none

def v3Pool (dex : DexConfig) (tag : DexTag) (hTag : tag ≠ .uniV4) (ev : V3PoolCreated) : DiscoveredPool where
  address := ev.pool
  dex := tag
  factory := dex.factory
  token0 := ev.token0
  token1 := ev.token1
  feePips := some (ev.fee.setWidth 32)
  tickSpacing := some ev.tickSpacing
  feeBps := none
  poolId := none
  currency0Raw := none
  v4Complete := fun h => absurd h hTag

/-- The outer `none` is a log that does not decode, the inner one a pool that is refused. -/
def decodePoolLog (dex : DexConfig) (log : Log) : Option (Option DiscoveredPool) :=
  match dex.kind with
  | .v2 => do
    let ev ← events.uniV2.decodeLog log
    return some {
      address := ev.pair
      dex := .uniV2Fork
      factory := dex.factory
      token0 := ev.token0
      token1 := ev.token1
      feePips := none
      tickSpacing := none
      feeBps := dex.feeBps
      poolId := none
      currency0Raw := none
      v4Complete := nofun }
  | .aero => do
    let ev ← events.aero.decodeLog log
    return some {
      address := ev.pool
      dex := if ev.stable then .aeroStable else .aeroVolatile
      factory := dex.factory
      token0 := ev.token0
      token1 := ev.token1
      feePips := none
      tickSpacing := none
      feeBps := none
      poolId := none
      currency0Raw := none
      v4Complete := by split <;> nofun }
  | .v3 => do return some (v3Pool dex .uniV3Fork nofun (← events.uniV3.decodeLog log))
  | .pancakeV3 => do return some (v3Pool dex .pancakeV3 nofun (← events.uniV3.decodeLog log))
  | .slipstream => do
    let ev ← events.slipstream.decodeLog log
    return some {
      address := ev.pool
      dex := .slipstream
      factory := dex.factory
      token0 := ev.token0
      token1 := ev.token1
      feePips := none
      tickSpacing := some ev.tickSpacing
      feeBps := none
      poolId := none
      currency0Raw := none
      v4Complete := nofun }
  | .v4 => do
    let ev ← events.uniV4.decodeLog log
    return v4PoolFromKey dex.factory ev.id ev.currency0 ev.currency1 (ev.fee.setWidth 32) ev.tickSpacing ev.hooks
  | .other _ => some none

end Decode

section Scan

variable (events : CreationEvents) (dex : DexConfig) (cfg : DiscoveryConfig)

structure ScanState where
  start : U64
  cache : DexCache

def scanFilter (topic : B256) : LogFilter := ⟨[dex.factory], [topic]⟩

/-- `(start + chunk - 1).min(to)` -/
def chunkEnd (head start : U64) : U64 :=
  if start + cfg.getlogsChunk - 1#64 ≤ head then start + cfg.getlogsChunk - 1#64 else head

/-- One chunk; `none` is a query that fails for good or a log that does not decode. -/
def scanChunk (p : LogProvider) (topic : B256) (head : U64) (s : ScanState) : Option ScanState :=
  let last := chunkEnd cfg head s.start
  match p.getLogsBisect (scanFilter dex topic) s.start.toNat last.toNat with
  | .error _ => none
  | .ok logs => do
    let found ← logs.mapM (decodePoolLog events dex)
    return ⟨last + 1#64, ⟨last, s.cache.pools ++ found.reduceOption⟩⟩

/-- `scan_factory_incremental` with the cache file. -/
def scanLoop (p : LogProvider) (topic : B256) (head : U64) : Loop ScanState DexCache where
  going s := s.start ≤ head
  step := scanChunk events dex cfg p topic head
  due s := s.cache.lastSyncedBlock = head
  saved := ScanState.cache

def scanStart (cache : DexCache) : U64 :=
  if cache.lastSyncedBlock = 0#64 then dex.deployBlock.getD cfg.startBlock else cache.lastSyncedBlock + 1#64

/-- What one run of the program meets: the head, which queries fail, and at which of the
chunks it gets to the clock asks for a save. A node refuses a range that ends before it
starts, which is what is left of a range whose end wraps. -/
structure DiscoveryRun where
  head : U64
  fails : Nat → Nat → Nat → Bool
  clocks : List Bool
  refuses : ∀ first last attempt, last < first → fails first last attempt = true

def discover (chain : List Log) (r : DiscoveryRun) (disk : Option DexCache) : Outcome ScanState DexCache :=
  let cache := loadCache disk
  let start := scanStart dex cfg cache
  if start ≤ r.head then
    match creationTopic events dex.kind with
    | none => .stopped disk
    | some topic => (scanLoop events dex cfg ⟨chain, r.fails⟩ topic r.head).run r.clocks ⟨start, cache⟩ disk
  else .done ⟨start, cache⟩ disk

/-- The cache file after any number of runs, with the head of the last one. A run is over
when it completes or is interrupted, and the file may be torn at any time between. -/
inductive Synced (chain : List Log) : U64 → Option DexCache → Prop where
  | fresh : Synced chain 0#64 none
  | ran {head : U64} {disk : Option DexCache} (before : Synced chain head disk) (r : DiscoveryRun)
      (later : head ≤ r.head)
      (marked : ∀ cache ∈ (discover events dex cfg chain r disk).disk, cache.lastSyncedBlock ≠ 0#64) :
      Synced chain r.head (discover events dex cfg chain r disk).disk
  | torn {head : U64} {disk : Option DexCache} (before : Synced chain head disk) : Synced chain head none

/-- The pools of the factory logs in a range of blocks, in log order. -/
def factoryPools (chain : List Log) (first last : Nat) : List DiscoveredPool :=
  match creationTopic events dex.kind with
  | none => []
  | some topic => ((chain.filter (ListFilters.inRange logBlock first last)).filter (scanFilter dex topic).selects).filterMap
    fun log => (decodePoolLog events dex log).join

end Scan

section Exact

variable {events : CreationEvents} {dex : DexConfig} {cfg : DiscoveryConfig} {chain : List Log} {head : U64}
  {disk : Option DexCache}

/-- The block that a scan without a cache starts from. -/
def DexConfig.firstBlock (dex : DexConfig) (cfg : DiscoveryConfig) : U64 := dex.deployBlock.getD cfg.startBlock

/-- A cache that has the pools of every block up to its mark. -/
structure DexCache.Exact (events : CreationEvents) (dex : DexConfig) (cfg : DiscoveryConfig) (chain : List Log)
    (head : U64) (cache : DexCache) : Prop where
  begun : (dex.firstBlock cfg).toNat ≤ cache.lastSyncedBlock.toNat
  within : cache.lastSyncedBlock.toNat ≤ head.toNat
  pools : cache.pools = factoryPools events dex chain (dex.firstBlock cfg).toNat cache.lastSyncedBlock.toNat

theorem factoryPools_append (hSorted : chain.Pairwise fun a b => logBlock a ≤ logBlock b) {first mid last : Nat}
    (hFirst : first ≤ mid + 1) (hLast : mid ≤ last) :
    factoryPools events dex chain first mid ++ factoryPools events dex chain (mid + 1) last =
      factoryPools events dex chain first last := by
  unfold factoryPools
  split
  · rfl
  · rw [← List.filterMap_append, ← List.filter_append, ListFilters.filter_inRange_append hSorted hFirst hLast]

theorem reduceOption_of_mapM {logs : List Log} {found : List (Option DiscoveredPool)}
    (h : logs.mapM (decodePoolLog events dex) = some found) :
    found.reduceOption = logs.filterMap fun log => (decodePoolLog events dex log).join := by
  induction logs generalizing found with
  | nil =>
    cases h
    rfl
  | cons log rest ih =>
    rw [List.mapM_cons] at h
    obtain ⟨decoded, hLog, h⟩ := Option.bind_eq_some_iff.mp h
    obtain ⟨others, hRest, h⟩ := Option.bind_eq_some_iff.mp h
    cases h
    rw [List.filterMap_cons, hLog, ← ih hRest]
    cases decoded <;> rfl

theorem scanChunk_eq (hSorted : chain.Pairwise fun a b => logBlock a ≤ logBlock b) {fails : Nat → Nat → Nat → Bool}
    (hRefuses : ∀ first last attempt, last < first → fails first last attempt = true) {topic : B256}
    (hTopic : creationTopic events dex.kind = some topic) {s t : ScanState}
    (hStep : scanChunk events dex cfg ⟨chain, fails⟩ topic head s = some t) :
    s.start.toNat ≤ t.cache.lastSyncedBlock.toNat ∧ t.cache.lastSyncedBlock.toNat ≤ head.toNat ∧
      t.start = t.cache.lastSyncedBlock + 1#64 ∧
      t.cache.pools = s.cache.pools ++
        factoryPools events dex chain s.start.toNat t.cache.lastSyncedBlock.toNat := by
  have hLast : (chunkEnd cfg head s.start).toNat ≤ head.toNat := by
    unfold chunkEnd
    split
    · assumption
    · exact Nat.le_refl _
  unfold scanChunk at hStep
  by_cases hRange : s.start.toNat ≤ (chunkEnd cfg head s.start).toNat
  · obtain hOk | ⟨hError, -⟩ := LogProvider.getLogsBisect_cases (p := ⟨chain, fails⟩) hSorted (scanFilter dex topic) hRange
    · simp only [hOk] at hStep
      obtain ⟨found, hFound, h⟩ := Option.bind_eq_some_iff.mp hStep
      cases h
      refine ⟨hRange, hLast, rfl, ?_⟩
      rw [reduceOption_of_mapM hFound, factoryPools, hTopic]
      rfl
    · simp only [hError] at hStep
      cases hStep
  · have hAll : (List.range 3).all (fails s.start.toNat (chunkEnd cfg head s.start).toNat) = true :=
      List.all_eq_true.mpr fun attempt _ => hRefuses _ _ attempt (by omega)
    have hError : LogProvider.getLogsBisect ⟨chain, fails⟩ (scanFilter dex topic) s.start.toNat
        (chunkEnd cfg head s.start).toNat = .error () := by
      rw [LogProvider.getLogsBisect, LogProvider.retryGetLogs, if_pos hAll]
      exact if_pos (by omega)
    simp only [hError] at hStep
    cases hStep

/-- A scan under way: nothing scanned yet, or a cache that is exact up to the block before
the next. The file is exact as well, and it is the cache when the head is reached. -/
structure ScanState.Going (events : CreationEvents) (dex : DexConfig) (cfg : DiscoveryConfig) (chain : List Log)
    (head : U64) (s : ScanState) (disk : Option DexCache) : Prop where
  progress : (s.cache.pools = [] ∧ s.start = dex.firstBlock cfg) ∨
    s.cache.Exact events dex cfg chain head ∧ s.start.toNat = s.cache.lastSyncedBlock.toNat + 1 ∧
      (s.cache.lastSyncedBlock = head → disk = some s.cache)
  file : ∀ cache ∈ disk, cache.Exact events dex cfg chain head

theorem DexCache.Exact.later {later : U64} (hLater : head ≤ later) {cache : DexCache}
    (h : cache.Exact events dex cfg chain head) : cache.Exact events dex cfg chain later :=
  ⟨h.begun, h.within.trans hLater, h.pools⟩

theorem ScanState.Going.step (hSorted : chain.Pairwise fun a b => logBlock a ≤ logBlock b)
    {fails : Nat → Nat → Nat → Bool} (hRefuses : ∀ first last attempt, last < first → fails first last attempt = true)
    {topic : B256} (hTopic : creationTopic events dex.kind = some topic) (hHead : head.toNat + 1 < 2 ^ 64)
    {s t : ScanState} {clock : Bool} (h : s.Going events dex cfg chain head disk)
    (hStep : scanChunk events dex cfg ⟨chain, fails⟩ topic head s = some t) :
    t.Going events dex cfg chain head ((scanLoop events dex cfg ⟨chain, fails⟩ topic head).next clock t disk) := by
  obtain ⟨hFirst, hLast, hStart, hPools⟩ := scanChunk_eq hSorted hRefuses hTopic hStep
  have hExact : t.cache.Exact events dex cfg chain head := by
    obtain ⟨hNone, hBegin⟩ | ⟨hExact, hNext, -⟩ := h.progress
    · refine ⟨hBegin ▸ hFirst, hLast, ?_⟩
      rw [hPools, hNone, hBegin, List.nil_append]
    · refine ⟨by have := hExact.begun; omega, hLast, ?_⟩
      rw [hPools, hExact.pools, hNext]
      exact factoryPools_append hSorted (by have := hExact.begun; omega) (by omega)
  have hAfter : t.start.toNat = t.cache.lastSyncedBlock.toNat + 1 := by
    rw [hStart, BitVec.toNat_add]
    exact Nat.mod_eq_of_lt (by simp; omega)
  refine ⟨.inr ⟨hExact, hAfter, fun hDone => ?_⟩, ?_⟩
  · simp [Loop.next, scanLoop, hDone]
  · intro cache hMem
    unfold Loop.next at hMem
    split at hMem
    · cases hMem
      exact hExact
    · exact h.file cache hMem

theorem ScanState.Going.load {cfg : DiscoveryConfig} (hHead : head.toNat + 1 < 2 ^ 64)
    (hFile : ∀ cache ∈ disk, cache.Exact events dex cfg chain head)
    (hMarked : ∀ cache ∈ disk, cache.lastSyncedBlock ≠ 0#64) :
    ScanState.Going events dex cfg chain head ⟨scanStart dex cfg (loadCache disk), loadCache disk⟩ disk := by
  constructor
  · cases disk with
    | none => exact .inl ⟨rfl, rfl⟩
    | some cache =>
      have hExact := hFile cache rfl
      refine .inr ⟨hExact, ?_, fun _ => rfl⟩
      change (if cache.lastSyncedBlock = 0#64 then _ else cache.lastSyncedBlock + 1#64).toNat = _
      rw [if_neg (hMarked cache rfl), BitVec.toNat_add]
      have hWithin := hExact.within
      exact Nat.mod_eq_of_lt (by simp; omega)
  · exact hFile

theorem ScanState.Going.finished {s : ScanState} (h : s.Going events dex cfg chain head disk)
    (hPast : ¬s.start ≤ head) (hStart : dex.firstBlock cfg ≤ head) :
    s.cache.Exact events dex cfg chain head ∧ s.cache.lastSyncedBlock = head ∧ disk = some s.cache := by
  obtain ⟨-, hBegin⟩ | ⟨hExact, hNext, hSaved⟩ := h.progress
  · exact absurd (hBegin ▸ hStart) hPast
  · have hWithin := hExact.within
    have hReached : s.cache.lastSyncedBlock = head := by
      apply BitVec.eq_of_toNat_eq
      rw [BitVec.not_le, BitVec.lt_def] at hPast
      omega
    exact ⟨hExact, hReached, hSaved hReached⟩

/-- The runs of a scan from an exact file leave an exact file, and complete at the head. -/
theorem discover_keeps (hSorted : chain.Pairwise fun a b => logBlock a ≤ logBlock b) {r : DiscoveryRun}
    (hHead : r.head.toNat + 1 < 2 ^ 64) (hFile : ∀ cache ∈ disk, cache.Exact events dex cfg chain r.head)
    (hMarked : ∀ cache ∈ disk, cache.lastSyncedBlock ≠ 0#64) :
    (∀ cache ∈ (discover events dex cfg chain r disk).disk, cache.Exact events dex cfg chain r.head) ∧
      ∀ s left, discover events dex cfg chain r disk = .done s left →
        s.Going events dex cfg chain r.head left ∧ ¬s.start ≤ r.head := by
  have hLoad := ScanState.Going.load hHead hFile hMarked
  unfold discover
  dsimp only
  split
  · cases hTopic : creationTopic events dex.kind with
    | none => exact ⟨hFile, nofun⟩
    | some topic =>
      have hTurns : ∀ s t disk clock, ScanState.Going events dex cfg chain r.head s disk →
          (scanLoop events dex cfg ⟨chain, r.fails⟩ topic r.head).going s = true →
          (scanLoop events dex cfg ⟨chain, r.fails⟩ topic r.head).step s = some t →
          ScanState.Going events dex cfg chain r.head t
            ((scanLoop events dex cfg ⟨chain, r.fails⟩ topic r.head).next clock t disk) :=
        fun s t disk clock h _ hStep => h.step hSorted r.refuses hTopic hHead hStep
      have hKept := Loop.run_keeps hTurns r.clocks hLoad
      obtain ⟨t, hLeft⟩ := hKept.1
      refine ⟨hLeft.file, fun s left h => ?_⟩
      obtain ⟨hGoing, hStop⟩ := hKept.2 s left h
      exact ⟨hGoing, of_decide_eq_false hStop⟩
  · rename_i hPast
    refine ⟨hFile, ?_⟩
    rintro _ _ ⟨⟩
    exact ⟨hLoad, hPast⟩

/-- At the last block number there is no block past the head, and the scan goes on. -/
theorem discover_ne_done {r : DiscoveryRun} (hHead : 2 ^ 64 ≤ r.head.toNat + 1) (s : ScanState)
    (left : Option DexCache) : discover events dex cfg chain r disk ≠ .done s left := by
  have hAll : ∀ block : U64, block ≤ r.head := fun block => by
    have := block.isLt
    rw [BitVec.le_def]
    omega
  intro hDone
  unfold discover at hDone
  rw [if_pos (hAll _)] at hDone
  split at hDone
  · cases hDone
  · obtain ⟨-, hStop⟩ := (Loop.run_keeps (I := fun _ _ => True) (fun _ _ _ _ _ _ _ => trivial) _ trivial).2 _ _ hDone
    exact absurd (hAll _) (of_decide_eq_false hStop)

theorem Synced.file (hSorted : chain.Pairwise fun a b => logBlock a ≤ logBlock b)
    (h : Synced events dex cfg chain head disk) (hHead : head.toNat + 1 < 2 ^ 64) :
    ∀ cache ∈ disk, cache.Exact events dex cfg chain head ∧ cache.lastSyncedBlock ≠ 0#64 := by
  induction h with
  | fresh => exact nofun
  | @ran head disk _ r hLater hMarked ih =>
    have hBefore := ih (Nat.lt_of_le_of_lt (Nat.succ_le_succ hLater) hHead)
    have hKept := (discover_keeps hSorted hHead (fun cache hMem => (hBefore cache hMem).1.later hLater)
      fun cache hMem => (hBefore cache hMem).2).1
    exact fun cache hMem => ⟨hKept cache hMem, hMarked cache hMem⟩
  | torn => exact nofun

/-- Whatever the runs before it were, a run that completes has the pools of every factory
log from the first block to its head, in log order and each once, in its cache file too. -/
theorem discovery_exact (hSorted : chain.Pairwise fun a b => logBlock a ≤ logBlock b)
    (h : Synced events dex cfg chain head disk) {r : DiscoveryRun} (hLater : head ≤ r.head)
    (hStart : dex.firstBlock cfg ≤ r.head) {s : ScanState} {left : Option DexCache}
    (hDone : discover events dex cfg chain r disk = .done s left) :
    s.cache.pools = factoryPools events dex chain (dex.firstBlock cfg).toNat r.head.toNat ∧
      s.cache.lastSyncedBlock = r.head ∧ left = some s.cache := by
  have hHead : r.head.toNat + 1 < 2 ^ 64 := by
    by_contra hLast
    exact discover_ne_done (Nat.le_of_not_lt hLast) s left hDone
  have hFile := h.file hSorted (Nat.lt_of_le_of_lt (Nat.succ_le_succ hLater) hHead)
  obtain ⟨hGoing, hPast⟩ := (discover_keeps hSorted hHead (fun cache hMem => (hFile cache hMem).1.later hLater)
    fun cache hMem => (hFile cache hMem).2).2 s left hDone
  obtain ⟨hExact, hReached, hSaved⟩ := hGoing.finished hPast hStart
  exact ⟨hReached ▸ hExact.pools, hReached, hSaved⟩

end Exact

section Completes

variable {events : CreationEvents} {dex : DexConfig} {cfg : DiscoveryConfig} {p : LogProvider} {topic : B256}
  {head : U64}

theorem mapM_of_decodes {logs : List Log} (h : ∀ log ∈ logs, (decodePoolLog events dex log).isSome) :
    ∃ found, logs.mapM (decodePoolLog events dex) = some found := by
  induction logs with
  | nil => exact ⟨[], rfl⟩
  | cons log rest ih =>
    obtain ⟨hLog, hRest⟩ := List.forall_mem_cons.mp h
    obtain ⟨decoded, hDecoded⟩ := Option.isSome_iff_exists.mp hLog
    obtain ⟨found, hFound⟩ := ih hRest
    exact ⟨decoded :: found, by simp [hDecoded, hFound]⟩

theorem le_chunkEnd (hChunk : cfg.getlogsChunk ≠ 0#64) (hSum : head.toNat + cfg.getlogsChunk.toNat < 2 ^ 64)
    {start : U64} (hStart : start ≤ head) : start ≤ chunkEnd cfg head start := by
  unfold chunkEnd
  split
  · bv_omega
  · exact hStart

theorem scanLoop_completes (hChunk : cfg.getlogsChunk ≠ 0#64) (hSum : head.toNat + cfg.getlogsChunk.toNat < 2 ^ 64)
    (hAnswers : ∀ first last, first ≤ last → ∃ attempt < 3, p.fails first last attempt = false)
    (hDecodes : ∀ log ∈ p.mined, (scanFilter dex topic).selects log = true → (decodePoolLog events dex log).isSome)
    {clocks : List Bool} {s : ScanState} (disk : Option DexCache)
    (hLong : head.toNat + 1 ≤ s.start.toNat + clocks.length) :
    ∃ t left, (scanLoop events dex cfg p topic head).run clocks s disk = .done t left := by
  induction clocks generalizing s disk with
  | nil =>
    have hPast : ¬s.start ≤ head := by
      rw [BitVec.le_def]
      simp only [List.length_nil] at hLong
      omega
    exact ⟨s, disk, if_neg (by simpa [scanLoop] using hPast)⟩
  | cons clock rest ih =>
    unfold Loop.run
    split
    · rename_i hGoing
      have hStart : s.start ≤ head := of_decide_eq_true hGoing
      have hLow := le_chunkEnd hChunk hSum hStart
      have hHigh : chunkEnd cfg head s.start ≤ head := by
        unfold chunkEnd
        split
        · assumption
        · exact BitVec.le_refl head
      have hQuery : p.getLogsBisect (scanFilter dex topic) s.start.toNat (chunkEnd cfg head s.start).toNat =
          .ok (p.rangeLogs (scanFilter dex topic) s.start.toNat (chunkEnd cfg head s.start).toNat) := by
        obtain ⟨attempt, hLt, hAnswer⟩ := hAnswers _ _ hLow
        have hSome : ¬(List.range 3).all (p.fails s.start.toNat (chunkEnd cfg head s.start).toNat) = true := by
          intro hAll
          rw [List.all_eq_true.mp hAll attempt (List.mem_range.mpr hLt)] at hAnswer
          cases hAnswer
        rw [LogProvider.getLogsBisect, LogProvider.retryGetLogs, if_neg hSome]
      have hDecoded : ∀ log ∈ p.rangeLogs (scanFilter dex topic) s.start.toNat (chunkEnd cfg head s.start).toNat,
          (decodePoolLog events dex log).isSome :=
        fun log hMem => hDecodes log (List.mem_of_mem_filter (List.mem_of_mem_filter hMem)) (List.mem_filter.mp hMem).2
      obtain ⟨found, hFound⟩ := mapM_of_decodes hDecoded
      have hStep : (scanLoop events dex cfg p topic head).step s = some ⟨chunkEnd cfg head s.start + 1#64,
          ⟨chunkEnd cfg head s.start, s.cache.pools ++ found.reduceOption⟩⟩ := by
        simp only [scanLoop, scanChunk, hQuery, hFound]
        rfl
      rw [hStep]
      apply ih
      rw [List.length_cons] at hLong
      bv_omega
    · exact ⟨s, disk, rfl⟩

theorem discover_completes {chain : List Log} (hTopic : creationTopic events dex.kind = some topic)
    (hChunk : cfg.getlogsChunk ≠ 0#64) {r : DiscoveryRun}
    (hSum : r.head.toNat + cfg.getlogsChunk.toNat < 2 ^ 64)
    (hAnswers : ∀ first last, first ≤ last → ∃ attempt < 3, r.fails first last attempt = false)
    (hDecodes : ∀ log ∈ chain, (scanFilter dex topic).selects log = true → (decodePoolLog events dex log).isSome)
    (hLong : r.head.toNat + 1 ≤ r.clocks.length) (disk : Option DexCache) :
    ∃ s left, discover events dex cfg chain r disk = .done s left := by
  unfold discover
  dsimp only
  split
  · rw [hTopic]
    exact scanLoop_completes (p := ⟨chain, r.fails⟩) hChunk hSum hAnswers hDecodes disk (by dsimp only; omega)
  · exact ⟨_, _, rfl⟩

end Completes

section Sample

def pairEvents : CreationEvents where
  uniV2 := ⟨7#256, fun log => log.topics[1]?.map fun pair => ⟨2#160, 3#160, pair.setWidth 160⟩⟩
  aero := ⟨0#256, fun _ => none⟩
  uniV3 := ⟨0#256, fun _ => none⟩
  slipstream := ⟨0#256, fun _ => none⟩
  uniV4 := ⟨0#256, fun _ => none⟩

def pairFactory : DexConfig := ⟨.v2, 5#160, some 30#32, some 1#64⟩

def pairLogs : List Log :=
  [⟨5#160, [7#256, 11#256], [], some 3, some 0⟩, ⟨5#160, [7#256, 12#256], [], some 8, some 0⟩]

/-- The first run is stopped after its first chunk, which it has saved. -/
def stoppedRun : DiscoveryRun := ⟨6#64, fun first last _ => decide (last < first), [true], by simp⟩

def wholeRun : DiscoveryRun := ⟨9#64, fun first last _ => decide (last < first), List.replicate 10 false, by simp⟩

theorem pairLogs_discovered : ∃ s left,
    discover pairEvents pairFactory ⟨4#64, 0#64⟩ pairLogs wholeRun
      (discover pairEvents pairFactory ⟨4#64, 0#64⟩ pairLogs stoppedRun none).disk = .done s left ∧
    s.cache.pools = factoryPools pairEvents pairFactory pairLogs 1 9 ∧ s.cache.lastSyncedBlock = 9#64 ∧
    left = some s.cache := by
  have hSorted : pairLogs.Pairwise fun a b => logBlock a ≤ logBlock b := by decide
  have hStopped : ∀ cache ∈ (discover pairEvents pairFactory ⟨4#64, 0#64⟩ pairLogs stoppedRun none).disk,
      cache.Exact pairEvents pairFactory ⟨4#64, 0#64⟩ pairLogs stoppedRun.head := by
    apply (discover_keeps hSorted (by decide) _ _).1
    · rintro cache ⟨⟩
    · rintro cache ⟨⟩
  have hSynced : Synced pairEvents pairFactory ⟨4#64, 0#64⟩ pairLogs 6#64
      (discover pairEvents pairFactory ⟨4#64, 0#64⟩ pairLogs stoppedRun none).disk := by
    refine .ran .fresh stoppedRun (by decide) fun cache hMem hZero => ?_
    have hBegun := (hStopped cache hMem).begun
    rw [hZero] at hBegun
    exact absurd hBegun (by decide)
  have hTopic : creationTopic pairEvents pairFactory.kind = some 7#256 := rfl
  have hAnswers : ∀ first last, first ≤ last → ∃ attempt < 3, wholeRun.fails first last attempt = false :=
    fun first last hRange => ⟨0, by omega, decide_eq_false (by omega)⟩
  have hChunk : (⟨4#64, 0#64⟩ : DiscoveryConfig).getlogsChunk ≠ 0#64 := by decide
  have hDecodes : ∀ log ∈ pairLogs, (scanFilter pairFactory 7#256).selects log = true →
      (decodePoolLog pairEvents pairFactory log).isSome := by decide
  obtain ⟨s, left, hDone⟩ := discover_completes hTopic hChunk (by decide) hAnswers hDecodes (by decide) _
  exact ⟨s, left, hDone, discovery_exact hSorted hSynced (by decide) (by decide) hDone⟩

end Sample

end Robinarb
