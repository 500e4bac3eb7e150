import Robinarb.Ingest.RpcBackend
import Robinarb.State.Hydration

/-! # Targeted patches keep the tick cache equal to the chain

Runs of the pipeline over its events: an event that touched ticks of a CL pool
is answered with a patch, and everything else leaves the tick cache alone. Every
read of a patch is served by some block from the event's own on. The invariant
dates each entry: no event handled so far changed it after the block it was
read at. What a liquidity event changes is said of the event and its pool's plan; that
the pipeline patches just these events is a lemma.
-/

namespace Robinarb

open CacheFill ChainState

/-- The arguments of `patch_cl_ticks` that name a pool. -/
structure TickPool where
  addr : Address
  ticksBase : U256
  bitmapBase : U256
  spacing : Int
  deriving DecidableEq

def IngestEvent.block : IngestEvent → Nat
  | .newHead number _ _ => number
  | .poolLog block _ _ => block
  | .resync => 0

/-- The patch call of the pipeline's `PoolLog` arm. -/
def patchCall (plans : List (Option SlotPlan)) (tickSpacing : Nat → Int) :
    IngestEvent → Option (TickPool × List Int)
  | .poolLog _ idx (some (lo, hi)) =>
    match plans[idx]?.join with
    | some (.cl plan) => some (⟨plan.addr, plan.ticksBase, plan.bitmapBase, tickSpacing idx⟩, [lo, hi])
    | _ => none
  | _ => none

/-- A liquidity event of a planned CL pool, with the pool and the ticks of its range. -/
inductive LiquidityEvent (plans : List (Option SlotPlan)) (tickSpacing : Nat → Int) :
    IngestEvent → TickPool → Int → Int → Prop where
  | of {block idx : Nat} {plan : ClPlan} (planned : plans[idx]?.join = some (.cl plan)) (lo hi : Int) :
      LiquidityEvent plans tickSpacing (.poolLog block idx (some (lo, hi)))
        ⟨plan.addr, plan.ticksBase, plan.bitmapBase, tickSpacing idx⟩ lo hi

def IsLiquidity (plans : List (Option SlotPlan)) (tickSpacing : Nat → Int) (ev : IngestEvent) : Prop :=
  ∃ pool lo hi, LiquidityEvent plans tickSpacing ev pool lo hi

section Slots

variable (keccak : Keccak)

def TickPool.bitmapKey (pool : TickPool) (word : Int) : SlotKey :=
  bitmapSlot keccak pool.addr pool.bitmapBase word

def TickPool.tickKey (pool : TickPool) (tick : Int) : SlotKey := tickSlot keccak pool.addr pool.ticksBase tick

/-- The slots a liquidity event changes: the info words of its ticks and the bitmap words they are in. -/
def TickPool.touched (pool : TickPool) (ticks : List Int) : List SlotKey :=
  ticks.map (pool.tickKey keccak) ++ ticks.map fun t => pool.bitmapKey keccak (t / pool.spacing / 256)

def TickPool.patchWordKeys (pool : TickPool) (ticks : List Int) : List SlotKey :=
  patchBitmapSlots keccak pool.addr pool.bitmapBase pool.spacing ticks

def TickPool.patchTickKeys (pool : TickPool) (s : ChainState) (ticks : List Int) : List SlotKey :=
  s.patchTickSlots keccak pool.addr pool.ticksBase pool.bitmapBase pool.spacing ticks

/-- The tick and bitmap slots of the pools, for the keys the mappings have. -/
def TickData (pools : List TickPool) (key : SlotKey) : Prop :=
  ∃ pool ∈ pools, (∃ word : Int, -2 ^ 15 ≤ word ∧ word < 2 ^ 15 ∧ key = pool.bitmapKey keccak word) ∨
    ∃ tick : Int, -2 ^ 31 ≤ tick ∧ tick < 2 ^ 31 ∧ key = pool.tickKey keccak tick

structure SlotsDistinct (pools : List TickPool) : Prop where
  bitmap_inj : ∀ p ∈ pools, ∀ q ∈ pools, ∀ v w : Int, -2 ^ 15 ≤ v → v < 2 ^ 15 → -2 ^ 15 ≤ w → w < 2 ^ 15 →
    p.bitmapKey keccak v = q.bitmapKey keccak w → p = q ∧ v = w
  bitmap_tick : ∀ p ∈ pools, ∀ q ∈ pools, ∀ v t : Int, -2 ^ 15 ≤ v → v < 2 ^ 15 → -2 ^ 31 ≤ t → t < 2 ^ 31 →
    p.bitmapKey keccak v ≠ q.tickKey keccak t

def MemoApart (pools : List TickPool) (s : ChainState) : Prop :=
  ∀ pool ∈ pools, ∀ word : Int, -2 ^ 15 ≤ word → word < 2 ^ 15 → s.memo (pool.bitmapKey keccak word) = none

/-- Every set bit of a cached bitmap word has its net slot cached. -/
def Coupled (pools : List TickPool) (cache : SlotCache) : Prop :=
  ∀ pool ∈ pools, ∀ word : Int, -2 ^ 15 ≤ word → word < 2 ^ 15 → ∀ bits,
    cache (pool.bitmapKey keccak word) = some bits → ∀ bit, bits.getLsbD bit = true →
      (cache (pool.tickKey keccak (rawTick word bit pool.spacing))).isSome

variable (plans : List (Option SlotPlan)) (tickSpacing : Nat → Int) (chain : Nat → Storage)

/-- The completions of one patch, each served at or after the event's block. -/
structure Patches (s : ChainState) (block : Nat) (pool : TickPool) (ticks : List Int)
    (first second : List SlotCompletion) : Prop where
  wordBatch : Completes (pool.patchWordKeys keccak ticks) first
  tickBatch : Completes (pool.patchTickKeys keccak (s.prefetchTicks first) ticks) second
  served : ∀ completion ∈ first ++ second, ∃ n, block ≤ n ∧ completion.2 = some (chain n completion.1)

/-- Runs of the pipeline. Between two events other tasks write the memo only. -/
inductive PatchRun (pools : List TickPool) : ChainState → List IngestEvent → ChainState → Prop where
  | nil (s : ChainState) : PatchRun pools s [] s
  | idle {s t u : ChainState} {ev : IngestEvent} {rest : List IngestEvent}
      (noCall : patchCall plans tickSpacing ev = none) (same : t.tickCache = s.tickCache)
      (next : PatchRun pools t rest u) : PatchRun pools s (ev :: rest) u
  | patch {s t u : ChainState} {ev : IngestEvent} {rest : List IngestEvent} {pool : TickPool} {ticks : List Int}
      {first second : List SlotCompletion}
      (call : patchCall plans tickSpacing ev = some (pool, ticks)) (apart : MemoApart keccak pools s)
      (reads : Patches keccak chain s ev.block pool ticks first second)
      (filled : t.tickCache = fill (fill s.tickCache first) second)
      (next : PatchRun pools t rest u) : PatchRun pools s (ev :: rest) u

def Touches (ev : IngestEvent) (key : SlotKey) : Prop :=
  ∃ pool lo hi, LiquidityEvent plans tickSpacing ev pool lo hi ∧ key ∈ pool.touched keccak [lo, hi]

/-- Entries dated by the block they were read at; no handled event changed them later. -/
def Dated (pools : List TickPool) (start : Nat) (handled : List IngestEvent) (cache : SlotCache) : Prop :=
  ∀ key value, TickData keccak pools key → cache key = some value →
    ∃ n, start ≤ n ∧ value = chain n key ∧
      ∀ ev ∈ handled, Touches keccak plans tickSpacing ev key → ev.block ≤ n

end Slots

section Patch

variable {keccak : Keccak} {chain : Nat → Storage} {pools : List TickPool} {s : ChainState} {block : Nat}
  {pool : TickPool} {ticks : List Int} {first second : List SlotCompletion}

/-- A patch leaves an entry alone or replaces it by one read at or after the event. -/
theorem Patches.cases (h : Patches keccak chain s block pool ticks first second) (key : SlotKey) :
    fill (fill s.tickCache first) second key = s.tickCache key ∨
      ∃ n, block ≤ n ∧ fill (fill s.tickCache first) second key = some (chain n key) := by
  have hRead : ∀ value, (key, some value) ∈ first ++ second → ∃ n, block ≤ n ∧ value = chain n key := by
    intro value hMem
    obtain ⟨n, hBlock, hValue⟩ := h.served _ hMem
    exact ⟨n, hBlock, Option.some.inj hValue⟩
  obtain hSame | ⟨value, hMem, hValue⟩ := fill_cases (fill s.tickCache first) second key
  · obtain hKeep | ⟨value, hMem, hValue⟩ := fill_cases s.tickCache first key
    · exact .inl (hSame.trans hKeep)
    · obtain ⟨n, hBlock, rfl⟩ := hRead value (List.mem_append_left _ hMem)
      exact .inr ⟨n, hBlock, hSame.trans hValue⟩
  · obtain ⟨n, hBlock, rfl⟩ := hRead value (List.mem_append_right _ hMem)
    exact .inr ⟨n, hBlock, hValue⟩

theorem Patches.allOk (h : Patches keccak chain s block pool ticks first second) :
    ∀ completion ∈ first ++ second, completion.2.isSome := by
  intro completion hMem
  obtain ⟨n, _, hValue⟩ := h.served completion hMem
  rw [hValue]
  rfl

theorem Patches.fetched (h : Patches keccak chain s block pool ticks first second) {key : SlotKey}
    (hKey : key ∈ pool.patchWordKeys keccak ticks ∨
      key ∈ pool.patchTickKeys keccak (s.prefetchTicks first) ticks) :
    ∃ n, block ≤ n ∧ fill (fill s.tickCache first) second key = some (chain n key) := by
  have hRead : ∀ value, (key, some value) ∈ first ++ second → ∃ n, block ≤ n ∧ value = chain n key := by
    intro value hMem
    obtain ⟨n, hBlock, hValue⟩ := h.served _ hMem
    exact ⟨n, hBlock, Option.some.inj hValue⟩
  obtain hWord | hTick := hKey
  · obtain ⟨value, hMem, hValue⟩ := fill_of_mem h.wordBatch
      (fun c hc => h.allOk c (List.mem_append_left _ hc)) hWord s.tickCache
    obtain ⟨n, hBlock, rfl⟩ := hRead value (List.mem_append_left _ hMem)
    obtain hSame | ⟨value, hMem, hLast⟩ := fill_cases (fill s.tickCache first) second key
    · exact ⟨n, hBlock, hSame.trans hValue⟩
    · obtain ⟨m, hBlock, rfl⟩ := hRead value (List.mem_append_right _ hMem)
      exact ⟨m, hBlock, hLast⟩
  · obtain ⟨value, hMem, hValue⟩ := fill_of_mem h.tickBatch
      (fun c hc => h.allOk c (List.mem_append_right _ hc)) hTick (fill s.tickCache first)
    obtain ⟨n, hBlock, rfl⟩ := hRead value (List.mem_append_right _ hMem)
    exact ⟨n, hBlock, hValue⟩

theorem mem_patchWords {spacing : Int} {w : Int} (h : w ∈ patchWords spacing ticks) : -2 ^ 15 ≤ w ∧ w < 2 ^ 15 := by
  obtain ⟨t, _, hMem⟩ := List.mem_flatMap.mp h
  obtain ⟨hLow, hHigh⟩ := mem_wordRange.mp hMem
  unfold saturateI16 at hLow hHigh
  omega

theorem ownWord_mem (hs : SpacingRange pool.spacing) {t : Int} (hTick : t ∈ ticks) (hLow : minTick ≤ t)
    (hHigh : t ≤ maxTick) : t / pool.spacing / 256 ∈ patchWords pool.spacing ticks := by
  have ht : TickRange t := .of_bounds hLow hHigh
  have hc := compressed_range hs ht
  have hWord := (position_eq hc.1 hc.2).1
  simp only [position] at hWord
  refine List.mem_flatMap.mpr ⟨t, hTick, ?_⟩
  simp only [max_eq_left hs.pos, compressTick_eq hs ht, hWord, patchWordRange]
  rw [mem_wordRange]
  unfold saturateI16
  omega

/-- Both batches together read everything the event changed. -/
theorem touched_fetched (hs : SpacingRange pool.spacing)
    (hBounds : ∀ t ∈ ticks, minTick ≤ t ∧ t ≤ maxTick) {key : SlotKey} (hKey : key ∈ pool.touched keccak ticks)
    (s : ChainState) :
    key ∈ pool.patchWordKeys keccak ticks ∨ key ∈ pool.patchTickKeys keccak s ticks := by
  obtain hTick | hWord := List.mem_append.mp hKey
  · exact .inr (List.mem_append_left _ hTick)
  · obtain ⟨t, hTick, rfl⟩ := List.mem_map.mp hWord
    obtain ⟨hLow, hHigh⟩ := hBounds t hTick
    exact .inl (List.mem_map_of_mem (ownWord_mem hs hTick hLow hHigh))

theorem rawTick_range (word : Int) (bit : Nat) (spacing : Int) :
    -2 ^ 31 ≤ rawTick word bit spacing ∧ rawTick word bit spacing < 2 ^ 31 := by
  have hLow := Int.le_bmod (x := wrapI32 (word * 256 + bit) * spacing) (m := 2 ^ 32) (by decide)
  have hHigh := Int.bmod_lt (x := wrapI32 (word * 256 + bit) * spacing) (m := 2 ^ 32) (by decide)
  unfold rawTick wrapI32 at *
  omega

theorem patchTickKeys_tick (hBounds : ∀ t ∈ ticks, minTick ≤ t ∧ t ≤ maxTick) {key : SlotKey}
    (hKey : key ∈ pool.patchTickKeys keccak s ticks) :
    ∃ t : Int, -2 ^ 31 ≤ t ∧ t < 2 ^ 31 ∧ key = pool.tickKey keccak t := by
  obtain hTick | hBits := List.mem_append.mp hKey
  · obtain ⟨t, hMem, rfl⟩ := List.mem_map.mp hTick
    have hRange := hBounds t hMem
    unfold minTick maxTick at hRange
    exact ⟨t, by omega, by omega, rfl⟩
  · obtain ⟨w, _, hMem⟩ := List.mem_flatMap.mp hBits
    obtain ⟨bit, _, rfl⟩ := (mem_slotsOfBits keccak).mp hMem
    obtain ⟨hLow, hHigh⟩ := rawTick_range w bit (max pool.spacing 1)
    exact ⟨_, hLow, hHigh, rfl⟩

/-- Two batches keep the coupling: the second leaves the words alone and brings the nets of
all bits of the words that the first has asked for. -/
theorem coupled_of_batches {cache : SlotCache}
    (hWords : ∀ q ∈ pools, ∀ word : Int, -2 ^ 15 ≤ word → word < 2 ^ 15 →
      fill (fill cache first) second (q.bitmapKey keccak word) = fill cache first (q.bitmapKey keccak word))
    (hNets : ∀ q ∈ pools, ∀ word : Int, -2 ^ 15 ≤ word → word < 2 ^ 15 →
      q.bitmapKey keccak word ∈ first.map Prod.fst → ∀ bits, fill cache first (q.bitmapKey keccak word) = some bits →
        ∀ bit, bits.getLsbD bit = true →
          (fill (fill cache first) second (q.tickKey keccak (rawTick word bit q.spacing))).isSome)
    (hCoupled : Coupled keccak pools cache) : Coupled keccak pools (fill (fill cache first) second) := by
  intro q hq word hLow hHigh bits hWord bit hSet
  rw [hWords q hq word hLow hHigh] at hWord
  obtain hSame | ⟨value, hMem, -⟩ := fill_cases cache first (q.bitmapKey keccak word)
  · rw [hSame] at hWord
    exact fill_isSome (fill_isSome (hCoupled q hq word hLow hHigh bits hWord bit hSet) first) second
  · exact hNets q hq word hLow hHigh (List.mem_map_of_mem hMem) bits hWord bit hSet

/-- A word that is not in the memo is read from the tick cache. -/
theorem read_word {s : ChainState} (hMemo : MemoApart keccak pools s) {q : TickPool} (hq : q ∈ pools) {word : Int}
    (hLow : -2 ^ 15 ≤ word) (hHigh : word < 2 ^ 15) (completions : List SlotCompletion) :
    (s.prefetchTicks completions).read q.addr (mappingSlotSigned keccak word q.bitmapBase) =
      (fill s.tickCache completions (q.bitmapKey keccak word)).getD 0#256 :=
  read_of_memo_none (hMemo q hq word hLow hHigh)

/-- A patch keeps the coupling: the words it read have the nets of all their bits
read right after, and no other word changed. -/
theorem Patches.coupled (hDistinct : SlotsDistinct keccak pools) (hPool : pool ∈ pools)
    (hs : SpacingRange pool.spacing) (hBounds : ∀ t ∈ ticks, minTick ≤ t ∧ t ≤ maxTick)
    (hMemo : MemoApart keccak pools s) (h : Patches keccak chain s block pool ticks first second)
    (hCoupled : Coupled keccak pools s.tickCache) :
    Coupled keccak pools (fill (fill s.tickCache first) second) := by
  refine coupled_of_batches ?_ ?_ hCoupled
  · intro q hq word hLow hHigh
    refine fill_of_notMem h.tickBatch (fun hMem => ?_) _
    obtain ⟨t, hTickLow, hTickHigh, hEq⟩ := patchTickKeys_tick hBounds hMem
    exact hDistinct.bitmap_tick q hq pool hPool word t hLow hHigh hTickLow hTickHigh hEq
  · intro q hq word hLow hHigh hAsked bits hWord bit hSet
    obtain ⟨w, hMem, hEq⟩ := List.mem_map.mp (h.wordBatch.subset hAsked)
    have hRange := mem_patchWords hMem
    obtain ⟨rfl, rfl⟩ := hDistinct.bitmap_inj q hq pool hPool word w hLow hHigh hRange.1 hRange.2 hEq.symm
    have hNetKey : q.tickKey keccak (rawTick word bit q.spacing) ∈
        q.patchTickKeys keccak (s.prefetchTicks first) ticks := by
      refine List.mem_append_right _ (List.mem_flatMap.mpr ⟨word, hMem, ?_⟩)
      rw [read_word hMemo hq hLow hHigh, hWord, max_eq_left hs.pos]
      exact (mem_slotsOfBits keccak).mpr ⟨bit, hSet, rfl⟩
    obtain ⟨n, _, hNet⟩ := h.fetched (.inr hNetKey)
    rw [hNet]
    rfl

end Patch

section Run

variable {keccak : Keccak} {plans : List (Option SlotPlan)} {tickSpacing : Nat → Int} {chain : Nat → Storage}
  {pools : List TickPool} {start : Nat}

/-- The pipeline patches the liquidity events, at the two ticks of the range. -/
theorem patchCall_iff {ev : IngestEvent} {pool : TickPool} {ticks : List Int} :
    patchCall plans tickSpacing ev = some (pool, ticks) ↔
      ∃ lo hi, LiquidityEvent plans tickSpacing ev pool lo hi ∧ ticks = [lo, hi] := by
  constructor
  · intro h
    unfold patchCall at h
    split at h
    · rename_i block idx lo hi
      split at h
      · rename_i plan hPlan
        cases h
        exact ⟨lo, hi, .of hPlan lo hi, rfl⟩
      · cases h
    · cases h
  · rintro ⟨lo, hi, ⟨hPlan, _, _⟩, rfl⟩
    simp only [patchCall, hPlan]

theorem patchCall_eq_none {ev : IngestEvent} (h : patchCall plans tickSpacing ev = none) :
    ¬IsLiquidity plans tickSpacing ev := by
  rintro ⟨pool, lo, hi, hEvent⟩
  rw [patchCall_iff.mpr ⟨lo, hi, hEvent, rfl⟩] at h
  cases h

theorem LiquidityEvent.unique {ev : IngestEvent} {p q : TickPool} {a b c d : Int}
    (h : LiquidityEvent plans tickSpacing ev p a b) (h' : LiquidityEvent plans tickSpacing ev q c d) :
    p = q ∧ a = c ∧ b = d := by
  obtain ⟨hPlan, _, _⟩ := h
  obtain ⟨hPlan', _, _⟩ := h'
  rw [hPlan, Option.some.injEq, SlotPlan.cl.injEq] at hPlan'
  subst hPlan'
  exact ⟨rfl, rfl, rfl⟩

/-- The liquidity events of a run: known pools, ticks inside the bounds, blocks after the start. -/
def EventsValid (plans : List (Option SlotPlan)) (tickSpacing : Nat → Int) (pools : List TickPool) (start : Nat)
    (events : List IngestEvent) : Prop :=
  ∀ ev ∈ events, ∀ pool lo hi, LiquidityEvent plans tickSpacing ev pool lo hi →
    pool ∈ pools ∧ start < ev.block ∧ (minTick ≤ lo ∧ lo ≤ maxTick) ∧ minTick ≤ hi ∧ hi ≤ maxTick

def EventsOrdered (plans : List (Option SlotPlan)) (tickSpacing : Nat → Int) (events : List IngestEvent) : Prop :=
  events.Pairwise fun a b => IsLiquidity plans tickSpacing a → IsLiquidity plans tickSpacing b → a.block ≤ b.block

theorem Touches.isLiquidity {ev : IngestEvent} {key : SlotKey} (h : Touches keccak plans tickSpacing ev key) :
    IsLiquidity plans tickSpacing ev := by
  obtain ⟨pool, lo, hi, hEvent, -⟩ := h
  exact ⟨pool, lo, hi, hEvent⟩

/-- One patch keeps the dating: entries it read are dated by their read, and it
read every slot its event changed. -/
theorem Patches.dated {s : ChainState} {ev : IngestEvent} {handled : List IngestEvent} {pool : TickPool}
    {lo hi : Int} {first second : List SlotCompletion}
    (hEvent : LiquidityEvent plans tickSpacing ev pool lo hi) (hs : SpacingRange pool.spacing)
    (hStart : start < ev.block) (hBounds : ∀ t ∈ [lo, hi], minTick ≤ t ∧ t ≤ maxTick)
    (hOrder : ∀ old ∈ handled, IsLiquidity plans tickSpacing old → old.block ≤ ev.block)
    (h : Patches keccak chain s ev.block pool [lo, hi] first second)
    (hDated : Dated keccak plans tickSpacing chain pools start handled s.tickCache) :
    Dated keccak plans tickSpacing chain pools start (ev :: handled)
      (fill (fill s.tickCache first) second) := by
  intro key value hData hValue
  have hLate : ∀ n, ev.block ≤ n → ∀ old ∈ ev :: handled, Touches keccak plans tickSpacing old key →
      old.block ≤ n := by
    intro n hn old hOld hTouches
    obtain rfl | hOld := List.mem_cons.mp hOld
    · exact hn
    · exact (hOrder old hOld hTouches.isLiquidity).trans hn
  by_cases hTouched : key ∈ pool.touched keccak [lo, hi]
  · obtain ⟨n, hBlock, hFetched⟩ := h.fetched (touched_fetched hs hBounds hTouched _)
    rw [hFetched] at hValue
    exact ⟨n, by omega, (Option.some.inj hValue).symm, hLate n hBlock⟩
  · obtain hSame | ⟨n, hBlock, hFetched⟩ := h.cases key
    · rw [hSame] at hValue
      obtain ⟨n, hn, rfl, hOld⟩ := hDated key value hData hValue
      refine ⟨n, hn, rfl, fun old hMem hTouches => ?_⟩
      obtain rfl | hMem := List.mem_cons.mp hMem
      · obtain ⟨pool', lo', hi', hEvent', hKey⟩ := hTouches
        obtain ⟨rfl, rfl, rfl⟩ := hEvent.unique hEvent'
        exact absurd hKey hTouched
      · exact hOld old hMem hTouches
    · rw [hFetched] at hValue
      exact ⟨n, by omega, (Option.some.inj hValue).symm, hLate n hBlock⟩

theorem PatchRun.invariant (hDistinct : SlotsDistinct keccak pools)
    (hSpacing : ∀ pool ∈ pools, SpacingRange pool.spacing) {s t : ChainState} {events : List IngestEvent}
    (hRun : PatchRun keccak plans tickSpacing chain pools s events t)
    (hValid : EventsValid plans tickSpacing pools start events) (hOrdered : EventsOrdered plans tickSpacing events)
    (handled : List IngestEvent)
    (hBefore : ∀ old ∈ handled, ∀ ev ∈ events, IsLiquidity plans tickSpacing old →
      IsLiquidity plans tickSpacing ev → old.block ≤ ev.block)
    (hDated : Dated keccak plans tickSpacing chain pools start handled s.tickCache)
    (hCoupled : Coupled keccak pools s.tickCache) :
    Dated keccak plans tickSpacing chain pools start (events.reverse ++ handled) t.tickCache ∧
      Coupled keccak pools t.tickCache := by
  induction hRun generalizing handled with
  | nil s => exact ⟨hDated, hCoupled⟩
  | @idle s t u ev rest hNoCall hSame _ ih =>
    obtain ⟨hFirst, hRest⟩ := List.pairwise_cons.mp hOrdered
    have hNone := patchCall_eq_none hNoCall
    rw [List.reverse_cons, List.append_assoc]
    refine ih (fun e he => hValid e (List.mem_cons_of_mem _ he)) hRest _ ?_ ?_ (hSame ▸ hCoupled)
    · intro old hOld later hLater hOldCall hCall
      obtain rfl | hOld := List.mem_cons.mp hOld
      · exact absurd hOldCall hNone
      · exact hBefore old hOld later (List.mem_cons_of_mem _ hLater) hOldCall hCall
    · rw [hSame]
      intro key value hData hValue
      obtain ⟨n, hn, hEq, hOld⟩ := hDated key value hData hValue
      refine ⟨n, hn, hEq, fun old hMem hTouches => ?_⟩
      obtain rfl | hMem := List.mem_cons.mp hMem
      · exact absurd hTouches.isLiquidity hNone
      · exact hOld old hMem hTouches
  | @patch s t u ev rest pool ticks first second hCall hApart hReads hFilled _ ih =>
    obtain ⟨hFirst, hRest⟩ := List.pairwise_cons.mp hOrdered
    obtain ⟨lo, hi, hEvent, rfl⟩ := patchCall_iff.mp hCall
    obtain ⟨hPool, hStart, hLo, hHi⟩ := hValid ev List.mem_cons_self pool lo hi hEvent
    have hBounds : ∀ t ∈ [lo, hi], minTick ≤ t ∧ t ≤ maxTick :=
      List.forall_mem_cons.mpr ⟨hLo, List.forall_mem_singleton.mpr hHi⟩
    rw [List.reverse_cons, List.append_assoc]
    refine ih (fun e he => hValid e (List.mem_cons_of_mem _ he)) hRest _ ?_ ?_ ?_
    · intro old hOld later hLater hOldCall hLaterCall
      obtain rfl | hOld := List.mem_cons.mp hOld
      · exact hFirst later hLater ⟨pool, lo, hi, hEvent⟩ hLaterCall
      · exact hBefore old hOld later (List.mem_cons_of_mem _ hLater) hOldCall hLaterCall
    · rw [hFilled]
      exact hReads.dated hEvent (hSpacing pool hPool) hStart hBounds
        (fun old hOld hOldCall => hBefore old hOld ev List.mem_cons_self hOldCall ⟨pool, lo, hi, hEvent⟩) hDated
    · rw [hFilled]
      exact hReads.coupled hDistinct hPool (hSpacing pool hPool) hBounds hApart hCoupled

/-- Tick data changes only through the events: a slot that differs from one block to
the next is touched by an event of that block. -/
def ChangesByEvents (keccak : Keccak) (plans : List (Option SlotPlan)) (tickSpacing : Nat → Int)
    (chain : Nat → Storage) (pools : List TickPool) (start : Nat) (events : List IngestEvent) : Prop :=
  ∀ n key, start ≤ n → TickData keccak pools key → chain (n + 1) key ≠ chain n key →
    ∃ ev ∈ events, ev.block = n + 1 ∧ Touches keccak plans tickSpacing ev key

/-- The log is of one of the three liquidity events, with this range. -/
def LogDecoders.Range (d : LogDecoders) (log : Log) (range : Int × Int) : Prop :=
  d.mint log = some range ∨ d.burn log = some range ∨ d.modifyLiquidity log = some range

/-- A log of a pool with a CL plan, of a liquidity event with these ticks. -/
inductive LiquidityLog (f : FilterSet) (d : LogDecoders) (plans : List (Option SlotPlan)) (tickSpacing : Nat → Int) :
    Log → TickPool → Int → Int → Prop where
  | of {log : Log} {idx : Nat} {plan : ClPlan} {lo hi : Int} (resolved : f.resolve log = some idx)
      (planned : plans[idx]?.join = some (.cl plan)) (range : d.Range log (lo, hi)) :
      LiquidityLog f d plans tickSpacing log ⟨plan.addr, plan.ticksBase, plan.bitmapBase, tickSpacing idx⟩ lo hi

/-- What the chain says of its own changes: a slot that differs from one block to the next
is one of a liquidity log of that block. -/
def ChangesByLogs (keccak : Keccak) (f : FilterSet) (d : LogDecoders) (plans : List (Option SlotPlan))
    (tickSpacing : Nat → Int) (chain : Nat → Storage) (pools : List TickPool) (start : Nat) (logs : List Log) : Prop :=
  ∀ n key, start ≤ n → TickData keccak pools key → chain (n + 1) key ≠ chain n key →
    ∃ log ∈ logs, log.blockNumber = some (n + 1) ∧ ∃ pool lo hi,
      LiquidityLog f d plans tickSpacing log pool lo hi ∧ key ∈ pool.touched keccak [lo, hi]

/-- A range is decoded whichever of the events its log is of. -/
theorem decodeTouchedTicks_eq {d : LogDecoders} (hOne : ∀ log a b, d.Range log a → d.Range log b → a = b) {log : Log}
    {range : Int × Int} (h : d.Range log range) : decodeTouchedTicks d log = some range := by
  unfold decodeTouchedTicks
  cases hMint : d.mint log with
  | some ticks => exact congrArg some (hOne log _ _ (.inl hMint) h)
  | none =>
    cases hBurn : d.burn log with
    | some ticks => exact congrArg some (hOne log _ _ (.inr (.inl hBurn)) h)
    | none =>
      cases hModify : d.modifyLiquidity log with
      | some ticks => exact congrArg some (hOne log _ _ (.inr (.inr hModify)) h)
      | none => simp [LogDecoders.Range, hMint, hBurn, hModify] at h

/-- The events of the chain's logs account for its changes, if no log is of two events. -/
theorem ChangesByLogs.events {f : FilterSet} {d : LogDecoders} {logs : List Log} {events : List IngestEvent}
    (h : ChangesByLogs keccak f d plans tickSpacing chain pools start logs)
    (hOne : ∀ log a b, d.Range log a → d.Range log b → a = b)
    (hSent : ∀ log ∈ logs, ∀ idx, f.resolve log = some idx → poolLogOf d log idx ∈ events) :
    ChangesByEvents keccak plans tickSpacing chain pools start events := by
  intro n key hn hData hNe
  obtain ⟨log, hLog, hBlock, pool, lo, hi, ⟨hResolved, hPlan, hRange⟩, hKey⟩ := h n key hn hData hNe
  have hEvent := hSent log hLog _ hResolved
  rw [poolLogOf, hBlock, Option.getD_some, decodeTouchedTicks_eq hOne hRange] at hEvent
  exact ⟨_, hEvent, rfl, _, lo, hi, .of hPlan lo hi, hKey⟩

/-- A slot that no event touches after a block keeps its value from there on. -/
theorem chain_eq_of_untouched {events : List IngestEvent}
    (hChanges : ChangesByEvents keccak plans tickSpacing chain pools start events) {key : SlotKey}
    (hData : TickData keccak pools key) {m n : Nat} (hm : start ≤ m) (hmn : m ≤ n)
    (hUntouched : ∀ ev ∈ events, Touches keccak plans tickSpacing ev key → ev.block ≤ m) :
    chain n key = chain m key := by
  induction n, hmn using Nat.le_induction with
  | base => rfl
  | succ n hmn ih =>
    rw [← ih]
    by_contra hNe
    obtain ⟨ev, hMem, hBlock, hTouches⟩ := hChanges n key (by omega) hData hNe
    have hLe := hUntouched ev hMem hTouches
    omega

/-- Once every event up to a block is handled, the tick cache equals the chain at
that block, and every set bit of a cached word has its net cached. -/
theorem patchRun_cache_eq_chain (hDistinct : SlotsDistinct keccak pools)
    (hSpacing : ∀ pool ∈ pools, SpacingRange pool.spacing) {s t : ChainState} {events : List IngestEvent}
    {last : Nat} (hRun : PatchRun keccak plans tickSpacing chain pools s events t)
    (hValid : EventsValid plans tickSpacing pools start events) (hOrdered : EventsOrdered plans tickSpacing events)
    (hLast : ∀ ev ∈ events, IsLiquidity plans tickSpacing ev → ev.block ≤ last) (hStart : start ≤ last)
    (hChanges : ChangesByEvents keccak plans tickSpacing chain pools start events)
    (hEqual : ∀ key value, TickData keccak pools key → s.tickCache key = some value → value = chain start key)
    (hCoupled : Coupled keccak pools s.tickCache) :
    (∀ key value, TickData keccak pools key → t.tickCache key = some value → value = chain last key) ∧
      Coupled keccak pools t.tickCache := by
  have hDated : Dated keccak plans tickSpacing chain pools start [] s.tickCache :=
    fun key value hData hValue => ⟨start, le_rfl, hEqual key value hData hValue, nofun⟩
  obtain ⟨hFinal, hCoupledFinal⟩ :=
    hRun.invariant hDistinct hSpacing hValid hOrdered [] nofun hDated hCoupled
  refine ⟨fun key value hData hValue => ?_, hCoupledFinal⟩
  obtain ⟨n, hn, rfl, hHandled⟩ := hFinal key value hData hValue
  have hUntouched : ∀ ev ∈ events, Touches keccak plans tickSpacing ev key → ev.block ≤ n :=
    fun ev hMem hTouches => hHandled ev (by simpa using hMem) hTouches
  obtain hLe | hLe := Nat.le_total n last
  · exact (chain_eq_of_untouched hChanges hData hn hLe hUntouched).symm
  · exact chain_eq_of_untouched hChanges hData hStart hLe
      fun ev hMem hTouches => hLast ev hMem hTouches.isLiquidity

end Run

section Sample

def samplePool : TickPool := ⟨1#160, 5#256, 6#256, 1⟩

theorem samplePool_slotsDistinct : SlotsDistinct referenceKeccak [samplePool] where
  bitmap_inj p hp q hq v w hv hv' hw hw' h := by
    obtain rfl := List.mem_singleton.mp hp
    obtain rfl := List.mem_singleton.mp hq
    exact ⟨rfl, (mappingSlotSigned_inj (by omega) (by omega) (by omega) (by omega) (by decide) (by decide)
      (congrArg Prod.snd h)).1⟩
  bitmap_tick p hp q hq v t hv hv' ht ht' h := by
    obtain rfl := List.mem_singleton.mp hp
    obtain rfl := List.mem_singleton.mp hq
    exact absurd (mappingSlotSigned_inj (by omega) (by omega) ht ht' (by decide) (by decide)
      (congrArg Prod.snd h)).2 (by decide)

/-- The sample storage up to block 10; block 11 moves the net of tick 0. -/
def sampleChain (n : Nat) : Storage := fun key =>
  if 10 < n ∧ key = samplePool.tickKey referenceKeccak 0 then 500000000000#256 <<< 128 else sampleStorage key

/-- Word 0 and the nets of its two ticks are cached. -/
def sampleCache : SlotCache := fun key =>
  if key ∈ [samplePool.bitmapKey referenceKeccak 0, samplePool.tickKey referenceKeccak 0,
    samplePool.tickKey referenceKeccak 1] then some (sampleStorage key) else none

def sampleCached : ChainState := { sampleState with tickCache := sampleCache }

def sampleMintLog : Log := ⟨1#160, [], [], some 11, some 0⟩

def sampleDecoders : LogDecoders := ⟨fun log => if log = sampleMintLog then some (0, 1) else none, fun _ => none, fun _ => none⟩

def sampleFilter : FilterSet := ⟨⟨[], [(1#160, 0)]⟩, []⟩

def sampleMint : IngestEvent := .poolLog 11 0 (some (0, 1))

def samplePatchFirst : List SlotCompletion :=
  serve (sampleChain 11) (samplePool.patchWordKeys referenceKeccak [0, 1])

def samplePatchSecond : List SlotCompletion :=
  serve (sampleChain 11) (samplePool.patchTickKeys referenceKeccak
    (sampleCached.prefetchTicks samplePatchFirst) [0, 1])

/-- The mint of block 11 is the only change of the sample chain. -/
theorem sampleChain_logs : ChangesByLogs referenceKeccak sampleFilter sampleDecoders sampleState.plans (fun _ => 1)
    sampleChain [samplePool] 10 [sampleMintLog] := by
  intro n key hn _ hNe
  have hKey : key = samplePool.tickKey referenceKeccak 0 := by
    by_contra hOther
    simp [sampleChain, hOther] at hNe
  have hBlock : n = 10 := by
    by_contra hLater
    have hAfter : 10 < n := by omega
    simp [sampleChain, hKey, hAfter, show 10 < n + 1 by omega] at hNe
  have hLog : LiquidityLog sampleFilter sampleDecoders sampleState.plans (fun _ => 1) sampleMintLog samplePool 0 1 :=
    @LiquidityLog.of _ _ _ _ _ 0 samplePlan 0 1 (by decide) rfl (.inl (by decide))
  refine ⟨sampleMintLog, List.mem_singleton_self _, by rw [hBlock]; rfl, samplePool, 0, 1, hLog, ?_⟩
  rw [hKey]
  exact List.mem_cons_self

theorem sampleChain_changes : ChangesByEvents referenceKeccak sampleState.plans (fun _ => 1) sampleChain
    [samplePool] 10 [sampleMint] := by
  refine sampleChain_logs.events ?_ ?_
  · rintro log a b (hA | hA | hA) (hB | hB | hB)
    · exact Option.some.inj (hA.symm.trans hB)
    all_goals first | cases hA | cases hB
  · intro log hLog idx hResolved
    obtain rfl := List.mem_singleton.mp hLog
    have hIdx : some 0 = some idx := hResolved
    obtain rfl := Option.some.inj hIdx
    exact List.mem_singleton_self _

theorem sampleMint_liquidity : LiquidityEvent sampleState.plans (fun _ => 1) sampleMint samplePool 0 1 :=
  @LiquidityEvent.of _ _ 11 0 samplePlan rfl 0 1

theorem bits_three {bit : Nat} (h : (3#256).getLsbD bit = true) : bit = 0 ∨ bit = 1 := by
  rw [BitVec.getLsbD_ofNat, show 3 = 2 ^ 2 - 1 from rfl, Nat.testBit_two_pow_sub_one] at h
  simp only [Bool.and_eq_true, decide_eq_true_eq] at h
  omega

theorem sampleCache_coupled : Coupled referenceKeccak [samplePool] sampleCache := by
  intro pool hPool word hLow hHigh bits hWord bit hSet
  obtain rfl := List.mem_singleton.mp hPool
  have hTick : ∀ t : Int, -2 ^ 31 ≤ t → t < 2 ^ 31 →
      samplePool.bitmapKey referenceKeccak word ≠ samplePool.tickKey referenceKeccak t :=
    fun t => samplePool_slotsDistinct.bitmap_tick _ hPool _ hPool word t hLow hHigh
  by_cases hZero : word = 0
  · subst hZero
    have hBits : sampleCache (samplePool.bitmapKey referenceKeccak 0) = some 3#256 := by decide +kernel
    rw [hBits, Option.some.injEq] at hWord
    subst hWord
    rcases bits_three hSet with rfl | rfl <;> decide +kernel
  · have hNone : sampleCache (samplePool.bitmapKey referenceKeccak word) = none := by
      rw [sampleCache, if_neg]
      simp only [List.mem_cons, List.not_mem_nil, or_false, not_or]
      refine ⟨fun h => hZero ?_, hTick 0 (by omega) (by omega), hTick 1 (by omega) (by omega)⟩
      exact (samplePool_slotsDistinct.bitmap_inj _ hPool _ hPool word 0 hLow hHigh (by omega) (by omega) h).2
    rw [hNone] at hWord
    cases hWord

theorem sampleCache_after_mint :
    (∀ key value, TickData referenceKeccak [samplePool] key →
      fill (fill sampleCache samplePatchFirst) samplePatchSecond key = some value → value = sampleChain 11 key) ∧
    Coupled referenceKeccak [samplePool] (fill (fill sampleCache samplePatchFirst) samplePatchSecond) := by
  have hCall : patchCall sampleState.plans (fun _ => 1) sampleMint = some (samplePool, [0, 1]) := rfl
  have hPool : samplePool ∈ [samplePool] := List.mem_singleton_self _
  have hRun : PatchRun referenceKeccak sampleState.plans (fun _ => 1) sampleChain [samplePool] sampleCached
      [sampleMint] { sampleCached with tickCache := fill (fill sampleCache samplePatchFirst) samplePatchSecond } := by
    refine .patch hCall ?_ ⟨serve_completes _ _, serve_completes _ _, ?_⟩ rfl (.nil _)
    · intro pool hMem word hLow hHigh
      obtain rfl := List.mem_singleton.mp hMem
      exact sample_slotsApart.bitmap_none hLow hHigh
    · intro completion hMem
      exact ⟨11, le_rfl, (List.mem_append.mp hMem).elim (serve_served _ _ _) (serve_served _ _ _)⟩
  have hStart : 10 ≤ 11 := by omega
  refine patchRun_cache_eq_chain samplePool_slotsDistinct ?_ hRun ?_ (List.pairwise_singleton _ _) ?_ hStart
    sampleChain_changes ?_ sampleCache_coupled
  · intro pool hMem
    obtain rfl := List.mem_singleton.mp hMem
    exact ⟨by decide, by decide⟩
  · intro ev hMem pool lo hi hEvent
    obtain rfl := List.mem_singleton.mp hMem
    obtain ⟨rfl, rfl, rfl⟩ := hEvent.unique sampleMint_liquidity
    exact ⟨hPool, by decide, by decide⟩
  · intro ev hMem _
    obtain rfl := List.mem_singleton.mp hMem
    decide
  · intro key value _ hValue
    simp only [sampleCached, sampleCache] at hValue
    split at hValue
    · rw [← Option.some.inj hValue]
      simp [sampleChain]
    · cases hValue

end Sample

end Robinarb
