import Robinarb.Runtime.Model
import Robinarb.State.SamplePool

/-! # The two writers of the tick cache

Patches and hydrations read tick slots at the same time and insert what they read as it
comes. A patch asks for everything its event changed after the event was mined; what it
inserts stays as long as no answer of an earlier block is inserted after it.
-/

namespace Robinarb

open InFlight InFlight.Net Runs

def IsTick (cell : Cell) : Prop := cell.1 = .tickCache

instance : DecidablePred IsTick := fun cell => inferInstanceAs (Decidable (cell.1 = .tickCache))

def Action.move? : Action → Option Move
  | .net move => some move
  | _ => none

/-- The answers for a tick slot are inserted in the order of their blocks, and no read fails. -/
def LandsTicksInOrder (s : Runtime) (action : Action) : Prop := ∀ move ∈ action.move?, LandsInOrder IsTick s.net move

instance (s : Runtime) (action : Action) : Decidable (LandsTicksInOrder s action) :=
  inferInstanceAs (Decidable (∀ move ∈ action.move?, LandsInOrder IsTick s.net move))

theorem PipelineState.patch_mem_handle {plans : List (Option SlotPlan)} {tickSpacing : Nat → Int} {ev : IngestEvent}
    {pool : TickPool} {ticks : List Int} (h : patchCall plans tickSpacing ev = some (pool, ticks)) (s : PipelineState) :
    .patchClTicks pool ticks ∈ (s.handle plans tickSpacing (.event ev)).2 := by
  cases ev with
  | poolLog block idx touched =>
    have hBlock : patchCall plans tickSpacing (.poolLog block idx touched) = some (pool, ticks) := h
    simp only [handle, tickEffects, hBlock]
    exact List.mem_append_right _ (List.mem_append_left _ List.mem_cons_self)
  | _ => cases h

namespace Setup

variable (setup : Setup)

/-- The slots are known, or asked for by the pipeline, at a block or later. -/
def Refreshed (net : Net Cell Owner) (block : Nat) (slots : List SlotKey) : Prop :=
  ∀ key ∈ slots, Secured .pipeline block (.tickCache, key) net

/-- A patch that is due: still to come, reading its words, or past asking for its ticks. -/
def Patching (s : Runtime) (block : Nat) (pool : TickPool) (ticks : List Int) : Prop :=
  .patchClTicks pool ticks ∈ s.pipeline.stage.todo ∨
    (∃ todo, s.pipeline.stage = .patchingWords pool ticks todo ∧
      Refreshed s.net block (pool.patchWordKeys setup.keccak ticks)) ∨
    Refreshed s.net block (pool.touched setup.keccak ticks)

/-- The ticks of a patch call are ticks of a pool. -/
structure CallInRange (pool : TickPool) (ticks : List Int) : Prop where
  spacing : SpacingRange pool.spacing
  bounds : ∀ t ∈ ticks, minTick ≤ t ∧ t ≤ maxTick

/-- From a block on, nothing older than it is known of these cells or still to come. -/
structure DatedSince (P : Cell → Prop) (start : Nat) (net : Net Cell Owner) : Prop where
  current : UpToNow net
  started : start ≤ net.now
  served : ServedFrom P start net
  stamped : StampedFrom P start net

/-- Every liquidity event that was taken is mined and has its patch due. -/
structure TickWrites (s : Runtime) : Prop where
  mined : ∀ ev ∈ s.pipeline.delivered, ev.block ≤ s.net.now
  patching : ∀ ev ∈ s.pipeline.delivered, ∀ pool ticks,
    patchCall setup.plans setup.tickSpacing ev = some (pool, ticks) → CallInRange pool ticks →
      setup.Patching s ev.block pool ticks

variable {setup} {s t : Runtime} {start block : Nat} {pool : TickPool} {ticks : List Int}

theorem Refreshed.issue {slots : List SlotKey} (h : Refreshed s.net block slots) (owner : Owner) (cells : List Cell) :
    Refreshed (s.net.issue owner cells) block slots :=
  fun key hKey => (h key hKey).issue owner cells

theorem refreshed_of_issue (net : Net Cell Owner) (block : Nat) {slots asked : List SlotKey}
    (h : ∀ key ∈ slots, key ∈ asked) : Refreshed (net.issue .pipeline (tickCells asked)) block slots :=
  fun key hKey => secured_of_issue (List.mem_map_of_mem (h key hKey)) .pipeline net

theorem Refreshed.clear {slots : List SlotKey} (h : Refreshed s.net block slots) {p : Cell → Bool}
    (hMemo : ∀ cell, p cell = true → IsMemo cell) : Refreshed (s.net.clear p) block slots := by
  intro key hKey
  refine (h key hKey).clear (Bool.eq_false_iff.mpr fun hClear => ?_)
  cases hMemo _ hClear

/-- What keeps the stage and every refreshed slot keeps a patch that is due. -/
theorem Patching.mono (h : setup.Patching s block pool ticks) (hStage : t.pipeline.stage = s.pipeline.stage)
    (hNet : ∀ slots, Refreshed s.net block slots → Refreshed t.net block slots) :
    setup.Patching t block pool ticks := by
  rw [Patching, hStage]
  refine h.imp_right (Or.imp ?_ (hNet _))
  rintro ⟨todo, hWords, hSlots⟩
  exact ⟨todo, hWords, hNet _ hSlots⟩

theorem DatedSince.step {P : Cell → Prop} {action : Action} (h : DatedSince P start s.net)
    (hStep : setup.step s action = some t) : DatedSince P start t.net := by
  obtain ⟨hCurrent, hStarted, hServed, hStamped⟩ := h
  have hNow := hStarted.trans (step_now_le hStep)
  obtain ⟨m, hMoved⟩ | hNet | ⟨owner, cells, hNet⟩ | ⟨p, hNet⟩ := step_net hStep
  · exact ⟨hMoved.upToNow hCurrent, hNow, hMoved.servedFrom hStarted hServed, hMoved.stampedFrom hServed hStamped⟩
  · rw [hNet]
    exact ⟨hCurrent, hStarted, hServed, hStamped⟩
  · rw [hNet]
    exact ⟨hCurrent.issue owner cells, hStarted, hServed.issue owner cells, hStamped⟩
  · rw [hNet]
    exact ⟨hCurrent.clear p, hStarted, hServed, hStamped.clear p⟩

theorem booted_datedSince (start : Nat) (hydrated : SlotKey → Bool) :
    DatedSince IsTick start (setup.booted start hydrated).net :=
  ⟨booted_upToNow start hydrated, le_rfl, nofun, fun _ _ _ hStamp => (booted_stamp hStamp).ge⟩

/-- Clearing a shard of the memo or asking for base slots refreshes no less. -/
theorem Refreshed.advance {slots : List SlotKey} (h : Refreshed s.net block slots) (batch : ChangedBatch)
    (asked : List SlotKey) (shard : Nat) (todo : List Effect) :
    Refreshed (setup.advance s batch asked shard todo).net block slots := by
  unfold Setup.advance
  split
  · exact h.clear fun cell hClear => (of_decide_eq_true hClear).1
  · exact h.issue .pipeline _

theorem advance_todo (batch : ChangedBatch) (slots : List SlotKey) (shard : Nat) (todo : List Effect) :
    (setup.advance s batch slots shard todo).pipeline.stage.todo = todo := by
  unfold Setup.advance
  split <;> rfl

theorem perform_todo (todo : List Effect) (effect : Effect) :
    (setup.perform s todo effect).pipeline.stage.todo = todo := by
  cases effect <;> rfl

theorem Refreshed.perform {slots : List SlotKey} (h : Refreshed s.net block slots) (todo : List Effect)
    (effect : Effect) : Refreshed (setup.perform s todo effect).net block slots := by
  cases effect with
  | patchClTicks pool ticks => exact h.issue .pipeline _
  | _ => exact h

/-- The pipeline begins a patch, asks for its second batch, or goes on with one of the others. -/
theorem Patching.piped (h : setup.Patching s block pool ticks) (hRange : CallInRange pool ticks)
    (hPiped : Piped setup s t) : setup.Patching t block pool ticks := by
  cases hPiped with
  | @perform effect todo hStage =>
    obtain hTodo | ⟨_, hWords, -⟩ | hTouched := h
    · rw [hStage, PipelineStage.todo] at hTodo
      obtain rfl | hTodo := List.mem_cons.mp hTodo
      · exact .inr (.inl ⟨todo, rfl, refreshed_of_issue s.net block fun _ => id⟩)
      · exact .inl ((perform_todo todo effect).symm ▸ hTodo)
    · rw [hStage] at hWords
      cases hWords
    · exact .inr (.inr (hTouched.perform todo effect))
  | @nets other touched todo hStage =>
    obtain hTodo | ⟨_, hWords, hSlots⟩ | hTouched := h
    · rw [hStage] at hTodo
      exact .inl hTodo
    · rw [hStage] at hWords
      cases hWords
      refine .inr (.inr fun key hKey => ?_)
      -- the words are refreshed already, and the ticks are asked for now
      obtain hWord | hTick := touched_fetched hRange.spacing hRange.bounds hKey (setup.view s.net)
      · exact (hSlots key hWord).issue .pipeline _
      · exact secured_of_issue (List.mem_map_of_mem hTick) .pipeline s.net
    · exact .inr (.inr (hTouched.issue .pipeline _))
  | @patched todo hStage =>
    obtain hTodo | ⟨_, hWords, -⟩ | hTouched := h
    · rw [hStage] at hTodo
      exact .inl hTodo
    · rw [hStage] at hWords
      cases hWords
    · exact .inr (.inr hTouched)
  | @advance batch slots shard todo hStage =>
    obtain hTodo | ⟨_, hWords, -⟩ | hTouched := h
    · rw [hStage, PipelineStage.todo] at hTodo
      exact .inl ((advance_todo batch slots shard todo).symm ▸ hTodo)
    · rw [hStage] at hWords
      cases hWords
    · exact .inr (.inr (hTouched.advance batch slots shard todo))
  | @announce batch todo hStage =>
    obtain hTodo | ⟨_, hWords, -⟩ | hTouched := h
    · rw [hStage] at hTodo
      exact .inl hTodo
    · rw [hStage] at hWords
      cases hWords
    · exact .inr (.inr hTouched)

theorem piped_delivered (h : Piped setup s t) : t.pipeline.delivered = s.pipeline.delivered := by
  cases h with
  | @perform effect => cases effect <;> rfl
  | advance =>
    unfold Setup.advance
    split <;> rfl
  | nets | patched | announce => rfl

theorem TickWrites.follow (h : setup.TickWrites s) (hNow : s.net.now ≤ t.net.now)
    (hDelivered : t.pipeline.delivered = s.pipeline.delivered)
    (hPatching : ∀ ev ∈ s.pipeline.delivered, ∀ pool ticks, CallInRange pool ticks →
      setup.Patching s ev.block pool ticks → setup.Patching t ev.block pool ticks) : setup.TickWrites t := by
  constructor
  · rw [hDelivered]
    exact fun ev hEv => (h.mined ev hEv).trans hNow
  · rw [hDelivered]
    exact fun ev hEv pool ticks hCall hRange => hPatching ev hEv pool ticks hRange (h.patching ev hEv pool ticks hCall hRange)

/-- The turn that takes an event has its patch among its effects; it begins when every
earlier patch is past asking. -/
theorem TickWrites.input (h : setup.TickWrites s) {i : PipelineInput}
    (hInput : ∀ ev ∈ i.events, ev.block ≤ s.net.now) (hTaken : setup.input s i = some t) : setup.TickWrites t := by
  obtain ⟨hStage, hNet, hPipeline⟩ := input_eq hTaken
  have hDelivered : t.pipeline.delivered = i.events ++ s.pipeline.delivered := by rw [hPipeline]
  constructor
  · rw [hDelivered, hNet]
    intro ev hEv
    exact (List.mem_append.mp hEv).elim (hInput ev) (h.mined ev)
  · rw [hDelivered]
    intro ev hEv pool ticks hCall hRange
    obtain hNew | hOld := List.mem_append.mp hEv
    · cases i with
      | event taken =>
        obtain rfl := List.mem_singleton.mp hNew
        left
        rw [hPipeline]
        exact PipelineState.patch_mem_handle hCall s.pipeline.loop
      | quiet => cases hNew
    · obtain hTodo | ⟨_, hWords, -⟩ | hTouched := h.patching ev hOld pool ticks hCall hRange
      · rw [hStage] at hTodo
        cases hTodo
      · rw [hStage] at hWords
        cases hWords
      · exact .inr (.inr (hNet ▸ hTouched))

theorem TickWrites.step {action : Action} (h : setup.TickWrites s) (hOrder : LandsTicksInOrder s action)
    (hStep : setup.step s action = some t) : setup.TickWrites t := by
  have hNow := step_now_le hStep
  cases step_turn hStep with
  | @net m net hMoved =>
    refine h.follow hNow rfl fun ev hEv pool ticks _ hPatching => hPatching.mono rfl ?_
    intro slots hSlots key hKey
    exact hMoved.secured (h.mined ev hEv) (show IsTick (.tickCache, key) from rfl) (hOrder m rfl) (hSlots key hKey)
  | pipeline hStepped =>
    have hPiped := pipelineStep_piped hStepped
    exact h.follow hNow (piped_delivered hPiped) fun ev _ pool ticks hRange hPatching => hPatching.piped hRange hPiped
  | event hMined hTaken =>
    refine h.input (fun ev hEv => ?_) hTaken
    obtain rfl := List.mem_singleton.mp hEv
    exact hMined
  | quiet hTaken => exact h.input (fun ev hEv => by cases hEv) hTaken
  | fees hSame hIssued =>
    refine h.follow hNow (congrArg _ hSame) fun ev _ pool ticks _ hPatching => hPatching.mono (congrArg _ hSame) ?_
    exact fun slots hSlots => hIssued ▸ hSlots.issue .feePoller _
  | hydration idx asked hSame hIssued =>
    refine h.follow hNow (congrArg _ hSame) fun ev _ pool ticks _ hPatching => hPatching.mono (congrArg _ hSame) ?_
    exact fun slots hSlots => hIssued ▸ hSlots.issue (.hydration idx) _
  | aside hSame hUntouched =>
    refine h.follow hNow (congrArg _ hSame) fun ev _ pool ticks _ hPatching => hPatching.mono (congrArg _ hSame) ?_
    exact fun slots hSlots => hUntouched ▸ hSlots

/-- An event that the pipeline has taken is behind every entry of its slots once the
pipeline waits and none of its reads is in flight. -/
theorem TickWrites.behind (h : setup.TickWrites s) (hFlights : s.net.flights = [])
    (hStage : s.pipeline.stage = .running []) {ev : IngestEvent} (hEv : ev ∈ s.pipeline.delivered)
    (hRange : ∀ pool lo hi, LiquidityEvent setup.plans setup.tickSpacing ev pool lo hi → CallInRange pool [lo, hi])
    {key : SlotKey} (hTouches : Touches setup.keccak setup.plans setup.tickSpacing ev key) {n : Nat}
    (hStamp : s.net.stamps (.tickCache, key) = some n) : ev.block ≤ n := by
  have hIdle : s.net.idle .pipeline = true := by rw [idle, hFlights, List.all_nil]
  obtain ⟨pool, lo, hi, hEvent, hTouched⟩ := hTouches
  have hCall : patchCall setup.plans setup.tickSpacing ev = some (pool, [lo, hi]) := patchCall_iff.mpr ⟨lo, hi, hEvent, rfl⟩
  obtain hTodo | ⟨_, hWords, -⟩ | hSlots := h.patching ev hEv pool [lo, hi] hCall (hRange pool lo hi hEvent)
  · rw [hStage] at hTodo
    cases hTodo
  · rw [hStage] at hWords
    cases hWords
  · obtain ⟨m, hLater, hLe⟩ := (hSlots key hTouched).stamped hIdle
    obtain rfl : n = m := Option.some.inj (hStamp.symm.trans hLater)
    exact hLe

/-- In every run whose reads of tick slots are inserted in the order of their blocks: once
no read is in flight and the pipeline waits, if every change of the slots since the start
is that of an event the pipeline has taken, every bitmap and net entry of the tick cache
equals the chain. -/
theorem tickCache_settles {pools : List TickPool} {hydrated : SlotKey → Bool} {actions : List Action}
    (hRun : run setup.step (setup.booted start hydrated) actions = some s)
    (hOrder : Each setup.step LandsTicksInOrder (setup.booted start hydrated) actions)
    (hRange : ∀ ev ∈ s.pipeline.delivered, ∀ pool lo hi,
      LiquidityEvent setup.plans setup.tickSpacing ev pool lo hi → CallInRange pool [lo, hi])
    (hChanges : ChangesByEvents setup.keccak setup.plans setup.tickSpacing setup.chain pools start s.pipeline.delivered)
    (hFlights : s.net.flights = []) (hStage : s.pipeline.stage = .running []) :
    ∀ key value, TickData setup.keccak pools key → (setup.view s.net).tickCache key = some value →
      value = setup.chain s.net.now key := by
  have hWrites : setup.TickWrites s :=
    hOrder.invariant (fun _ _ _ hInv hLands hStep => hInv.step hLands hStep) hRun ⟨nofun, nofun⟩
  have hDated : DatedSince IsTick start s.net :=
    run_invariant (fun _ _ _ hInv hStep => DatedSince.step hInv hStep) hRun (booted_datedSince start hydrated)
  intro key value hData hValue
  obtain ⟨n, hStamp, rfl⟩ := Option.map_eq_some_iff.mp hValue
  refine (chain_eq_of_untouched hChanges hData (hDated.stamped _ (show IsTick (.tickCache, key) from rfl) n hStamp)
    (hDated.current.stamped _ n hStamp) ?_).symm
  exact fun ev hEv hTouches => hWrites.behind hFlights hStage hEv (hRange ev hEv) hTouches hStamp

section Sample

/-- The sample pool, whose net of tick 0 is moved by a mint in block 11. -/
def mintSetup : Setup where
  keccak := referenceKeccak
  chain := sampleChain
  plans := sampleState.plans
  tickSpacing _ := 1
  store := .build [] 1
  shardCount := 1
  shard _ := ⟨0, Nat.one_pos⟩

def mintHydrated (key : SlotKey) : Bool :=
  key ∈ [samplePool.bitmapKey referenceKeccak 0, samplePool.tickKey referenceKeccak 0,
    samplePool.tickKey referenceKeccak 1]

/-- Serves and inserts the reads from an index on. -/
def settle (i count : Nat) : List Action := (List.replicate count [.net (.serve i), .net (.land i)]).flatten

/-- The mint is patched with nothing else in flight. -/
def mintPatched (i : Nat) : List Action :=
  [.net .mine, .deliver sampleMint, .pipeline] ++ settle i 6 ++ [.pipeline] ++ settle i 6 ++ [.pipeline, .pipeline]

theorem mint_settles :
    ∃ s, run mintSetup.step (mintSetup.booted 10 mintHydrated) (mintPatched 0) = some s ∧
      ∀ key value, TickData mintSetup.keccak [samplePool] key → (mintSetup.view s.net).tickCache key = some value →
        value = mintSetup.chain s.net.now key := by
  have hEnd : (run mintSetup.step (mintSetup.booted 10 mintHydrated) (mintPatched 0)).any (fun s =>
      s.pipeline.delivered = [sampleMint] ∧ s.net.flights = [] ∧ s.pipeline.stage = .running []) = true := by
    decide +kernel
  obtain ⟨s, hRun, hEnd⟩ := (Option.any_eq_true _ _).mp hEnd
  obtain ⟨hDelivered, hFlights, hStage⟩ := of_decide_eq_true hEnd
  refine ⟨s, hRun, tickCache_settles hRun (by decide +kernel) ?_ ?_ hFlights hStage⟩
  · rw [hDelivered]
    intro ev hEv pool lo hi hEvent
    obtain rfl := List.mem_singleton.mp hEv
    obtain ⟨rfl, rfl, rfl⟩ := hEvent.unique sampleMint_liquidity
    exact ⟨⟨by decide, by decide⟩, by decide⟩
  · rw [hDelivered]
    exact sampleChain_changes

def mintSwap : IngestEvent := .poolLog 10 0 none

/-- A swap queues the pool; its hydration has read the words and got the net of tick 0. -/
def netsInFlight : List Action :=
  [.deliver mintSwap, .pipeline, .receive, .flush, .startHydration 0] ++ settle 0 129 ++
    [.hydrateNets 0, .net (.serve 0)]

/-- The mint seals the block of the swap and is patched, with the hydration's reads in flight. -/
def mintPatchedMeanwhile : List Action :=
  [.net .mine, .deliver sampleMint, .pipeline, .pipeline, .pipeline] ++ settle 2 2 ++ [.pipeline, .pipeline] ++
    settle 2 6 ++ [.pipeline] ++ settle 2 6 ++ [.pipeline, .pipeline]

/-- The hydration's answer of block 10 is inserted after the patch's of block 11. -/
theorem mint_lost :
    ¬∀ (setup : Setup) (pools : List TickPool) (start : Nat) (hydrated : SlotKey → Bool) (actions : List Action)
      (s : Runtime), (∀ action ∈ actions, action.plain = true) →
      run setup.step (setup.booted start hydrated) actions = some s →
      (∀ ev ∈ s.pipeline.delivered, ∀ pool lo hi,
        LiquidityEvent setup.plans setup.tickSpacing ev pool lo hi → CallInRange pool [lo, hi]) →
      ChangesByEvents setup.keccak setup.plans setup.tickSpacing setup.chain pools start s.pipeline.delivered →
      s.net.flights = [] → s.pipeline.stage = .running [] →
      ∀ key value, TickData setup.keccak pools key → (setup.view s.net).tickCache key = some value →
        value = setup.chain s.net.now key := by
  intro hAll
  have hEnd : (run mintSetup.step (mintSetup.booted 10 mintHydrated)
      (netsInFlight ++ mintPatchedMeanwhile ++ [.net (.land 0), .net (.serve 0), .net (.land 0)])).any (fun s =>
        s.pipeline.delivered = [sampleMint, mintSwap] ∧ s.net.flights = [] ∧ s.pipeline.stage = .running [] ∧
        s.net.now = 11 ∧ (mintSetup.view s.net).tickCache (samplePool.tickKey referenceKeccak 0) =
          some (400000000000#256 <<< 128)) = true := by decide +kernel
  obtain ⟨s, hRun, hEnd⟩ := (Option.any_eq_true _ _).mp hEnd
  obtain ⟨hDelivered, hFlights, hStage, hBlock, hNet⟩ := of_decide_eq_true hEnd
  have hData : TickData referenceKeccak [samplePool] (samplePool.tickKey referenceKeccak 0) :=
    ⟨samplePool, List.mem_cons_self, .inr ⟨0, by decide, by decide, rfl⟩⟩
  have hEq := hAll mintSetup [samplePool] 10 mintHydrated _ s (by decide +kernel) hRun ?_ ?_ hFlights hStage _ _ hData hNet
  · rw [hBlock] at hEq
    exact absurd hEq (by decide +kernel)
  · rw [hDelivered]
    intro ev hEv pool lo hi hEvent
    obtain rfl | hEv := List.mem_cons.mp hEv
    · obtain ⟨rfl, rfl, rfl⟩ := hEvent.unique sampleMint_liquidity
      exact ⟨⟨by decide, by decide⟩, by decide⟩
    · obtain rfl := List.mem_singleton.mp hEv
      cases hEvent
  · rw [hDelivered]
    intro n key hn hKey hNe
    obtain ⟨ev, hEv, hChange⟩ := sampleChain_changes n key hn hKey hNe
    obtain rfl := List.mem_singleton.mp hEv
    exact ⟨sampleMint, List.mem_cons_self, hChange⟩

end Sample

end Setup

end Robinarb
