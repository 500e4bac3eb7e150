import Robinarb.Runtime.Model
import Robinarb.State.SamplePool

/-! # Announced routes

A batch is announced once the base slots of its neighborhood are in the memo, and
evaluated later by another task. They stay there until the pipeline clears one of their
shards for a later batch, which may be before the evaluator has come to them.
-/

namespace Robinarb

open InFlight InFlight.Net Runs

def NoMemoReads (net : Net Cell Owner) : Prop := ∀ f ∈ net.flights, IsMemo f.cell → False

namespace Setup

variable (setup : Setup)

/-- The route of its batch that the evaluator takes up. -/
def evaluated? (s : Runtime) (action : Action) : Option Nat :=
  match action, s.evaluator with
  | .evaluate id, .evaluating batch => if id ∈ setup.candidates batch then some id else none
  | _, _ => none

def routeSlots (id : Nat) : List SlotKey := setup.slotsOf (setup.store.hopPools id)

def EvaluatesCovered (s : Runtime) (action : Action) : Prop :=
  ∀ id ∈ setup.evaluated? s action, ∀ key ∈ setup.routeSlots id, ((setup.view s.net).memo key).isSome = true

instance (s : Runtime) (action : Action) : Decidable (setup.EvaluatesCovered s action) :=
  have : DecidablePred fun id => ∀ key ∈ setup.routeSlots id, ((setup.view s.net).memo key).isSome = true :=
    fun id => List.decidableBAll _ (setup.routeSlots id)
  Option.decidableForallMem (setup.evaluated? s action)

/-- The pools of the batches announced and not done with: the queue's and the evaluator's. -/
def awaited (s : Runtime) : List Nat :=
  s.changed.flatMap ChangedBatch.pools ++
    match s.evaluator with
    | .idle => []
    | .merging batch | .evaluating batch => batch.pools

/-- The shard of the memo that the pipeline clears next. -/
def clearing? (s : Runtime) : Option Nat :=
  match s.pipeline.stage with
  | .advancing _ _ shard _ => if shard < setup.shardCount then some shard else none
  | _ => none

def KeepsSlot (s : Runtime) (action : Action) (key : SlotKey) : Prop :=
  action = .pipeline → ∀ shard ∈ setup.clearing? s, (setup.shard key : Nat) ≠ shard

instance (s : Runtime) (action : Action) (key : SlotKey) : Decidable (setup.KeepsSlot s action key) :=
  inferInstanceAs (Decidable (_ → _))

/-- No shard is cleared that holds a base slot of a route announced and not done with. -/
def ClearsNothingAwaited (s : Runtime) (action : Action) : Prop :=
  ∀ pool ∈ awaited s, ∀ id ∈ setup.store.routesForPool pool, ∀ key ∈ setup.routeSlots id, setup.KeepsSlot s action key

instance (s : Runtime) (action : Action) : Decidable (setup.ClearsNothingAwaited s action) :=
  have : ∀ id, Decidable (∀ key ∈ setup.routeSlots id, setup.KeepsSlot s action key) := fun _ => List.decidableBAll _ _
  have : ∀ pool, Decidable (∀ id ∈ setup.store.routesForPool pool, ∀ key ∈ setup.routeSlots id,
    setup.KeepsSlot s action key) := fun _ => List.decidableBAll _ _
  List.decidableBAll _ _

/-- Every route announced and not done with has its base slots in the memo. -/
def AwaitedCovered (s : Runtime) : Prop :=
  ∀ pool ∈ awaited s, ∀ id ∈ setup.store.routesForPool pool, ∀ key ∈ setup.routeSlots id,
    ((setup.view s.net).memo key).isSome = true

def LeavesAwaitedCovered (s : Runtime) (action : Action) : Prop :=
  ∀ t, setup.step s action = some t → setup.AwaitedCovered t

def Covers (batch : ChangedBatch) (slots : List SlotKey) : Prop :=
  ∀ pool ∈ batch.pools, ∀ id ∈ setup.store.routesForPool pool, ∀ key ∈ setup.routeSlots id, key ∈ slots

def StageCovers (pipeline : PipelineTask) : Prop :=
  match pipeline.stage with
  | .advancing batch slots _ _ => setup.Covers batch slots
  | .prefetching batch _ => setup.Covers batch pipeline.asked
  | _ => True

/-- The memo holds what the pipeline has asked for and received since the last clear. -/
structure Announcing (s : Runtime) : Prop where
  reads : ∀ f ∈ s.net.flights, IsMemo f.cell →
    f.owner = .pipeline ∧ ∃ batch todo, s.pipeline.stage = .prefetching batch todo
  accounted : Accounted IsMemo (fun cell => s.pipeline.asked.countP fun key => key = cell.2) s.net
  covers : setup.StageCovers s.pipeline

variable {setup} {s t : Runtime}

theorem mem_slotsOf {pools : List Nat} {key : SlotKey} : key ∈ setup.slotsOf pools ↔
    ∃ idx ∈ pools, ∃ plan, setup.plans[idx]? = some (some plan) ∧ key ∈ ChainState.planSlots plan := by
  simp only [slotsOf, List.mem_flatMap]
  refine exists_congr fun idx => and_congr_right fun _ => ?_
  cases hPlan : setup.plans[idx]? with
  | none => simp
  | some plan => cases plan <;> simp

theorem covers_neighborhood (block : Nat) (pools : List Nat) :
    setup.Covers ⟨block, pools⟩ (setup.neighborhoodSlots pools) := by
  intro pool hPool id hRoute key hKey
  obtain ⟨idx, hIdx, hSlots⟩ := mem_slotsOf.mp hKey
  exact mem_slotsOf.mpr ⟨idx, RouteStore.hopPools_subset_neighborhood hPool hRoute hIdx, hSlots⟩

theorem covers_allPools (block : Nat) (pools : List Nat) :
    setup.Covers ⟨block, pools⟩ (setup.slotsOf setup.allPools) := by
  intro pool _ id _ key hKey
  obtain ⟨idx, -, plan, hPlan, hSlots⟩ := mem_slotsOf.mp hKey
  have hLt := (List.getElem?_eq_some_iff.mp hPlan).1
  exact mem_slotsOf.mpr ⟨idx, List.mem_range.mpr hLt, plan, hPlan, hSlots⟩

theorem countP_memoCells (slots : List SlotKey) {cell : Cell} (h : IsMemo cell) :
    (memoCells slots).countP (fun other => other = cell) = slots.countP fun key => key = cell.2 := by
  obtain ⟨table, key⟩ := cell
  obtain rfl : table = .memo := h
  simp [memoCells, List.countP_map, Function.comp_def]

theorem tickCells_not_memo {slots : List SlotKey} {cell : Cell} (h : cell ∈ tickCells slots) : ¬IsMemo cell := by
  obtain ⟨key, -, rfl⟩ := List.mem_map.mp h
  exact nofun

theorem Announcing.booted (start : Nat) (hydrated : SlotKey → Bool) :
    setup.Announcing (setup.booted start hydrated) := by
  refine ⟨nofun, ?_, trivial⟩
  rintro ⟨table, key⟩ hMemo
  obtain rfl : table = .memo := hMemo
  refine ⟨Nat.zero_le _, ?_⟩
  simp [Setup.booted, reading, List.countP_pos_iff, Option.isSome_ite]

theorem Announcing.congr (h : setup.Announcing s) (hNet : t.net = s.net) (hPipeline : t.pipeline = s.pipeline) :
    setup.Announcing t := by
  obtain ⟨hReads, hAccounted, hCovers⟩ := h
  rw [← hNet, ← hPipeline] at *
  exact ⟨hReads, hAccounted, hCovers⟩

theorem Announcing.moved (h : setup.Announcing s) {m : Move} {net : Net Cell Owner} (hMoved : Net.Moved s.net m net)
    (hOk : m.isFail = false) : setup.Announcing { s with net := net } := by
  refine ⟨?_, hMoved.accounted hOk h.accounted, h.covers⟩
  intro f hMem hMemo
  obtain ⟨g, hOld, hOwner, hCell⟩ := hMoved.flight_of_mem hMem
  rw [hOwner]
  exact h.reads g hOld (hCell ▸ hMemo)

/-- Tick slots are none of the memo's. -/
theorem Announcing.issueTicks (h : setup.Announcing s) (owner : Owner) (slots : List SlotKey) :
    setup.Announcing { s with net := s.net.issue owner (tickCells slots) } := by
  refine ⟨?_, ?_, h.covers⟩
  · intro f hMem hMemo
    obtain hMem | hMem := List.mem_append.mp hMem
    · exact h.reads f hMem hMemo
    · obtain ⟨cell, hCell, rfl⟩ := List.mem_map.mp hMem
      exact absurd hMemo (tickCells_not_memo hCell)
  · intro cell hMemo
    have hNone : (tickCells slots).countP (fun other => other = cell) = 0 := by
      rw [List.countP_eq_zero]
      intro other hOther hSame
      exact tickCells_not_memo hOther (of_decide_eq_true hSame ▸ hMemo)
    have hCount := h.accounted.issue owner (tickCells slots) cell hMemo
    simp only [hNone, Nat.add_zero] at hCount
    exact hCount

theorem Announcing.noMemoReads (h : setup.Announcing s)
    (hStage : ∀ batch todo, s.pipeline.stage ≠ .prefetching batch todo) : NoMemoReads s.net := by
  intro f hMem hMemo
  obtain ⟨-, batch, todo, hPrefetching⟩ := h.reads f hMem hMemo
  exact hStage batch todo hPrefetching

theorem Announcing.noMemoReads_of_idle (h : setup.Announcing s) (hIdle : s.net.idle .pipeline = true) :
    NoMemoReads s.net := by
  intro f hMem hMemo
  simp only [idle, List.all_eq_true, decide_eq_true_eq] at hIdle
  exact hIdle f hMem (h.reads f hMem hMemo).1

theorem Announcing.restage (h : setup.Announcing s) (hNone : NoMemoReads s.net) (hNet : t.net = s.net)
    (hAsked : t.pipeline.asked = s.pipeline.asked) (hCovers : setup.StageCovers t.pipeline) : setup.Announcing t := by
  refine ⟨?_, ?_, hCovers⟩
  · rw [hNet]
    exact fun f hMem hMemo => (hNone f hMem hMemo).elim
  · rw [hNet, hAsked]
    exact h.accounted

theorem Announcing.advance (h : setup.Announcing s) {batch : ChangedBatch} {slots : List SlotKey} {shard : Nat}
    {todo : List Effect} (hStage : s.pipeline.stage = .advancing batch slots shard todo) :
    setup.Announcing (setup.advance s batch slots shard todo) := by
  have hNone : NoMemoReads s.net := h.noMemoReads (by simp [hStage])
  have hCovers : setup.Covers batch slots := by
    have hStageCovers := h.covers
    rwa [StageCovers, hStage] at hStageCovers
  unfold Setup.advance
  split
  · refine ⟨fun f hMem hMemo => (hNone f hMem hMemo).elim, ?_, hCovers⟩
    intro cell hMemo
    have hCleared := (h.accounted.clear (p := fun cell => cell.1 = .memo ∧ setup.shard cell.2 = shard) hNone) cell hMemo
    have hAsked : (s.pipeline.asked.filter fun key => (setup.shard key : Nat) ≠ shard).countP (fun key => key = cell.2) =
        if (setup.shard cell.2 : Nat) = shard then 0 else s.pipeline.asked.countP fun key => key = cell.2 := by
      rw [List.countP_filter]
      split
      · rename_i hShard
        rw [List.countP_eq_zero]
        rintro key - hKey
        simp only [Bool.and_eq_true, decide_eq_true_eq] at hKey
        exact hKey.2 (hKey.1 ▸ hShard)
      · rename_i hShard
        apply List.countP_congr
        intro key _
        simp only [Bool.and_eq_true, decide_eq_true_eq, and_iff_left_iff_imp]
        rintro rfl
        exact hShard
    have hMemoEq : cell.1 = .memo := hMemo
    simp only [hMemoEq, true_and, decide_eq_true_eq] at hCleared
    change _ ≤ List.countP _ (List.filter _ _) ∧ (_ ↔ _ < List.countP _ (List.filter _ _))
    rw [hAsked]
    exact hCleared
  · refine ⟨?_, ?_, ?_⟩
    · intro f hMem hMemo
      obtain hMem | hMem := List.mem_append.mp hMem
      · exact (hNone f hMem hMemo).elim
      · obtain ⟨cell, -, rfl⟩ := List.mem_map.mp hMem
        exact ⟨rfl, batch, todo, rfl⟩
    · intro cell hMemo
      have hIssued := h.accounted.issue .pipeline (memoCells slots) cell hMemo
      simp only [countP_memoCells slots hMemo, ← List.countP_append] at hIssued
      exact hIssued
    · exact fun pool hPool id hRoute key hKey => List.mem_append_right _ (hCovers pool hPool id hRoute key hKey)

theorem Announcing.piped (h : setup.Announcing s) (hPiped : Piped setup s t) : setup.Announcing t := by
  cases hPiped with
  | @perform effect todo hStage =>
    have hNone : NoMemoReads s.net := h.noMemoReads (by simp [hStage])
    cases effect with
    | onNewHead fee => exact h.restage hNone rfl rfl trivial
    | setHead number => exact h.restage hNone rfl rfl trivial
    | patchClTicks pool ticks =>
      have hPatching : setup.Announcing (s.at (.patchingWords pool ticks todo)) := h.restage hNone rfl rfl trivial
      exact hPatching.issueTicks .pipeline _
    | queueTickResync idx block => exact h.restage hNone rfl rfl trivial
    | sealBatch block pools => exact h.restage hNone rfl rfl (covers_neighborhood block pools)
    | resyncAll block => exact h.restage hNone rfl rfl (covers_allPools block setup.allPools)
  | @nets pool ticks todo hStage =>
    have hNone : NoMemoReads s.net := h.noMemoReads (by simp [hStage])
    have hPatching : setup.Announcing (s.at (.patchingTicks todo)) := h.restage hNone rfl rfl trivial
    exact hPatching.issueTicks .pipeline _
  | patched hStage => exact h.restage (h.noMemoReads (by simp [hStage])) rfl rfl trivial
  | advance hStage => exact h.advance hStage
  | announce _ hIdle => exact h.restage (h.noMemoReads_of_idle hIdle) rfl rfl trivial

theorem Announcing.input (h : setup.Announcing s) {i : PipelineInput} (hTaken : setup.input s i = some t) :
    setup.Announcing t := by
  obtain ⟨hStage, hNet, hPipeline⟩ := input_eq hTaken
  refine h.restage (h.noMemoReads (by simp [hStage])) hNet ?_ ?_
  · rw [hPipeline]
  · rw [hPipeline]
    trivial

theorem Announcing.step {action : Action} (h : setup.Announcing s) (hPlain : action.plain = true)
    (hStep : setup.step s action = some t) : setup.Announcing t := by
  cases step_turn hStep with
  | net hMoved => exact h.moved hMoved (by simpa [Action.plain] using hPlain)
  | pipeline hPiped => exact h.piped (pipelineStep_piped hPiped)
  | event _ hTaken => exact h.input hTaken
  | quiet hTaken => exact h.input hTaken
  | fees => cases hPlain
  | hydration idx slots hSame hIssued => exact (h.issueTicks (.hydration idx) slots).congr hIssued hSame
  | aside hSame hUntouched => exact h.congr hUntouched hSame

/-- A batch that waits to be announced has the base slots of all routes through its pools. -/
theorem Announcing.covered (h : setup.Announcing s) {batch : ChangedBatch} {todo : List Effect}
    (hStage : s.pipeline.stage = .prefetching batch todo) (hIdle : s.net.idle .pipeline = true) {pool id : Nat}
    (hPool : pool ∈ batch.pools) (hRoute : id ∈ setup.store.routesForPool pool) {key : SlotKey}
    (hKey : key ∈ setup.routeSlots id) : ((setup.view s.net).memo key).isSome = true := by
  have hCovers := h.covers
  rw [StageCovers, hStage] at hCovers
  have hNothing : s.net.reading (.memo, key) = 0 := reading_eq_zero (h.noMemoReads_of_idle hIdle) rfl
  rw [view, Option.isSome_map]
  apply (h.accounted (.memo, key) rfl).2.mpr
  rw [hNothing, List.countP_pos_iff]
  exact ⟨key, hCovers pool hPool id hRoute key hKey, decide_eq_true rfl⟩

theorem memo_of_piped (hPiped : Piped setup s t) {key : SlotKey} (hKeeps : setup.KeepsSlot s .pipeline key)
    (hStamp : (s.net.stamps (.memo, key)).isSome = true) : (t.net.stamps (.memo, key)).isSome = true := by
  cases hPiped with
  | @perform effect => cases effect <;> exact hStamp
  | @advance batch slots shard todo hStage =>
    unfold Setup.advance
    split
    · rename_i hShard
      have hOther := hKeeps rfl shard (by simp [clearing?, hStage, hShard])
      simpa [Net.clear, hOther] using hStamp
    · exact hStamp
  | _ => exact hStamp

/-- A slot of the memo is only lost to a clear of its shard. -/
theorem memo_of_step {action : Action} {key : SlotKey} (hKeeps : setup.KeepsSlot s action key)
    (hStep : setup.step s action = some t) (hMemo : ((setup.view s.net).memo key).isSome = true) :
    ((setup.view t.net).memo key).isSome = true := by
  rw [view, Option.isSome_map] at hMemo ⊢
  cases step_turn hStep with
  | net hMoved => exact hMoved.stamps_isSome hMemo
  | pipeline hStepped => exact memo_of_piped (pipelineStep_piped hStepped) hKeeps hMemo
  | event _ hTaken => exact (input_eq hTaken).2.1 ▸ hMemo
  | quiet hTaken => exact (input_eq hTaken).2.1 ▸ hMemo
  | fees _ hIssued => exact hIssued ▸ hMemo
  | hydration _ _ _ hIssued => exact hIssued ▸ hMemo
  | aside _ hUntouched => exact hUntouched ▸ hMemo

/-- Between announcements the evaluator only takes over what is queued. -/
theorem awaited_of_evaluatorStep {action : Action} (h : setup.evaluatorStep s action = some t) :
    ∀ pool ∈ awaited t, pool ∈ awaited s := by
  intro pool hPool
  unfold evaluatorStep at h
  split at h
  · rename_i hIdle hChanged
    cases h
    simp only [awaited, hIdle, hChanged, List.flatMap_cons, List.append_nil, List.mem_append] at hPool ⊢
    exact hPool.symm
  · rename_i hMerging hChanged
    cases h
    simp only [awaited, hMerging, hChanged, List.flatMap_cons, List.mem_append] at hPool ⊢
    tauto
  · rename_i hMerging hChanged
    cases h
    simpa only [awaited, hMerging] using hPool
  · rename_i hMerging hChanged
    cases h
    simp [awaited, hChanged] at hPool
  · split at h <;> cases h
    exact hPool
  · rename_i hEvaluating
    cases h
    simp only [awaited, List.append_nil, List.mem_append] at hPool ⊢
    exact .inl hPool
  · cases h

/-- What the fee poller and the evaluator work on. -/
def SameConsumers (s t : Runtime) : Prop := t.fees = s.fees ∧ t.changed = s.changed ∧ t.evaluator = s.evaluator

theorem SameConsumers.awaited_eq (h : SameConsumers s t) : awaited t = awaited s := by
  rw [awaited, awaited, h.2.1, h.2.2]

theorem resyncStep_consumers {action : Action} (h : setup.resyncStep s action = some t) : SameConsumers s t := by
  unfold resyncStep at h
  split at h
  · split at h <;> cases h
    exact ⟨rfl, rfl, rfl⟩
  · split at h <;> cases h
    exact ⟨rfl, rfl, rfl⟩
  · split at h
    · cases h
    · split at h
      · split at h <;> cases h <;> exact ⟨rfl, rfl, rfl⟩
      · cases h
  · split at h
    · split at h <;> cases h
      exact ⟨rfl, rfl, rfl⟩
    · cases h
  · split at h
    · split at h <;> cases h
      exact ⟨rfl, rfl, rfl⟩
    · cases h
  · cases h

/-- The pipeline adds the batch it announces; nothing else is added. -/
theorem awaited_of_piped (hPiped : Piped setup s t) : t.fees = s.fees ∧ (awaited t = awaited s ∨
    ∃ batch todo, s.pipeline.stage = .prefetching batch todo ∧ s.net.idle .pipeline = true ∧ t.net = s.net ∧
      ∀ pool ∈ awaited t, pool ∈ awaited s ∨ pool ∈ batch.pools) := by
  cases hPiped with
  | @perform effect => cases effect <;> exact ⟨rfl, .inl rfl⟩
  | advance =>
    unfold Setup.advance
    split <;> exact ⟨rfl, .inl rfl⟩
  | @announce batch todo hStage hIdle =>
    refine ⟨rfl, .inr ⟨batch, todo, hStage, hIdle, rfl, fun pool hPool => ?_⟩⟩
    simp only [awaited, List.flatMap_append, List.flatMap_singleton, List.mem_append] at hPool ⊢
    tauto
  | _ => exact ⟨rfl, .inl rfl⟩

variable (setup) in
/-- The fee poller has nothing to announce, and what is announced is covered. -/
structure Awaiting (s : Runtime) : Prop where
  announcing : setup.Announcing s
  fees : s.fees = none
  covered : setup.AwaitedCovered s

theorem Awaiting.booted (start : Nat) (hydrated : SlotKey → Bool) : setup.Awaiting (setup.booted start hydrated) :=
  ⟨.booted start hydrated, rfl, nofun⟩

/-- The slots of a pool that was awaited before the step are still there. -/
theorem Awaiting.still (h : setup.Awaiting s) {action : Action} (hKept : setup.ClearsNothingAwaited s action)
    (hStep : setup.step s action = some t) {pool id : Nat} (hPool : pool ∈ awaited s)
    (hRoute : id ∈ setup.store.routesForPool pool) {key : SlotKey} (hKey : key ∈ setup.routeSlots id) :
    ((setup.view t.net).memo key).isSome = true :=
  memo_of_step (hKept pool hPool id hRoute key hKey) hStep (h.covered pool hPool id hRoute key hKey)

theorem Awaiting.frame (h : setup.Awaiting s) {action : Action} (hKept : setup.ClearsNothingAwaited s action)
    (hPlain : action.plain = true) (hStep : setup.step s action = some t) (hFees : t.fees = s.fees)
    (hAwaited : ∀ pool ∈ awaited t, pool ∈ awaited s) : setup.Awaiting t :=
  ⟨h.announcing.step hPlain hStep, hFees.trans h.fees, fun _ hPool _ hRoute _ hKey =>
    h.still hKept hStep (hAwaited _ hPool) hRoute hKey⟩

theorem Awaiting.step (h : setup.Awaiting s) {action : Action} (hKept : setup.ClearsNothingAwaited s action)
    (hPlain : action.plain = true) (hStep : setup.step s action = some t) : setup.Awaiting t := by
  have hSame : SameConsumers s t → setup.Awaiting t := fun hSame =>
    h.frame hKept hPlain hStep hSame.1 fun pool hPool => hSame.awaited_eq ▸ hPool
  have hResync : setup.resyncStep s action = some t → setup.Awaiting t := fun hTurn => hSame (resyncStep_consumers hTurn)
  have hEvaluator : setup.evaluatorStep s action = some t → setup.Awaiting t := fun hTurn =>
    h.frame hKept hPlain hStep (evaluatorStep_frame hTurn).2.2.2 (awaited_of_evaluatorStep hTurn)
  cases action with
  | net m =>
    obtain ⟨net, -, rfl⟩ := Option.map_eq_some_iff.mp hStep
    exact hSame ⟨rfl, rfl, rfl⟩
  | deliver ev =>
    simp only [Setup.step, Option.ite_none_right_eq_some] at hStep
    exact hSame (input_frame hStep.2).2
  | quiet => exact hSame (input_frame hStep).2
  | pipeline =>
    obtain ⟨hFees, hSame | ⟨batch, todo, hStage, hIdle, hNet, hAdded⟩⟩ := awaited_of_piped (pipelineStep_piped hStep)
    · exact h.frame hKept hPlain hStep hFees fun pool hPool => hSame ▸ hPool
    · refine ⟨h.announcing.step hPlain hStep, hFees.trans h.fees, fun pool hPool id hRoute key hKey => ?_⟩
      rcases hAdded pool hPool with hOld | hNew
      · exact h.still hKept hStep hOld hRoute hKey
      · rw [hNet]
        exact h.announcing.covered hStage hIdle hNew hRoute hKey
  | receive => exact hResync hStep
  | flush => exact hResync hStep
  | startHydration i => exact hResync hStep
  | hydrateNets i => exact hResync hStep
  | finishHydration i => exact hResync hStep
  | feesChanged pools => cases hPlain
  | feesAnnounce =>
    simp only [Setup.step, h.fees] at hStep
    cases hStep
  | takeBatch => exact hEvaluator hStep
  | coalesce => exact hEvaluator hStep
  | beginBatch => exact hEvaluator hStep
  | dropBatch => exact hEvaluator hStep
  | evaluate id => exact hEvaluator hStep
  | finishBatch => exact hEvaluator hStep

theorem AwaitedCovered.evaluates (h : setup.AwaitedCovered s) (action : Action) : setup.EvaluatesCovered s action := by
  intro id hTaken key hKey
  unfold evaluated? at hTaken
  split at hTaken
  · rename_i hEvaluating
    split at hTaken <;> cases hTaken
    rename_i hRoute
    obtain ⟨pool, hPool, hRoute⟩ := List.mem_flatMap.mp (List.mem_dedup.mp hRoute)
    refine h pool ?_ id hRoute key hKey
    rw [awaited, hEvaluating]
    exact List.mem_append_right _ hPool
  · cases hTaken

/-- A clear of an awaited shard leaves an announced route without one of its slots. -/
theorem clearsNothingAwaited_of_leaves {action : Action} (h : setup.LeavesAwaitedCovered s action) :
    setup.ClearsNothingAwaited s action := by
  rintro pool hPool id hRoute key hKey rfl shard hShard hSame
  unfold clearing? at hShard
  split at hShard
  · rename_i batch slots k todo hStage
    obtain ⟨hLt, rfl⟩ : k < setup.shardCount ∧ k = shard := by simpa using hShard
    have hStep : setup.step s .pipeline = some (setup.advance s batch slots k todo) := by
      simp only [Setup.step, pipelineStep, hStage]
    rw [Setup.advance, if_pos hLt] at hStep
    have hCovered := h _ hStep pool hPool id hRoute key hKey
    rw [view] at hCovered
    simp [Net.clear, hSame] at hCovered
  · cases hShard

/-- In every run without failing reads and without the fee poller in which nothing is
cleared that an announced batch still waits for, each evaluated route finds all of its base
slots in the memo. To clear nothing of that kind is the same as to have every announced
route covered at all times until the evaluator is done with it. -/
theorem evaluated_routes_covered {start : Nat} {hydrated : SlotKey → Bool} {actions : List Action}
    (hPlain : ∀ action ∈ actions, action.plain = true) :
    (Each setup.step setup.ClearsNothingAwaited (setup.booted start hydrated) actions →
      Each setup.step setup.EvaluatesCovered (setup.booted start hydrated) actions) ∧
    (Each setup.step setup.ClearsNothingAwaited (setup.booted start hydrated) actions ↔
      Each setup.step setup.LeavesAwaitedCovered (setup.booted start hydrated) actions) := by
  have hBooted : setup.Awaiting (setup.booted start hydrated) := .booted start hydrated
  have hSteps : ∀ s action t, setup.Awaiting s → action.plain = true ∧ setup.ClearsNothingAwaited s action →
      setup.step s action = some t → setup.Awaiting t := fun s action t hInv hOk hStep => hInv.step hOk.2 hOk.1 hStep
  have hPlains : Each setup.step (fun _ action => action.plain = true) (setup.booted start hydrated) actions :=
    Each.of_forall hPlain _
  refine ⟨fun hKept => ?_, fun hKept => ?_, Each.mono fun _ _ => clearsNothingAwaited_of_leaves⟩
  · exact (hPlains.and hKept).imp hSteps (fun _ action hInv _ => hInv.covered.evaluates action) hBooted
  · exact (hPlains.and hKept).imp hSteps (fun _ _ hInv hOk t hStep => (hSteps _ _ t hInv hOk hStep).covered) hBooted

section Sample

/-- A cycle through pools 0 and 1, and a pool 2 on no route. -/
def cycleSetup : Setup where
  keccak := referenceKeccak
  chain _ _ := 1#256
  plans := [some (.v2Packed 7#160 8#256), some (.v2Packed 9#160 8#256), some (.v2Packed 11#160 8#256)]
  tickSpacing _ := 0
  store := .build [⟨0, 1#160, [⟨0, true, 1#160⟩, ⟨1, false, 2#160⟩]⟩] 3
  shardCount := 1
  shard _ := ⟨0, Nat.one_pos⟩

/-- Block 11 changes pool 0; its batch is announced with the reserves of the cycle in the memo. -/
def cycleAnnounced : List Action :=
  [.net .mine, .deliver (.poolLog 11 0 none), .net .mine, .deliver (.newHead 12 0 0), .pipeline, .pipeline, .pipeline,
    .net (.serve 0), .net (.serve 1), .net (.land 1), .net (.land 0), .pipeline, .pipeline, .pipeline]

/-- Block 12 changes pool 2, and the pipeline clears the memo for its batch. -/
def otherSealed : List Action :=
  [.deliver (.poolLog 12 2 none), .net .mine, .deliver (.newHead 13 0 0), .pipeline, .pipeline]

/-- The cycle is evaluated before the pipeline clears the memo for the next batch. -/
theorem cycle_evaluated_at_once :
    (run cycleSetup.step (cycleSetup.booted 10 fun _ => false)
      (cycleAnnounced ++ [.takeBatch, .beginBatch, .evaluate 0, .finishBatch] ++ otherSealed)).isSome = true ∧
    Each cycleSetup.step cycleSetup.EvaluatesCovered (cycleSetup.booted 10 fun _ => false)
      (cycleAnnounced ++ [.takeBatch, .beginBatch, .evaluate 0, .finishBatch] ++ otherSealed) :=
  ⟨by decide +kernel, (evaluated_routes_covered (by decide)).1 (by decide +kernel)⟩

/-- The announced cycle is evaluated after the next batch cleared the memo. -/
theorem cycle_evaluated_late :
    ¬∀ (setup : Setup) (start : Nat) (hydrated : SlotKey → Bool) (actions : List Action),
      (∀ action ∈ actions, action.plain = true) →
      Each setup.step setup.EvaluatesCovered (setup.booted start hydrated) actions := by
  intro hAll
  have hLate := hAll cycleSetup 10 (fun _ => false)
    (cycleAnnounced ++ otherSealed ++ [.takeBatch, .beginBatch, .evaluate 0]) (by decide)
  exact absurd hLate (by decide +kernel)

end Sample

end Setup

end Robinarb
