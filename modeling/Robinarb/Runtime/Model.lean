import Robinarb.Ingest.BatchLabels
import Robinarb.Library.InFlight
import Robinarb.Library.Runs
import Robinarb.Routing.Store

/-! # The running system

The tasks `run` spawns, the caches they share and the node they read from, one action at
a time. A storage read is served at the node's current block and its answer is inserted
later; the cap on concurrent reads only delays when a read is served. The caches are kept
as the block each entry was read at. The memo is cleared one shard of its map at a time.
-/

namespace Robinarb

open InFlight

inductive Table where
  | memo
  | tickCache
  deriving DecidableEq

abbrev Cell := Table × SlotKey

def IsMemo (cell : Cell) : Prop := cell.1 = .memo

instance : DecidablePred IsMemo := fun cell => inferInstanceAs (Decidable (cell.1 = .memo))

inductive Owner where
  | pipeline
  | feePoller
  | hydration (idx : Nat)
  deriving DecidableEq

/-- What does not change while the system runs. -/
structure Setup where
  keccak : Keccak
  chain : Nat → Storage
  plans : List (Option SlotPlan)
  tickSpacing : Nat → Int
  store : RouteStore
  shardCount : Nat
  shard : SlotKey → Fin shardCount

/-- Where the pipeline is. `todo` are the effects left of the current turn. -/
inductive PipelineStage where
  | running (todo : List Effect)
  | patchingWords (pool : TickPool) (ticks : List Int) (todo : List Effect)
  | patchingTicks (todo : List Effect)
  | advancing (batch : ChangedBatch) (slots : List SlotKey) (shard : Nat) (todo : List Effect)
  | prefetching (batch : ChangedBatch) (todo : List Effect)
  deriving DecidableEq

def PipelineStage.todo : PipelineStage → List Effect
  | .running todo | .patchingWords _ _ todo | .patchingTicks todo | .advancing _ _ _ todo | .prefetching _ todo => todo

/-- Kept for statements only: `asked`, the slots the pipeline has asked for since it last
cleared their shard, and `delivered`, the events it has taken. -/
structure PipelineTask where
  loop : PipelineState
  stage : PipelineStage
  tip : Nat
  engineHead : Nat
  asked : List SlotKey
  delivered : List IngestEvent

/-- A running `hydrate_cl_ticks_for_pool`, in its first or its second pass. -/
structure Hydration where
  idx : Nat
  since : Nat
  window : PoolWindow
  nets : Bool

/-- The resync loop; a pool goes with the block of the last event that queued it. -/
structure ResyncTask where
  queue : List (Nat × Nat)
  pending : List (Nat × Nat)
  waiting : List (Nat × Nat)
  running : List Hydration

inductive EvaluatorTask where
  | idle
  | merging (batch : ChangedBatch)
  | evaluating (batch : ChangedBatch)

structure Runtime where
  net : Net Cell Owner
  pipeline : PipelineTask
  resync : ResyncTask
  fees : Option (List Nat)
  changed : List ChangedBatch
  evaluator : EvaluatorTask

inductive Action where
  | net (move : Move)
  | deliver (ev : IngestEvent)
  | quiet
  | pipeline
  | receive
  | flush
  | startHydration (i : Nat)
  | hydrateNets (i : Nat)
  | finishHydration (i : Nat)
  | feesChanged (pools : List Nat)
  | feesAnnounce
  | takeBatch
  | coalesce
  | beginBatch
  | dropBatch
  | evaluate (id : Nat)
  | finishBatch
  deriving DecidableEq

/-- No read fails, and the fee poller has nothing to announce. -/
def Action.plain : Action → Bool
  | .net move => !move.isFail
  | .feesChanged _ => false
  | _ => true

def tickResyncCapacity : Nat := 4096
def changedCapacity : Nat := 1024
def concurrentHydrations : Nat := 16

/-- The pool set of a flush, each pool with its latest event. -/
def collapse (pending : List (Nat × Nat)) : List (Nat × Nat) :=
  (pending.map Prod.fst).dedup.map fun idx =>
    (idx, ((pending.filter fun entry => entry.1 = idx).map Prod.snd).foldl max 0)

def PipelineInput.events : PipelineInput → List IngestEvent
  | .event ev => [ev]
  | .quiet => []

def memoCells (slots : List SlotKey) : List Cell := slots.map fun key => (.memo, key)

def tickCells (slots : List SlotKey) : List Cell := slots.map fun key => (.tickCache, key)

def Runtime.at (s : Runtime) (stage : PipelineStage) : Runtime :=
  { s with pipeline := { s.pipeline with stage := stage } }

namespace Setup

variable (setup : Setup)

def view (net : Net Cell Owner) : ChainState where
  memo key := (net.stamps (.memo, key)).map fun n => setup.chain n key
  tickCache key := (net.stamps (.tickCache, key)).map fun n => setup.chain n key
  plans := setup.plans

def slotsOf (pools : List Nat) : List SlotKey :=
  pools.flatMap fun idx => ((setup.plans[idx]?.join).map ChainState.planSlots).getD []

/-- What `prefetch_neighborhood` asks for. -/
def neighborhoodSlots (dirty : List Nat) : List SlotKey := setup.slotsOf (setup.store.neighborhood dirty)

def allPools : List Nat := List.range setup.plans.length

/-- The window `prefetch_cl_tick_windows` computes for one pool. -/
def hydrationWindow (net : Net Cell Owner) (idx : Nat) : Option PoolWindow :=
  (setup.plans[idx]?.join).bind fun plan =>
    (setup.view net).clTickWindow bootstrapTickWordRange (plan, setup.tickSpacing idx)

def candidates (batch : ChangedBatch) : List Nat := (batch.pools.flatMap setup.store.routesForPool).dedup

/-- One effect of the pipeline, up to its first await. -/
def perform (s : Runtime) (todo : List Effect) : Effect → Runtime
  | .onNewHead _ => s.at (.running todo)
  | .setHead number =>
    { s with pipeline := { s.pipeline with engineHead := number, stage := .running todo } }
  | .patchClTicks pool ticks =>
    { s.at (.patchingWords pool ticks todo) with
      net := s.net.issue .pipeline (tickCells (pool.patchWordKeys setup.keccak ticks)) }
  | .queueTickResync idx block =>
    { s.at (.running todo) with
      resync := { s.resync with
        queue := if s.resync.queue.length < tickResyncCapacity then s.resync.queue ++ [(idx, block)]
          else s.resync.queue } }
  | .sealBatch block pools => s.at (.advancing ⟨block, pools⟩ (setup.neighborhoodSlots pools) 0 todo)
  | .resyncAll block => s.at (.advancing ⟨block, setup.allPools⟩ (setup.slotsOf setup.allPools) 0 todo)

/-- `advance_to`: one shard of the memo, or the tip and then the prefetch. -/
def advance (s : Runtime) (batch : ChangedBatch) (slots : List SlotKey) (shard : Nat) (todo : List Effect) : Runtime :=
  if shard < setup.shardCount then
    { s with
      net := s.net.clear fun cell => cell.1 = .memo ∧ setup.shard cell.2 = shard
      pipeline := { s.pipeline with
        stage := .advancing batch slots (shard + 1) todo
        asked := s.pipeline.asked.filter fun key => (setup.shard key : Nat) ≠ shard } }
  else
    { s with
      net := s.net.issue .pipeline (memoCells slots)
      pipeline := { s.pipeline with
        stage := .prefetching batch todo, tip := batch.block, asked := s.pipeline.asked ++ slots } }

/-- The next thing the pipeline does before it waits for an event. -/
def pipelineStep (s : Runtime) : Option Runtime :=
  match s.pipeline.stage with
  | .running [] => none
  | .running (effect :: todo) => some (setup.perform s todo effect)
  | .patchingWords pool ticks todo =>
    if s.net.idle .pipeline then
      some { s.at (.patchingTicks todo) with
        net := s.net.issue .pipeline (tickCells (pool.patchTickKeys setup.keccak (setup.view s.net) ticks)) }
    else none
  | .patchingTicks todo => if s.net.idle .pipeline then some (s.at (.running todo)) else none
  | .advancing batch slots shard todo => some (setup.advance s batch slots shard todo)
  | .prefetching batch todo =>
    if s.net.idle .pipeline ∧ s.changed.length < changedCapacity then
      some { s.at (.running todo) with changed := s.changed ++ [batch] }
    else none

/-- A turn of the loop begins when the pipeline waits for its next input. -/
def input (s : Runtime) (i : PipelineInput) : Option Runtime :=
  match s.pipeline.stage with
  | .running [] =>
    let turn := s.pipeline.loop.handle setup.plans setup.tickSpacing i
    some { s with
      pipeline := { s.pipeline with
        loop := turn.1, stage := .running turn.2, delivered := i.events ++ s.pipeline.delivered } }
  | _ => none

def resyncStep (s : Runtime) : Action → Option Runtime
  | .receive =>
    match s.resync.queue, s.resync.waiting, s.resync.running with
    | entry :: queue, [], [] =>
      some { s with resync := { s.resync with queue := queue, pending := s.resync.pending ++ [entry] } }
    | _, _, _ => none
  | .flush =>
    match s.resync.queue, s.resync.pending, s.resync.waiting, s.resync.running with
    | [], entry :: rest, [], [] =>
      some { s with resync := { s.resync with pending := [], waiting := collapse (entry :: rest) } }
    | _, _, _, _ => none
  | .startHydration i =>
    match s.resync.waiting[i]? with
    | none => none
    | some (idx, since) =>
      if s.resync.running.length < concurrentHydrations then
        match setup.hydrationWindow s.net idx with
        | none => some { s with resync := { s.resync with waiting := s.resync.waiting.eraseIdx i } }
        | some window =>
          some { s with
            net := s.net.issue (.hydration idx) (tickCells (ChainState.windowBitmapSlots setup.keccak [window]))
            resync := { s.resync with
              waiting := s.resync.waiting.eraseIdx i
              running := s.resync.running ++ [⟨idx, since, window, false⟩] } }
      else none
  | .hydrateNets i =>
    match s.resync.running[i]? with
    | some ⟨idx, since, window, false⟩ =>
      if s.net.idle (.hydration idx) then
        some { s with
          net := s.net.issue (.hydration idx)
            (tickCells ((setup.view s.net).windowTickSlots setup.keccak [window]))
          resync := { s.resync with running := s.resync.running.set i ⟨idx, since, window, true⟩ } }
      else none
    | _ => none
  | .finishHydration i =>
    match s.resync.running[i]? with
    | some ⟨idx, _, _, true⟩ =>
      if s.net.idle (.hydration idx) then
        some { s with resync := { s.resync with running := s.resync.running.eraseIdx i } }
      else none
    | _ => none
  | _ => none

def evaluatorStep (s : Runtime) (action : Action) : Option Runtime :=
  match action, s.evaluator, s.changed with
  | .takeBatch, .idle, batch :: changed => some { s with evaluator := .merging batch, changed := changed }
  | .coalesce, .merging batch, next :: changed =>
    some { s with
      evaluator := .merging ⟨max next.block batch.block, batch.pools ++ next.pools⟩, changed := changed }
  | .beginBatch, .merging batch, [] => some { s with evaluator := .evaluating batch }
  | .dropBatch, .merging _, [] => some { s with evaluator := .idle }
  | .evaluate id, .evaluating batch, _ => if id ∈ setup.candidates batch then some s else none
  | .finishBatch, .evaluating _, _ => some { s with evaluator := .idle }
  | _, _, _ => none

def step (s : Runtime) : Action → Option Runtime
  | .net move => (s.net.move move).map fun net => { s with net := net }
  | .deliver ev => if ev.block ≤ s.net.now then setup.input s (.event ev) else none
  | .quiet => setup.input s .quiet
  | .pipeline => setup.pipelineStep s
  | .feesChanged pools =>
    match s.fees with
    | none =>
      some { s with
        net := s.net.issue .feePoller (memoCells (setup.neighborhoodSlots pools)), fees := some pools }
    | some _ => none
  | .feesAnnounce =>
    match s.fees with
    | some pools =>
      if s.net.idle .feePoller ∧ s.changed.length < changedCapacity then
        some { s with fees := none, changed := s.changed ++ [⟨s.pipeline.engineHead, pools⟩] }
      else none
    | none => none
  | .receive => setup.resyncStep s .receive
  | .flush => setup.resyncStep s .flush
  | .startHydration i => setup.resyncStep s (.startHydration i)
  | .hydrateNets i => setup.resyncStep s (.hydrateNets i)
  | .finishHydration i => setup.resyncStep s (.finishHydration i)
  | .takeBatch => setup.evaluatorStep s .takeBatch
  | .coalesce => setup.evaluatorStep s .coalesce
  | .beginBatch => setup.evaluatorStep s .beginBatch
  | .dropBatch => setup.evaluatorStep s .dropBatch
  | .evaluate id => setup.evaluatorStep s (.evaluate id)
  | .finishBatch => setup.evaluatorStep s .finishBatch

/-- The system after the bootstrap at a block: the base slots of every planned pool and
the hydrated tick slots were read there. -/
def booted (start : Nat) (hydrated : SlotKey → Bool) : Runtime where
  net :=
    { now := start
      stamps := fun cell =>
        match cell.1 with
        | .memo => if cell.2 ∈ setup.slotsOf setup.allPools then some start else none
        | .tickCache => if hydrated cell.2 then some start else none
      flights := [] }
  pipeline := ⟨.initial, .running [], start, 0, setup.slotsOf setup.allPools, []⟩
  resync := ⟨[], [], [], []⟩
  fees := none
  changed := []
  evaluator := .idle

section Inversion

variable {setup} {s t : Runtime} {action : Action}

/-- What an action does to the node's side and to the pipeline. -/
inductive Turn (setup : Setup) (s : Runtime) : Action → Runtime → Prop where
  | net {m : Move} {net : Net Cell Owner} (moved : Net.Moved s.net m net) : Turn setup s (.net m) { s with net := net }
  | pipeline {t : Runtime} (stepped : setup.pipelineStep s = some t) : Turn setup s .pipeline t
  | event {ev : IngestEvent} {t : Runtime} (mined : ev.block ≤ s.net.now) (taken : setup.input s (.event ev) = some t) :
      Turn setup s (.deliver ev) t
  | quiet {t : Runtime} (taken : setup.input s .quiet = some t) : Turn setup s .quiet t
  | fees {pools : List Nat} {t : Runtime} (same : t.pipeline = s.pipeline)
      (issued : t.net = s.net.issue .feePoller (memoCells (setup.neighborhoodSlots pools))) :
      Turn setup s (.feesChanged pools) t
  | hydration {action : Action} {t : Runtime} (idx : Nat) (slots : List SlotKey) (same : t.pipeline = s.pipeline)
      (issued : t.net = s.net.issue (.hydration idx) (tickCells slots)) : Turn setup s action t
  | aside {action : Action} {t : Runtime} (same : t.pipeline = s.pipeline) (untouched : t.net = s.net) :
      Turn setup s action t

theorem resyncStep_turn (h : setup.resyncStep s action = some t) : Turn setup s action t := by
  unfold resyncStep at h
  split at h
  · split at h <;> cases h
    exact .aside rfl rfl
  · split at h <;> cases h
    exact .aside rfl rfl
  · split at h
    · cases h
    · split at h
      · split at h <;> cases h
        · exact .aside rfl rfl
        · exact .hydration _ _ rfl rfl
      · cases h
  · split at h
    · split at h <;> cases h
      exact .hydration _ _ rfl rfl
    · cases h
  · split at h
    · split at h <;> cases h
      exact .aside rfl rfl
    · cases h
  · cases h

theorem evaluatorStep_frame (h : setup.evaluatorStep s action = some t) :
    t.net = s.net ∧ t.pipeline = s.pipeline ∧ t.resync = s.resync ∧ t.fees = s.fees := by
  unfold evaluatorStep at h
  split at h
  · cases h
    exact ⟨rfl, rfl, rfl, rfl⟩
  · cases h
    exact ⟨rfl, rfl, rfl, rfl⟩
  · cases h
    exact ⟨rfl, rfl, rfl, rfl⟩
  · cases h
    exact ⟨rfl, rfl, rfl, rfl⟩
  · split at h <;> cases h
    exact ⟨rfl, rfl, rfl, rfl⟩
  · cases h
    exact ⟨rfl, rfl, rfl, rfl⟩
  · cases h

theorem evaluatorStep_turn (h : setup.evaluatorStep s action = some t) : Turn setup s action t :=
  .aside (evaluatorStep_frame h).2.1 (evaluatorStep_frame h).1

theorem input_frame {i : PipelineInput} (h : setup.input s i = some t) :
    t.resync = s.resync ∧ t.fees = s.fees ∧ t.changed = s.changed ∧ t.evaluator = s.evaluator := by
  unfold input at h
  split at h <;> cases h
  exact ⟨rfl, rfl, rfl, rfl⟩

theorem step_turn (h : setup.step s action = some t) : Turn setup s action t := by
  cases action with
  | net m =>
    obtain ⟨net, hMove, rfl⟩ := Option.map_eq_some_iff.mp h
    exact .net (Net.moved_of_move hMove)
  | deliver ev =>
    simp only [step] at h
    split at h
    · exact .event ‹_› h
    · cases h
  | quiet => exact .quiet h
  | pipeline => exact .pipeline h
  | feesChanged pools =>
    simp only [step] at h
    split at h <;> cases h
    exact .fees rfl rfl
  | feesAnnounce =>
    simp only [step] at h
    split at h
    · split at h <;> cases h
      exact .aside rfl rfl
    · cases h
  | receive => exact resyncStep_turn h
  | flush => exact resyncStep_turn h
  | startHydration i => exact resyncStep_turn h
  | hydrateNets i => exact resyncStep_turn h
  | finishHydration i => exact resyncStep_turn h
  | takeBatch => exact evaluatorStep_turn h
  | coalesce => exact evaluatorStep_turn h
  | beginBatch => exact evaluatorStep_turn h
  | dropBatch => exact evaluatorStep_turn h
  | evaluate id => exact evaluatorStep_turn h
  | finishBatch => exact evaluatorStep_turn h

/-- The steps of the pipeline between two inputs. -/
inductive Piped (setup : Setup) (s : Runtime) : Runtime → Prop where
  | perform {effect : Effect} {todo : List Effect} (stage : s.pipeline.stage = .running (effect :: todo)) :
      Piped setup s (setup.perform s todo effect)
  | nets {pool : TickPool} {ticks : List Int} {todo : List Effect}
      (stage : s.pipeline.stage = .patchingWords pool ticks todo) (idle : s.net.idle .pipeline = true) :
      Piped setup s { s.at (.patchingTicks todo) with
        net := s.net.issue .pipeline (tickCells (pool.patchTickKeys setup.keccak (setup.view s.net) ticks)) }
  | patched {todo : List Effect} (stage : s.pipeline.stage = .patchingTicks todo)
      (idle : s.net.idle .pipeline = true) : Piped setup s (s.at (.running todo))
  | advance {batch : ChangedBatch} {slots : List SlotKey} {shard : Nat} {todo : List Effect}
      (stage : s.pipeline.stage = .advancing batch slots shard todo) :
      Piped setup s (setup.advance s batch slots shard todo)
  | announce {batch : ChangedBatch} {todo : List Effect} (stage : s.pipeline.stage = .prefetching batch todo)
      (idle : s.net.idle .pipeline = true) :
      Piped setup s { s.at (.running todo) with changed := s.changed ++ [batch] }

theorem pipelineStep_piped (h : setup.pipelineStep s = some t) : Piped setup s t := by
  unfold pipelineStep at h
  split at h
  · cases h
  · cases h
    exact .perform ‹_›
  · split at h <;> cases h
    exact .nets ‹_› ‹_›
  · split at h <;> cases h
    exact .patched ‹_› ‹_›
  · cases h
    exact .advance ‹_›
  · split at h
    · rename_i hStage hReady
      cases h
      exact .announce hStage hReady.1
    · cases h

theorem input_eq {i : PipelineInput} (h : setup.input s i = some t) :
    s.pipeline.stage = .running [] ∧ t.net = s.net ∧ t.pipeline =
      { s.pipeline with
        loop := (s.pipeline.loop.handle setup.plans setup.tickSpacing i).1
        stage := .running (s.pipeline.loop.handle setup.plans setup.tickSpacing i).2
        delivered := i.events ++ s.pipeline.delivered } := by
  unfold input at h
  split at h
  · cases h
    exact ⟨‹_›, rfl, rfl⟩
  · cases h

theorem step_net (h : setup.step s action = some t) :
    (∃ m, Net.Moved s.net m t.net) ∨ t.net = s.net ∨ (∃ owner cells, t.net = s.net.issue owner cells) ∨
      ∃ p, t.net = s.net.clear p := by
  cases step_turn h with
  | net hMoved => exact .inl ⟨_, hMoved⟩
  | pipeline hStepped =>
    cases pipelineStep_piped hStepped with
    | @perform effect =>
      cases effect with
      | patchClTicks pool ticks => exact .inr (.inr (.inl ⟨_, _, rfl⟩))
      | _ => exact .inr (.inl rfl)
    | nets => exact .inr (.inr (.inl ⟨_, _, rfl⟩))
    | patched => exact .inr (.inl rfl)
    | advance =>
      unfold Setup.advance
      split
      · exact .inr (.inr (.inr ⟨_, rfl⟩))
      · exact .inr (.inr (.inl ⟨_, _, rfl⟩))
    | announce => exact .inr (.inl rfl)
  | event _ hTaken => exact .inr (.inl (input_eq hTaken).2.1)
  | quiet hTaken => exact .inr (.inl (input_eq hTaken).2.1)
  | fees _ hIssued => exact .inr (.inr (.inl ⟨_, _, hIssued⟩))
  | hydration _ _ _ hIssued => exact .inr (.inr (.inl ⟨_, _, hIssued⟩))
  | aside _ hUntouched => exact .inr (.inl hUntouched)

theorem step_now_le (h : setup.step s action = some t) : s.net.now ≤ t.net.now := by
  obtain ⟨m, hMoved⟩ | hNet | ⟨owner, cells, hNet⟩ | ⟨p, hNet⟩ := step_net h
  · exact hMoved.now_le
  · exact (congrArg Net.now hNet).ge
  · exact (congrArg Net.now hNet).ge
  · exact (congrArg Net.now hNet).ge

theorem step_upToNow (hNow : UpToNow s.net) (h : setup.step s action = some t) : UpToNow t.net := by
  obtain ⟨m, hMoved⟩ | hNet | ⟨owner, cells, hNet⟩ | ⟨p, hNet⟩ := step_net h
  · exact hMoved.upToNow hNow
  · exact hNet ▸ hNow
  · exact hNet ▸ hNow.issue owner cells
  · exact hNet ▸ hNow.clear p

theorem booted_stamp {start : Nat} {hydrated : SlotKey → Bool} {cell : Cell} {n : Nat}
    (h : (setup.booted start hydrated).net.stamps cell = some n) : n = start := by
  obtain ⟨table, key⟩ := cell
  cases table with
  | memo =>
    simp only [booted, Option.ite_none_right_eq_some, Option.some.injEq] at h
    exact h.2.symm
  | tickCache =>
    simp only [booted, Option.ite_none_right_eq_some, Option.some.injEq] at h
    exact h.2.symm

theorem booted_upToNow (start : Nat) (hydrated : SlotKey → Bool) : UpToNow (setup.booted start hydrated).net :=
  ⟨nofun, fun _ _ hStamp => (booted_stamp hStamp).le⟩

end Inversion

end Setup

end Robinarb
