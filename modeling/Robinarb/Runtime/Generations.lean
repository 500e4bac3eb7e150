import Robinarb.Runtime.Model
import Robinarb.State.SamplePool

/-! # Generations of the memo

After `advance_to` every entry of the memo should be of the new tip or later. Clearing
the memo does not cancel the reads in flight; the entries are of the tip as long as no
read that was answered before it is still in flight when its shard is cleared.
-/

namespace Robinarb

open InFlight InFlight.Net Runs

/-- A bound on the blocks the loop knows bounds the tips its next turn publishes. -/
theorem PipelineState.handle_le (plans : List (Option SlotPlan)) (tickSpacing : Nat → Int) {s : PipelineState}
    {bound : Nat} (hOpen : s.openBlock ≤ bound) (hHead : s.head ≤ bound) {i : PipelineInput}
    (hInput : ∀ ev, i = .event ev → ev.block ≤ bound) :
    (s.handle plans tickSpacing i).1.openBlock ≤ bound ∧ (s.handle plans tickSpacing i).1.head ≤ bound ∧
      ∀ effect ∈ (s.handle plans tickSpacing i).2, ∀ block, effect.tip? = some block → block ≤ bound := by
  have hSeal : s.sealBatch.1.openBlock = s.openBlock ∧ s.sealBatch.1.head = s.head ∧
      ∀ effect ∈ s.sealBatch.2, ∀ block, effect.tip? = some block → block ≤ bound := by
    obtain ⟨-, hSeal⟩ | ⟨-, hSeal⟩ := s.sealBatch_cases
    · rw [hSeal]
      exact ⟨rfl, rfl, nofun⟩
    · rw [hSeal]
      refine ⟨rfl, rfl, fun effect hMem block hTip => ?_⟩
      obtain rfl := List.mem_singleton.mp hMem
      cases hTip
      exact hOpen
  obtain ⟨hSealOpen, hSealHead, hSealTips⟩ := hSeal
  cases i with
  | quiet =>
    simp only [handle]
    split
    · exact ⟨hSealOpen ▸ hOpen, hSealHead ▸ hHead, hSealTips⟩
    · exact ⟨hOpen, hHead, nofun⟩
  | event ev =>
    have hBlock := hInput ev rfl
    cases ev with
    | newHead number timestamp fee =>
      refine ⟨hBlock, hBlock, ?_⟩
      intro effect hMem block hTip
      obtain hSealed | hRest := List.mem_append.mp hMem
      · split at hSealed
        · exact hSealTips effect hSealed block hTip
        · cases hSealed
      · obtain rfl | hRest := List.mem_cons.mp hRest
        · cases hTip
        · obtain rfl := List.mem_singleton.mp hRest
          cases hTip
    | poolLog block idx ticks =>
      have hTicks : ∀ effect ∈ tickEffects plans tickSpacing block idx ticks, ∀ tip, effect.tip? = some tip →
          tip ≤ bound := by
        intro effect hMem tip hTip
        rw [Labelling.tickEffects_label hMem] at hTip
        cases hTip
      simp only [handle]
      obtain ⟨-, -, hFor⟩ | ⟨-, -, hFor⟩ | ⟨-, hFor⟩ := s.openFor_cases block
      · rw [hFor]
        refine ⟨hBlock, hSealHead ▸ hHead, fun effect hMem => ?_⟩
        obtain hSealed | hRest := List.mem_append.mp hMem
        · exact hSealTips effect hSealed
        · exact hTicks effect hRest
      · rw [hFor]
        exact ⟨hBlock, hHead, hTicks⟩
      · rw [hFor]
        exact ⟨hOpen, hHead, hTicks⟩
    | resync =>
      refine ⟨hOpen, hHead, fun effect hMem block hTip => ?_⟩
      obtain rfl := List.mem_singleton.mp hMem
      cases hTip
      exact max_le hOpen hHead

def PipelineStage.Outside : PipelineStage → Prop
  | .advancing _ _ _ _ => False
  | _ => True

instance : DecidablePred PipelineStage.Outside
  | .advancing _ _ _ _ => .isFalse id
  | .running _ | .patchingWords _ _ _ | .patchingTicks _ | .prefetching _ _ => .isTrue trivial

def PipelineStage.clearing? : PipelineStage → Option (Nat × Nat)
  | .advancing batch _ shard _ => some (batch.block, shard)
  | _ => none

namespace Setup

/-- The block the memo is at, or is being advanced to. -/
def floor (pipeline : PipelineTask) : Nat :=
  match pipeline.stage with
  | .advancing batch _ _ _ => batch.block
  | _ => pipeline.tip

variable (setup : Setup)

/-- The memo cells that are no longer to be cleared. -/
def Settled (pipeline : PipelineTask) (cell : Cell) : Prop :=
  IsMemo cell ∧ match pipeline.stage with
    | .advancing _ _ shard _ => (setup.shard cell.2 : Nat) < shard
    | _ => True

/-- When a shard of the memo is cleared for a block, no read into that shard that was
answered before the block is still in flight. -/
def ClearsClean (s : Runtime) (action : Action) : Prop :=
  action = .pipeline → ∀ clearing ∈ s.pipeline.stage.clearing?,
    ServedFrom (fun cell => IsMemo cell ∧ (setup.shard cell.2 : Nat) = clearing.2) clearing.1 s.net

instance (s : Runtime) (action : Action) : Decidable (setup.ClearsClean s action) :=
  inferInstanceAs (Decidable (action = .pipeline → _))

structure Generation (s : Runtime) : Prop where
  openBlock_le : s.pipeline.loop.openBlock ≤ s.net.now
  head_le : s.pipeline.loop.head ≤ s.net.now
  todo_le : ∀ effect ∈ s.pipeline.stage.todo, ∀ block, effect.tip? = some block → block ≤ s.net.now
  floor_le : floor s.pipeline ≤ s.net.now
  current : UpToNow s.net
  served : ServedFrom (setup.Settled s.pipeline) (floor s.pipeline) s.net
  stamped : StampedFrom (setup.Settled s.pipeline) (floor s.pipeline) s.net

variable {setup} {s t : Runtime}

theorem Generation.booted (start : Nat) (hydrated : SlotKey → Bool) :
    setup.Generation (setup.booted start hydrated) := by
  constructor
  · exact Nat.zero_le _
  · exact Nat.zero_le _
  · exact nofun
  · exact Nat.le_refl _
  · exact booted_upToNow start hydrated
  · exact nofun
  · exact fun cell _ n hStamp => (booted_stamp hStamp).ge

theorem Generation.moved (h : setup.Generation s) {m : Move} {net : Net Cell Owner} (hMoved : Net.Moved s.net m net) :
    setup.Generation { s with net := net } := by
  have hNow := hMoved.now_le
  constructor
  · exact h.openBlock_le.trans hNow
  · exact h.head_le.trans hNow
  · exact fun effect hMem block hTip => (h.todo_le effect hMem block hTip).trans hNow
  · exact h.floor_le.trans hNow
  · exact hMoved.upToNow h.current
  · exact hMoved.servedFrom h.floor_le h.served
  · exact hMoved.stampedFrom h.served h.stamped

theorem Generation.issue (h : setup.Generation s) (owner : Owner) (cells : List Cell) :
    setup.Generation { s with net := s.net.issue owner cells } where
  openBlock_le := h.openBlock_le
  head_le := h.head_le
  todo_le := h.todo_le
  floor_le := h.floor_le
  current := h.current.issue owner cells
  served := h.served.issue owner cells
  stamped := h.stamped

theorem Generation.congr (h : setup.Generation s) (hNet : t.net = s.net) (hPipeline : t.pipeline = s.pipeline) :
    setup.Generation t := by
  obtain ⟨hOpen, hHead, hTodo, hFloor, hCurrent, hServed, hStamped⟩ := h
  rw [← hNet, ← hPipeline] at *
  exact ⟨hOpen, hHead, hTodo, hFloor, hCurrent, hServed, hStamped⟩

theorem floor_of_outside {pipeline : PipelineTask} (h : pipeline.stage.Outside) : floor pipeline = pipeline.tip := by
  unfold floor
  split
  · rename_i hStage
    rw [hStage] at h
    exact h.elim
  · rfl

theorem settled_of_outside {pipeline : PipelineTask} (h : pipeline.stage.Outside) {cell : Cell}
    (hMemo : IsMemo cell) : setup.Settled pipeline cell := by
  refine ⟨hMemo, ?_⟩
  split
  · rename_i hStage
    rw [hStage] at h
    exact h.elim
  · trivial

/-- Outside of an advance the stage does not matter, but for the effects still to come. -/
theorem Generation.restage (h : setup.Generation s) (stage : PipelineStage) (hFrom : s.pipeline.stage.Outside)
    (hTo : stage.Outside) (hTodo : ∀ effect ∈ stage.todo, effect ∈ s.pipeline.stage.todo) :
    setup.Generation (s.at stage) := by
  have hFloor : floor (s.at stage).pipeline = floor s.pipeline := by
    rw [floor_of_outside hFrom, floor_of_outside (show (s.at stage).pipeline.stage.Outside from hTo)]
    rfl
  constructor
  · exact h.openBlock_le
  · exact h.head_le
  · exact fun effect hMem => h.todo_le effect (hTodo effect hMem)
  · exact hFloor ▸ h.floor_le
  · exact h.current
  · rw [hFloor]
    exact h.served.mono fun cell hCell => settled_of_outside hFrom hCell.1
  · rw [hFloor]
    exact fun cell hCell => h.stamped cell (settled_of_outside hFrom hCell.1)

theorem Generation.withHead (h : setup.Generation s) (number : Nat) :
    setup.Generation { s with pipeline := { s.pipeline with engineHead := number } } :=
  ⟨h.openBlock_le, h.head_le, h.todo_le, h.floor_le, h.current, h.served, h.stamped⟩

theorem Generation.begin (h : setup.Generation s) {effect : Effect} {todo : List Effect}
    (hStage : s.pipeline.stage = .running (effect :: todo)) {block : Nat} (hTip : effect.tip? = some block)
    (pools : List Nat) (slots : List SlotKey) :
    setup.Generation (s.at (.advancing ⟨block, pools⟩ slots 0 todo)) where
  openBlock_le := h.openBlock_le
  head_le := h.head_le
  todo_le := fun other hMem => h.todo_le other (by
    rw [hStage]
    exact List.mem_cons_of_mem _ hMem)
  floor_le := h.todo_le effect (by
    rw [hStage]
    exact List.mem_cons_self) block hTip
  current := h.current
  served := fun _ _ hCell => absurd hCell.2 (Nat.not_lt_zero _)
  stamped := fun _ hCell => absurd hCell.2 (Nat.not_lt_zero _)

theorem Generation.advance (h : setup.Generation s) {batch : ChangedBatch} {slots : List SlotKey} {shard : Nat}
    {todo : List Effect} (hStage : s.pipeline.stage = .advancing batch slots shard todo)
    (hClean : setup.ClearsClean s .pipeline) : setup.Generation (setup.advance s batch slots shard todo) := by
  have hBlock : floor s.pipeline = batch.block := by rw [floor, hStage]
  have hTodo : s.pipeline.stage.todo = todo := by rw [hStage, PipelineStage.todo]
  have hFloor : batch.block ≤ s.net.now := hBlock ▸ h.floor_le
  have hSettled : ∀ cell, IsMemo cell → (setup.shard cell.2 : Nat) < shard → setup.Settled s.pipeline cell :=
    fun cell hMemo hLt => ⟨hMemo, by rw [hStage]; exact hLt⟩
  have hServed : ServedFrom (fun cell => IsMemo cell ∧ (setup.shard cell.2 : Nat) < shard) batch.block s.net :=
    hBlock ▸ h.served.mono fun cell hCell => hSettled cell hCell.1 hCell.2
  have hStamped : ∀ cell, IsMemo cell → (setup.shard cell.2 : Nat) < shard → ∀ n,
      s.net.stamps cell = some n → batch.block ≤ n := by
    intro cell hMemo hLt
    rw [← hBlock]
    exact h.stamped cell (hSettled cell hMemo hLt)
  unfold Setup.advance
  split
  · refine ⟨h.openBlock_le, h.head_le, hTodo ▸ h.todo_le, hFloor, h.current.clear _, ?_, ?_⟩
    · intro f hMem hCell
      have hShard : (setup.shard f.cell.2 : Nat) < shard + 1 := hCell.2
      obtain hEq | hLt := Nat.eq_or_lt_of_le (Nat.le_of_lt_succ hShard)
      · exact hClean rfl (batch.block, shard) (by rw [hStage]; rfl) f hMem ⟨hCell.1, hEq⟩
      · exact hServed f hMem ⟨hCell.1, hLt⟩
    · intro cell hCell n hStamp
      have hShard : (setup.shard cell.2 : Nat) < shard + 1 := hCell.2
      simp only [Net.clear] at hStamp
      split at hStamp
      · cases hStamp
      · rename_i hKept
        have hNot : (setup.shard cell.2 : Nat) ≠ shard := fun hEq => hKept (by simpa using ⟨hCell.1, hEq⟩)
        exact hStamped cell hCell.1 (by omega) n hStamp
  · have hAll : ∀ key, (setup.shard key : Nat) < shard := by
      intro key
      have hShard := (setup.shard key).isLt
      omega
    refine ⟨h.openBlock_le, h.head_le, hTodo ▸ h.todo_le, hFloor, h.current.issue _ _, ?_, ?_⟩
    · exact (hServed.mono fun cell hCell => ⟨hCell.1, hAll cell.2⟩).issue _ _
    · exact fun cell hCell => hStamped cell hCell.1 (hAll cell.2)

theorem Generation.piped (h : setup.Generation s) (hClean : setup.ClearsClean s .pipeline)
    (hPiped : Piped setup s t) : setup.Generation t := by
  cases hPiped with
  | @perform effect todo hStage =>
    have hOutside : s.pipeline.stage.Outside := by
      rw [hStage]
      trivial
    have hTail : ∀ other ∈ todo, other ∈ s.pipeline.stage.todo := by
      rw [hStage]
      exact fun other => List.mem_cons_of_mem _
    cases effect with
    | onNewHead fee => exact h.restage (.running todo) hOutside trivial hTail
    | setHead number => exact (h.restage (.running todo) hOutside trivial hTail).withHead number
    | patchClTicks pool ticks =>
      exact (h.restage (.patchingWords pool ticks todo) hOutside trivial hTail).issue .pipeline _
    | queueTickResync idx block => exact (h.restage (.running todo) hOutside trivial hTail).congr rfl rfl
    | sealBatch block pools => exact h.begin hStage rfl _ _
    | resyncAll block => exact h.begin hStage rfl _ _
  | @nets pool ticks todo hStage =>
    refine (h.restage (.patchingTicks todo) ?_ trivial ?_).issue .pipeline _
    · rw [hStage]
      trivial
    · rw [hStage]
      exact fun _ => id
  | @patched todo hStage =>
    refine h.restage (.running todo) ?_ trivial ?_
    · rw [hStage]
      trivial
    · rw [hStage]
      exact fun _ => id
  | advance hStage => exact h.advance hStage hClean
  | @announce batch todo hStage =>
    refine (h.restage (.running todo) ?_ trivial ?_).congr rfl rfl
    · rw [hStage]
      trivial
    · rw [hStage]
      exact fun _ => id

/-- A turn of the loop publishes no block that has not been mined. -/
theorem Generation.input (h : setup.Generation s) {i : PipelineInput}
    (hInput : ∀ ev, i = .event ev → ev.block ≤ s.net.now) (hTaken : setup.input s i = some t) :
    setup.Generation t := by
  obtain ⟨hStage, hNet, hPipeline⟩ := input_eq hTaken
  obtain ⟨hOpen, hHead, hTips⟩ := PipelineState.handle_le setup.plans
    setup.tickSpacing h.openBlock_le h.head_le hInput
  have hOutside : s.pipeline.stage.Outside := by
    rw [hStage]
    trivial
  have hFloor : floor t.pipeline = floor s.pipeline := by
    rw [floor_of_outside hOutside, hPipeline]
    rfl
  constructor
  · rw [hNet, hPipeline]
    exact hOpen
  · rw [hNet, hPipeline]
    exact hHead
  · rw [hNet, hPipeline]
    exact hTips
  · rw [hFloor, hNet]
    exact h.floor_le
  · exact hNet ▸ h.current
  · rw [hFloor, hNet]
    exact h.served.mono fun cell hCell => settled_of_outside hOutside hCell.1
  · rw [hFloor, hNet]
    exact fun cell hCell => h.stamped cell (settled_of_outside hOutside hCell.1)

theorem Generation.step {action : Action} (h : setup.Generation s) (hClean : setup.ClearsClean s action)
    (hStep : setup.step s action = some t) : setup.Generation t := by
  cases step_turn hStep with
  | net hMoved => exact h.moved hMoved
  | pipeline hPiped => exact h.piped hClean (pipelineStep_piped hPiped)
  | event hMined hTaken =>
    refine h.input ?_ hTaken
    rintro ev ⟨⟩
    exact hMined
  | quiet hTaken => exact h.input (fun ev hEvent => by cases hEvent) hTaken
  | fees hSame hIssued => exact (h.issue .feePoller _).congr hIssued hSame
  | hydration idx slots hSame hIssued => exact (h.issue (.hydration idx) (tickCells slots)).congr hIssued hSame
  | aside hSame hUntouched => exact h.congr hUntouched hSame

/-- In every run in which no read into a shard of the memo that was answered before a block
is in flight when the shard is cleared for that block: once `advance_to` has returned and until the
next one, every entry of the memo is the value of its slot at the tip or later. -/
theorem memo_of_one_generation {start : Nat} {hydrated : SlotKey → Bool} {actions : List Action}
    (hRun : run setup.step (setup.booted start hydrated) actions = some s)
    (hClean : Each setup.step setup.ClearsClean (setup.booted start hydrated) actions)
    (hOutside : s.pipeline.stage.Outside) :
    ∀ key value, (setup.view s.net).memo key = some value →
      ∃ n, s.pipeline.tip ≤ n ∧ n ≤ s.net.now ∧ value = setup.chain n key := by
  have hGeneration : setup.Generation s :=
    hClean.invariant (fun s action t h => h.step) hRun (Generation.booted start hydrated)
  intro key value hValue
  obtain ⟨n, hStamp, rfl⟩ := Option.map_eq_some_iff.mp hValue
  refine ⟨n, ?_, hGeneration.current.stamped _ n hStamp, rfl⟩
  rw [← floor_of_outside hOutside]
  exact hGeneration.stamped (.memo, key) (settled_of_outside hOutside rfl) n hStamp

section Sample

/-- One pool of two reserve slots, both written in block 11. -/
def reserveSetup : Setup where
  keccak := referenceKeccak
  chain n _ := if n < 11 then 5#256 else 6#256
  plans := [some (.v2TwoSlot 7#160 8#256)]
  tickSpacing _ := 0
  store := .build [] 1
  shardCount := 1
  shard _ := ⟨0, Nat.one_pos⟩

/-- A log of block 11 and the next head; the pipeline advances to block 11 and asks for the reserves. -/
def reserveSeal : List Action :=
  [.net .mine, .deliver (.poolLog 11 0 none), .net .mine, .deliver (.newHead 12 0 0), .pipeline, .pipeline, .pipeline]

/-- The fee poller's reads are answered and inserted before the seal. -/
def readsBefore : List Action :=
  [.feesChanged [0], .net (.serve 0), .net (.serve 1), .net (.land 0), .net (.land 0)] ++ reserveSeal ++
    [.net (.serve 0), .net (.land 0)]

theorem reserves_of_one_generation :
    ∃ s, run reserveSetup.step (reserveSetup.booted 10 fun _ => false) readsBefore = some s ∧ s.pipeline.tip = 11 ∧
      ∀ key value, (reserveSetup.view s.net).memo key = some value →
        ∃ n, s.pipeline.tip ≤ n ∧ n ≤ s.net.now ∧ value = reserveSetup.chain n key := by
  have hEnd : (run reserveSetup.step (reserveSetup.booted 10 fun _ => false) readsBefore).any
      (fun s => s.pipeline.stage.Outside ∧ s.pipeline.tip = 11) = true := by decide +kernel
  have hClean : Each reserveSetup.step reserveSetup.ClearsClean (reserveSetup.booted 10 fun _ => false)
      readsBefore := by decide +kernel
  obtain ⟨s, hRun, hOutside⟩ := (Option.any_eq_true _ _).mp hEnd
  rw [decide_eq_true_eq] at hOutside
  exact ⟨s, hRun, hOutside.2, memo_of_one_generation hRun hClean hOutside.1⟩

/-- The fee poller's first read is answered at block 10 and inserted after the memo was
advanced to block 11. -/
theorem fee_read_outlives_clear :
    ¬∀ (setup : Setup) (start : Nat) (hydrated : SlotKey → Bool) (actions : List Action) (s : Runtime),
      run setup.step (setup.booted start hydrated) actions = some s → s.pipeline.stage.Outside →
      ∀ key value, (setup.view s.net).memo key = some value → ∃ n, s.pipeline.tip ≤ n ∧ value = setup.chain n key := by
  intro hAll
  have hEnd : (run reserveSetup.step (reserveSetup.booted 10 fun _ => false)
      ([.feesChanged [0], .net (.serve 0)] ++ reserveSeal ++ [.net (.land 0)])).any
      (fun s => s.pipeline.stage.Outside ∧ s.pipeline.tip = 11 ∧
        (reserveSetup.view s.net).memo (7#160, 8#256) = some 5#256) = true := by decide +kernel
  obtain ⟨s, hRun, hStale⟩ := (Option.any_eq_true _ _).mp hEnd
  obtain ⟨hOutside, hTip, hValue⟩ := of_decide_eq_true hStale
  obtain ⟨n, hLe, hEq⟩ := hAll _ _ _ _ s hRun hOutside _ _ hValue
  have hLate : ¬n < 11 := by omega
  simp [reserveSetup, hLate] at hEq

end Sample

end Setup

end Robinarb
