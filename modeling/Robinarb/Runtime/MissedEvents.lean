import Robinarb.Runtime.TickWrites

/-! # A resync that stands in for missed events

Events that never reach the pipeline are answered with a resync. It asks for the base slots
of every pool and for no tick slot: what the missed events changed is only right in the tick
cache where it was read since.
-/

namespace Robinarb

open InFlight InFlight.Net Runs

/-- The cell has no entry older than a block, and no older answer for it is in flight. -/
structure KnownSince (net : Net Cell Owner) (block : Nat) (cell : Cell) : Prop where
  stamped : StampedFrom (· = cell) block net
  served : ServedFrom (· = cell) block net

/-- The pipeline takes no further input. -/
def Action.noInput : Action → Bool
  | .deliver _ | .quiet => false
  | _ => true

/-- A patch has asked for its bitmap words, and its nets are to follow. -/
def PipelineStage.awaitsWords : PipelineStage → Bool
  | .patchingWords _ _ _ => true
  | _ => false

namespace Setup

variable (setup : Setup)

/-- The events were mined, and their slots have been read since or are not cached. -/
def CaughtUp (net : Net Cell Owner) (missed : List IngestEvent) : Prop :=
  ∀ ev ∈ missed, ev.block ≤ net.now ∧
    ∀ key, Touches setup.keccak setup.plans setup.tickSpacing ev key → KnownSince net ev.block (.tickCache, key)

/-- The pipeline answers a resync, and nothing else is under way that reads tick slots. -/
structure Resyncing (ticks : SlotKey → Option Nat) (s : Runtime) : Prop where
  reads : ∀ f ∈ s.net.flights, IsMemo f.cell
  stamps : ∀ key, s.net.stamps (.tickCache, key) = ticks key
  todo : ∀ effect ∈ s.pipeline.stage.todo, ∃ block, effect = .resyncAll block
  stage : s.pipeline.stage.awaitsWords = false
  loop : s.resync = ⟨[], [], [], []⟩

variable {setup} {r s t : Runtime} {start : Nat} {ticks : SlotKey → Option Nat}

theorem knownSince_kept {actions : List Action} {block : Nat} {cell : Cell} (h : KnownSince r.net block cell)
    (hCurrent : UpToNow r.net) (hMined : block ≤ r.net.now) (hRun : run setup.step r actions = some s) :
    StampedFrom (· = cell) block s.net := by
  have hStart : DatedSince (· = cell) block r.net := ⟨hCurrent, hMined, h.served, h.stamped⟩
  have hEnd : DatedSince (· = cell) block s.net :=
    run_invariant (fun _ _ _ hInv hStep => DatedSince.step hInv hStep) hRun hStart
  exact hEnd.stamped

/-- In every run with a resync whose reads of tick slots are inserted in the order of their
blocks: if the slots of the missed events have been read since when the resync is taken, then
once no read is in flight and the pipeline waits, every bitmap and net entry of the tick
cache equals the chain. -/
theorem resync_settles {pools : List TickPool} {hydrated : SlotKey → Bool} {before after : List Action}
    (missed : List IngestEvent) (hBefore : run setup.step (setup.booted start hydrated) before = some r)
    (hAfter : run setup.step r (.deliver .resync :: after) = some s)
    (hOrder : Each setup.step LandsTicksInOrder (setup.booted start hydrated) (before ++ .deliver .resync :: after))
    (hRange : ∀ ev ∈ s.pipeline.delivered, ∀ pool lo hi,
      LiquidityEvent setup.plans setup.tickSpacing ev pool lo hi → CallInRange pool [lo, hi])
    (hChanges : ChangesByEvents setup.keccak setup.plans setup.tickSpacing setup.chain pools start
      (s.pipeline.delivered ++ missed))
    (hCaughtUp : setup.CaughtUp r.net missed)
    (hFlights : s.net.flights = []) (hStage : s.pipeline.stage = .running []) :
    ∀ key value, TickData setup.keccak pools key → (setup.view s.net).tickCache key = some value →
      value = setup.chain s.net.now key := by
  have hRun : run setup.step (setup.booted start hydrated) (before ++ .deliver .resync :: after) = some s :=
    run_append.mpr ⟨r, hBefore, hAfter⟩
  have hWrites : setup.TickWrites s :=
    hOrder.invariant (fun _ _ _ hInv hLands hStep => hInv.step hLands hStep) hRun ⟨nofun, nofun⟩
  have hDated : DatedSince IsTick start s.net :=
    run_invariant (fun _ _ _ hInv hStep => DatedSince.step hInv hStep) hRun (booted_datedSince start hydrated)
  have hCurrent : UpToNow r.net :=
    run_invariant (fun _ _ _ hInv hStep => step_upToNow hInv hStep) hBefore (booted_upToNow start hydrated)
  intro key value hData hValue
  obtain ⟨n, hStamp, rfl⟩ := Option.map_eq_some_iff.mp hValue
  refine (chain_eq_of_untouched hChanges hData (hDated.stamped _ (show IsTick (.tickCache, key) from rfl) n hStamp)
    (hDated.current.stamped _ n hStamp) ?_).symm
  intro ev hEv hTouches
  rcases List.mem_append.mp hEv with hTaken | hMissed
  · exact hWrites.behind hFlights hStage hTaken (hRange ev hTaken) hTouches hStamp
  · obtain ⟨hMined, hRead⟩ := hCaughtUp ev hMissed
    exact knownSince_kept (hRead key hTouches) hCurrent hMined hAfter _ rfl n hStamp

theorem resyncStep_of_empty (hLoop : s.resync = ⟨[], [], [], []⟩) (action : Action) : setup.resyncStep s action = none := by
  unfold resyncStep
  rw [hLoop]
  cases action <;> rfl

theorem Resyncing.congr (h : Resyncing ticks s) (hReads : ∀ f ∈ t.net.flights, IsMemo f.cell)
    (hStamps : ∀ key, t.net.stamps (.tickCache, key) = s.net.stamps (.tickCache, key))
    (hStage : t.pipeline.stage = s.pipeline.stage) (hLoop : t.resync = s.resync) : Resyncing ticks t := by
  refine ⟨hReads, fun key => (hStamps key).trans (h.stamps key), ?_, ?_, hLoop.trans h.loop⟩
  · rw [hStage]
    exact h.todo
  · rw [hStage]
    exact h.stage

theorem Resyncing.moved (h : Resyncing ticks s) {m : Move} {net : Net Cell Owner} (hMoved : Net.Moved s.net m net) :
    Resyncing ticks { s with net := net } := by
  refine h.congr (fun f hMem => ?_) (fun key => hMoved.stamps_eq fun f hMem hCell => ?_) rfl rfl
  · obtain ⟨g, hOld, -, hCell⟩ := hMoved.flight_of_mem hMem
    rw [hCell]
    exact h.reads g hOld
  · have hMemo := h.reads f hMem
    rw [hCell] at hMemo
    cases hMemo

theorem memo_of_issue {owner : Owner} {slots : List SlotKey} (h : ∀ f ∈ s.net.flights, IsMemo f.cell) :
    ∀ f ∈ (s.net.issue owner (memoCells slots)).flights, IsMemo f.cell := by
  intro f hMem
  rcases List.mem_append.mp hMem with hOld | hNew
  · exact h f hOld
  · obtain ⟨cell, hCell, rfl⟩ := List.mem_map.mp hNew
    obtain ⟨key, -, rfl⟩ := List.mem_map.mp hCell
    rfl

/-- The pipeline clears the memo and asks for base slots, and waits. -/
theorem Resyncing.piped (h : Resyncing ticks s) (hPiped : Piped setup s t) : Resyncing ticks t := by
  have hTodo := h.todo
  cases hPiped with
  | @perform effect todo hStage =>
    rw [hStage] at hTodo
    obtain ⟨block, rfl⟩ := hTodo effect List.mem_cons_self
    exact ⟨h.reads, h.stamps, fun other hOther => hTodo other (List.mem_cons_of_mem _ hOther), rfl, h.loop⟩
  | nets hStage =>
    have hIdle := h.stage
    rw [hStage] at hIdle
    cases hIdle
  | patched hStage =>
    rw [hStage] at hTodo
    exact ⟨h.reads, h.stamps, hTodo, rfl, h.loop⟩
  | @advance batch slots shard todo hStage =>
    rw [hStage] at hTodo
    unfold Setup.advance
    split
    · refine ⟨h.reads, fun key => ?_, hTodo, rfl, h.loop⟩
      simpa [Net.clear] using h.stamps key
    · exact ⟨memo_of_issue h.reads, h.stamps, hTodo, rfl, h.loop⟩
  | announce hStage =>
    rw [hStage] at hTodo
    exact ⟨h.reads, h.stamps, hTodo, rfl, h.loop⟩

theorem Resyncing.step {action : Action} (h : Resyncing ticks s) (hNoInput : action.noInput = true)
    (hStep : setup.step s action = some t) : Resyncing ticks t := by
  have hLoop : setup.resyncStep s action = some t → Resyncing ticks t := by
    intro hTurn
    rw [resyncStep_of_empty h.loop] at hTurn
    cases hTurn
  have hEvaluator : setup.evaluatorStep s action = some t → Resyncing ticks t := by
    intro hTurn
    obtain ⟨hNet, hPipeline, hResync, -⟩ := evaluatorStep_frame hTurn
    exact h.congr (hNet ▸ h.reads) (fun key => by rw [hNet]) (congrArg _ hPipeline) hResync
  cases action with
  | net m =>
    obtain ⟨net, hMove, rfl⟩ := Option.map_eq_some_iff.mp hStep
    exact h.moved (Net.moved_of_move hMove)
  | deliver ev => cases hNoInput
  | quiet => cases hNoInput
  | pipeline => exact h.piped (pipelineStep_piped hStep)
  | receive => exact hLoop hStep
  | flush => exact hLoop hStep
  | startHydration i => exact hLoop hStep
  | hydrateNets i => exact hLoop hStep
  | finishHydration i => exact hLoop hStep
  | feesChanged pools =>
    simp only [Setup.step] at hStep
    split at hStep <;> cases hStep
    exact h.congr (memo_of_issue h.reads) (fun _ => rfl) rfl rfl
  | feesAnnounce =>
    simp only [Setup.step] at hStep
    split at hStep
    · split at hStep <;> cases hStep
      exact h.congr h.reads (fun _ => rfl) rfl rfl
    · cases hStep
  | takeBatch => exact hEvaluator hStep
  | coalesce => exact hEvaluator hStep
  | beginBatch => exact hEvaluator hStep
  | dropBatch => exact hEvaluator hStep
  | evaluate id => exact hEvaluator hStep
  | finishBatch => exact hEvaluator hStep

/-- A resync by itself reads no tick slot: with nothing else to do, the tick cache after it
is the one from before. -/
theorem resync_leaves_ticks {actions : List Action} (hReads : r.net.flights = [])
    (hLoop : r.resync = ⟨[], [], [], []⟩) (hActions : ∀ action ∈ actions, action.noInput = true)
    (hRun : run setup.step r (.deliver .resync :: actions) = some s) :
    (setup.view s.net).tickCache = (setup.view r.net).tickCache := by
  obtain ⟨u, hTaken, hRest⟩ := run_cons.mp hRun
  simp only [Setup.step, Option.ite_none_right_eq_some] at hTaken
  obtain ⟨-, hTaken⟩ := hTaken
  have hResync := (input_frame hTaken).1
  obtain ⟨-, hNet, hPipeline⟩ := input_eq hTaken
  have hStart : Resyncing (fun key => r.net.stamps (.tickCache, key)) u := by
    refine ⟨?_, fun key => by rw [hNet], ?_, ?_, hResync.trans hLoop⟩
    · rw [hNet, hReads]
      intro f hMem
      cases hMem
    · rw [hPipeline]
      intro effect hEffect
      exact ⟨_, List.mem_singleton.mp hEffect⟩
    · rw [hPipeline]
      rfl
  have hEnd : Resyncing (fun key => r.net.stamps (.tickCache, key)) s :=
    (Each.of_forall hActions u).invariant (fun _ _ _ hInv hOk hStep => hInv.step hOk hStep) hRest hStart
  funext key
  exact congrArg (Option.map fun n => setup.chain n key) (hEnd.stamps key)

section Sample

/-- A swap of block 11 has the pool hydrated anew; the mint of that block is missed. -/
def rehydrated : List Action :=
  [.net .mine, .deliver (.poolLog 11 0 none), .pipeline, .receive, .flush, .startHydration 0] ++ settle 0 129 ++
    [.hydrateNets 0] ++ settle 0 2 ++ [.finishHydration 0]

/-- The pipeline answers the resync: one shard to clear, two base slots to read. -/
def resyncAnswered : List Action := [.pipeline, .pipeline, .pipeline] ++ settle 0 2 ++ [.pipeline]

theorem rehydrated_settles :
    ∃ s, run mintSetup.step (mintSetup.booted 10 mintHydrated) (rehydrated ++ .deliver .resync :: resyncAnswered) = some s ∧
      ∀ key value, TickData mintSetup.keccak [samplePool] key → (mintSetup.view s.net).tickCache key = some value →
        value = mintSetup.chain s.net.now key := by
  have hMiddle : (run mintSetup.step (mintSetup.booted 10 mintHydrated) rehydrated).any (fun r =>
      r.net.flights = [] ∧ r.net.now = 11 ∧ (samplePool.touched referenceKeccak [0, 1]).all (fun key =>
        r.net.stamps (.tickCache, key) = some 11) ∧
      (run mintSetup.step r (.deliver .resync :: resyncAnswered)).any (fun s =>
        s.pipeline.delivered = [.resync, .poolLog 11 0 none] ∧ s.net.flights = [] ∧ s.pipeline.stage = .running [])) =
      true := by
    decide +kernel
  obtain ⟨r, hBefore, hMiddle⟩ := (Option.any_eq_true _ _).mp hMiddle
  obtain ⟨hNone, hNow, hRead, hEnd⟩ := of_decide_eq_true hMiddle
  obtain ⟨s, hAfter, hEnd⟩ := (Option.any_eq_true _ _).mp hEnd
  obtain ⟨hDelivered, hFlights, hStage⟩ := of_decide_eq_true hEnd
  refine ⟨s, run_append.mpr ⟨r, hBefore, hAfter⟩,
    resync_settles [sampleMint] hBefore hAfter (by decide +kernel) ?_ ?_ ?_ hFlights hStage⟩
  · rw [hDelivered]
    rintro ev hEv pool lo hi ⟨hPlan, _, _⟩
    simp at hEv
  · rw [hDelivered]
    intro n key hn hKey hNe
    obtain ⟨ev, hEv, hChange⟩ := sampleChain_changes n key hn hKey hNe
    obtain rfl := List.mem_singleton.mp hEv
    exact ⟨sampleMint, by simp, hChange⟩
  · intro ev hEv
    obtain rfl := List.mem_singleton.mp hEv
    refine ⟨hNow.ge, fun key hTouches => ⟨?_, ?_⟩⟩
    · rintro cell rfl n hStamp
      obtain ⟨pool, lo, hi, hEvent, hKey⟩ := hTouches
      obtain ⟨rfl, rfl, rfl⟩ := hEvent.unique sampleMint_liquidity
      rw [of_decide_eq_true (List.all_eq_true.mp hRead key hKey)] at hStamp
      exact (Option.some.inj hStamp).le
    · rw [ServedFrom, hNone]
      nofun

/-- The mint of block 11 is missed: the resync leaves the net of tick 0 as it was. -/
theorem resync_keeps_stale_net :
    ¬∀ (setup : Setup) (pools : List TickPool) (start : Nat) (hydrated : SlotKey → Bool) (before after : List Action)
      (missed : List IngestEvent) (r s : Runtime), run setup.step (setup.booted start hydrated) before = some r →
      run setup.step r (.deliver .resync :: after) = some s →
      Each setup.step LandsTicksInOrder (setup.booted start hydrated) (before ++ .deliver .resync :: after) →
      (∀ ev ∈ s.pipeline.delivered, ∀ pool lo hi,
        LiquidityEvent setup.plans setup.tickSpacing ev pool lo hi → CallInRange pool [lo, hi]) →
      ChangesByEvents setup.keccak setup.plans setup.tickSpacing setup.chain pools start (s.pipeline.delivered ++ missed) →
      (∀ ev ∈ missed, ev.block ≤ r.net.now) → s.net.flights = [] → s.pipeline.stage = .running [] →
      ∀ key value, TickData setup.keccak pools key → (setup.view s.net).tickCache key = some value →
        value = setup.chain s.net.now key := by
  intro hAll
  have hMiddle : (run mintSetup.step (mintSetup.booted 10 mintHydrated) [.net .mine]).any (fun r =>
      r.net.now = 11 ∧ (run mintSetup.step r (.deliver .resync :: resyncAnswered)).any (fun s =>
        s.pipeline.delivered = [.resync] ∧ s.net.flights = [] ∧ s.pipeline.stage = .running [] ∧ s.net.now = 11 ∧
        (mintSetup.view s.net).tickCache (samplePool.tickKey referenceKeccak 0) =
          some (400000000000#256 <<< 128))) = true := by
    decide +kernel
  obtain ⟨r, hBefore, hMiddle⟩ := (Option.any_eq_true _ _).mp hMiddle
  obtain ⟨hMined, hEnd⟩ := of_decide_eq_true hMiddle
  obtain ⟨s, hAfter, hEnd⟩ := (Option.any_eq_true _ _).mp hEnd
  obtain ⟨hDelivered, hFlights, hStage, hBlock, hNet⟩ := of_decide_eq_true hEnd
  have hData : TickData referenceKeccak [samplePool] (samplePool.tickKey referenceKeccak 0) :=
    ⟨samplePool, List.mem_cons_self, .inr ⟨0, by decide, by decide, rfl⟩⟩
  have hEq := hAll mintSetup [samplePool] 10 mintHydrated [.net .mine] resyncAnswered [sampleMint] r s hBefore hAfter
    (by decide +kernel) ?_ ?_ ?_ hFlights hStage _ _ hData hNet
  · rw [hBlock] at hEq
    exact absurd hEq (by decide +kernel)
  · rw [hDelivered]
    rintro ev hEv pool lo hi ⟨hPlan, _, _⟩
    simp at hEv
  · rw [hDelivered]
    intro n key hn hKey hNe
    obtain ⟨ev, hEv, hChange⟩ := sampleChain_changes n key hn hKey hNe
    obtain rfl := List.mem_singleton.mp hEv
    exact ⟨sampleMint, by simp, hChange⟩
  · intro ev hEv
    obtain rfl := List.mem_singleton.mp hEv
    exact hMined.ge

end Sample

end Setup

end Robinarb
