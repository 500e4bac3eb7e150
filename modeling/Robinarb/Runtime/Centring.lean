import Robinarb.Runtime.Model
import Robinarb.State.SamplePool

/-! # Where a resync centres its window

A hydration takes the tick of its pool from the memo when it starts. The memo may hold
no `slot0` of the pool by then, or one read before the event that queued the pool; a
`slot0` that is not there decodes as tick 0.
-/

namespace Robinarb

open InFlight InFlight.Net Runs

def windowAround (plan : ClPlan) (tickSpacing tick : Int) : PoolWindow :=
  let center := asI16 (compressTick tick (max tickSpacing 1) >>> (8 : Nat))
  ⟨plan.addr, plan.ticksBase, plan.bitmapBase, max tickSpacing 1, saturateI16 (center - bootstrapTickWordRange),
    saturateI16 (center + bootstrapTickWordRange)⟩

/-- The block of the value that a read of the slot returns. -/
def readStamp (net : Net Cell Owner) (key : SlotKey) : Option Nat :=
  (net.stamps (.memo, key)).or (net.stamps (.tickCache, key))

namespace Setup

variable (setup : Setup)

def withChain (chain : Nat → Storage) : Setup := { setup with chain := chain }

def centreSlot? (idx : Nat) : Option SlotKey :=
  match setup.plans[idx]?.join with
  | some (.cl plan) => if plan.tickCodec = .packed then some (plan.addr, plan.slot0) else none
  | _ => none

def tickAt (plan : ClPlan) (n : Nat) : Int := (decodeV3Slot0 (setup.chain n (plan.addr, plan.slot0))).2

/-- The window is centred on the word of the pool's tick at a block that was reached and is
no older than the given one. -/
def CentredSince (now idx since : Nat) (window : PoolWindow) : Prop :=
  ∃ plan n, setup.plans[idx]? = some (some (.cl plan)) ∧ since ≤ n ∧ n ≤ now ∧
    window = windowAround plan (setup.tickSpacing idx) (setup.tickAt plan n)

/-- What a hydration of the pool reads as `slot0` is no older than the given block. -/
def ReadSince (net : Net Cell Owner) (idx since : Nat) : Prop :=
  ∀ key ∈ setup.centreSlot? idx, ∃ n ∈ readStamp net key, since ≤ n

instance (net : Net Cell Owner) (idx since : Nat) : Decidable (setup.ReadSince net idx since) :=
  Option.decidableForallMem (setup.centreSlot? idx)

def starting? (s : Runtime) : Action → Option (Nat × Nat)
  | .startHydration i => s.resync.waiting[i]?
  | _ => none

/-- A hydration starts when the `slot0` it reads is no older than the event. -/
def StartsFresh (s : Runtime) (action : Action) : Prop :=
  ∀ entry ∈ starting? s action, setup.ReadSince s.net entry.1 entry.2

instance (s : Runtime) (action : Action) : Decidable (setup.StartsFresh s action) :=
  inferInstanceAs (Decidable (∀ entry ∈ starting? s action, setup.ReadSince s.net entry.1 entry.2))

/-- Every running hydration is centred since the event that queued its pool. -/
structure Centring (s : Runtime) : Prop where
  current : UpToNow s.net
  centred : ∀ entry ∈ s.resync.running, setup.CentredSince s.net.now entry.idx entry.since entry.window

variable {setup} {s t : Runtime} {action : Action}

theorem view_read (net : Net Cell Owner) (key : SlotKey) :
    (setup.view net).read key.1 key.2 = ((readStamp net key).map fun n => setup.chain n key).getD 0#256 := by
  obtain ⟨addr, slot⟩ := key
  cases hMemo : net.stamps (.memo, (addr, slot)) with
  | none => simp [ChainState.read, view, readStamp, hMemo]
  | some n => simp [ChainState.read, view, readStamp, hMemo]

theorem hydrationWindow_packed {idx : Nat} {plan : ClPlan} (hPlan : setup.plans[idx]? = some (some (.cl plan)))
    (hPacked : plan.tickCodec = .packed) (net : Net Cell Owner) :
    setup.hydrationWindow net idx = some (windowAround plan (setup.tickSpacing idx)
      (decodeV3Slot0 ((setup.view net).read plan.addr plan.slot0)).2) := by
  simp only [hydrationWindow, hPlan, Option.join_some, Option.bind_some, ChainState.clTickWindow, hPacked]
  rfl

theorem packed_of_hydrationWindow {net : Net Cell Owner} {idx : Nat} {window : PoolWindow}
    (h : setup.hydrationWindow net idx = some window) :
    ∃ plan, setup.plans[idx]? = some (some (.cl plan)) ∧ plan.tickCodec = .packed := by
  obtain ⟨plan, hPlan, hWindow⟩ := Option.bind_eq_some_iff.mp h
  cases plan with
  | cl plan =>
    refine ⟨plan, Option.join_eq_some_iff.mp hPlan, ?_⟩
    cases hCodec : plan.tickCodec with
    | packed => rfl
    | twoWord => simp [ChainState.clTickWindow, hCodec] at hWindow
  | _ => cases hWindow

theorem centreSlot?_packed {idx : Nat} {plan : ClPlan} (hPlan : setup.plans[idx]? = some (some (.cl plan)))
    (hPacked : plan.tickCodec = .packed) : setup.centreSlot? idx = some (plan.addr, plan.slot0) := by
  simp only [centreSlot?, hPlan, Option.join_some, if_pos hPacked]

/-- A window that starts from a read no older than a block is centred since that block. -/
theorem centred_of_readSince {now idx since : Nat} {net : Net Cell Owner} (hNow : UpToNow net)
    (hRead : setup.ReadSince net idx since) {window : PoolWindow}
    (hWindow : setup.hydrationWindow net idx = some window) (hLe : net.now ≤ now) :
    setup.CentredSince now idx since window := by
  obtain ⟨plan, hPlan, hPacked⟩ := packed_of_hydrationWindow hWindow
  obtain ⟨n, hStamp, hSince⟩ := hRead _ (centreSlot?_packed hPlan hPacked)
  have hReached : n ≤ net.now := by
    obtain hMemo | ⟨-, hTick⟩ := Option.or_eq_some_iff.mp hStamp
    · exact hNow.stamped _ n hMemo
    · exact hNow.stamped _ n hTick
  have hWord : (setup.view net).read plan.addr plan.slot0 = setup.chain n (plan.addr, plan.slot0) := by
    rw [view_read net (plan.addr, plan.slot0), hStamp]
    rfl
  rw [hydrationWindow_packed hPlan hPacked, hWord] at hWindow
  exact ⟨plan, n, hPlan, hSince, hReached.trans hLe, (Option.some.inj hWindow).symm⟩

theorem windowAround_zero (plan : ClPlan) {tickSpacing : Int} (hs : SpacingRange (max tickSpacing 1)) :
    (windowAround plan tickSpacing 0).lo = -64 := by
  rw [windowAround, compressTick_eq hs ⟨by decide, by decide⟩, Int.zero_ediv]
  rfl

theorem windowAround_neg_one (plan : ClPlan) {tickSpacing : Int} (hs : SpacingRange (max tickSpacing 1)) :
    (windowAround plan tickSpacing (-1)).lo = -65 := by
  have hDiv : -1 / max tickSpacing 1 = -1 := Int.ediv_eq_neg_one_of_neg_of_le (by decide) hs.pos
  rw [windowAround, compressTick_eq hs ⟨by decide, by decide⟩, hDiv]
  rfl

/-- Tick 0 in every slot before a block, tick -1 from it on. -/
def dropAt (since n : Nat) : Storage := fun _ => if n < since then 0#256 else 0xffffff#256 <<< 160

theorem dropAt_before {since n : Nat} (h : n < since) (key : SlotKey) : dropAt since n key = 0#256 := if_pos h

theorem dropAt_after {since n : Nat} (h : since ≤ n) (key : SlotKey) : dropAt since n key = 0xffffff#256 <<< 160 :=
  if_neg (Nat.not_lt.mpr h)

/-- Nothing less will do: whatever the chain stores, the window is centred since a block if
and only if what is read as `slot0` is no older than it. -/
theorem centred_iff_readSince {net : Net Cell Owner} (hNow : UpToNow net) {idx since : Nat} {plan : ClPlan}
    (hPlan : setup.plans[idx]? = some (some (.cl plan))) (hPacked : plan.tickCodec = .packed)
    (hs : SpacingRange (max (setup.tickSpacing idx) 1)) :
    (∀ chain window, (setup.withChain chain).hydrationWindow net idx = some window →
      (setup.withChain chain).CentredSince net.now idx since window) ↔ setup.ReadSince net idx since := by
  constructor
  · intro hCentred key hKey
    rw [centreSlot?_packed hPlan hPacked, Option.mem_some_iff] at hKey
    subst hKey
    by_contra hOld
    have hRead : ((setup.withChain (dropAt since)).view net).read plan.addr plan.slot0 = 0#256 := by
      rw [view_read net (plan.addr, plan.slot0)]
      cases hStamp : readStamp net (plan.addr, plan.slot0) with
      | none => rfl
      | some n =>
        have hBefore : n < since := Nat.lt_of_not_le fun hLe => hOld ⟨n, hStamp, hLe⟩
        rw [Option.map_some, Option.getD_some]
        exact dropAt_before hBefore (plan.addr, plan.slot0)
    have hOver : (setup.withChain (dropAt since)).plans[idx]? = some (some (.cl plan)) := hPlan
    obtain ⟨other, n, hOther, hSince, -, hWindow⟩ := hCentred _ _ (hydrationWindow_packed hOver hPacked net)
    obtain rfl : plan = other := by
      have hSame := hPlan.symm.trans hOther
      cases hSame
      rfl
    have hTick : (setup.withChain (dropAt since)).tickAt plan n = -1 := by
      change (decodeV3Slot0 (dropAt since n (plan.addr, plan.slot0))).2 = -1
      rw [dropAt_after hSince]
      decide
    rw [hRead, hTick, show (decodeV3Slot0 0#256).2 = 0 by decide] at hWindow
    have hLo : (windowAround plan (setup.tickSpacing idx) 0).lo = (windowAround plan (setup.tickSpacing idx) (-1)).lo :=
      congrArg PoolWindow.lo hWindow
    rw [windowAround_zero plan hs, windowAround_neg_one plan hs] at hLo
    cases hLo
  · intro hRead chain window hWindow
    have hOver : (setup.withChain chain).ReadSince net idx since := hRead
    exact centred_of_readSince hNow hOver hWindow le_rfl

theorem piped_running (h : Piped setup s t) : t.resync.running = s.resync.running := by
  cases h with
  | @perform effect => cases effect <;> rfl
  | advance =>
    unfold Setup.advance
    split <;> rfl
  | nets | patched | announce => rfl

theorem running_cases (h : setup.step s action = some t) {entry : Hydration} (hMem : entry ∈ t.resync.running) :
    (∃ old ∈ s.resync.running, old.idx = entry.idx ∧ old.since = entry.since ∧ old.window = entry.window) ∨
      starting? s action = some (entry.idx, entry.since) ∧
        setup.hydrationWindow s.net entry.idx = some entry.window := by
  have hKept : t.resync.running = s.resync.running →
      ∃ old ∈ s.resync.running, old.idx = entry.idx ∧ old.since = entry.since ∧ old.window = entry.window :=
    fun hSame => ⟨entry, hSame ▸ hMem, rfl, rfl, rfl⟩
  cases action with
  | net m =>
    obtain ⟨net, -, rfl⟩ := Option.map_eq_some_iff.mp h
    exact .inl (hKept rfl)
  | deliver ev =>
    simp only [step] at h
    split at h
    · exact .inl (hKept (congrArg _ (input_frame h).1))
    · cases h
  | quiet => exact .inl (hKept (congrArg _ (input_frame h).1))
  | pipeline => exact .inl (hKept (piped_running (pipelineStep_piped h)))
  | feesChanged pools =>
    simp only [step] at h
    split at h <;> cases h
    exact .inl (hKept rfl)
  | feesAnnounce =>
    simp only [step] at h
    split at h
    · split at h <;> cases h
      exact .inl (hKept rfl)
    · cases h
  | receive =>
    simp only [step, resyncStep] at h
    split at h <;> cases h
    exact .inl (hKept rfl)
  | flush =>
    simp only [step, resyncStep] at h
    split at h <;> cases h
    exact .inl (hKept rfl)
  | startHydration i =>
    simp only [step, resyncStep] at h
    split at h
    · cases h
    · rename_i idx since hWaiting
      split at h
      · split at h <;> cases h
        · exact .inl (hKept rfl)
        · rename_i window hWindow
          obtain hOld | hNew := List.mem_append.mp hMem
          · exact .inl ⟨entry, hOld, rfl, rfl, rfl⟩
          · obtain rfl := List.mem_singleton.mp hNew
            exact .inr ⟨hWaiting, hWindow⟩
      · cases h
  | hydrateNets i =>
    simp only [step, resyncStep] at h
    split at h
    · rename_i idx since window hRunning
      split at h <;> cases h
      obtain hOld | rfl := List.mem_or_eq_of_mem_set hMem
      · exact .inl ⟨entry, hOld, rfl, rfl, rfl⟩
      · exact .inl ⟨⟨idx, since, window, false⟩, List.mem_of_getElem? hRunning, rfl, rfl, rfl⟩
    · cases h
  | finishHydration i =>
    simp only [step, resyncStep] at h
    split at h
    · split at h <;> cases h
      exact .inl ⟨entry, List.mem_of_mem_eraseIdx hMem, rfl, rfl, rfl⟩
    · cases h
  | takeBatch => exact .inl (hKept (congrArg _ (evaluatorStep_frame h).2.2.1))
  | coalesce => exact .inl (hKept (congrArg _ (evaluatorStep_frame h).2.2.1))
  | beginBatch => exact .inl (hKept (congrArg _ (evaluatorStep_frame h).2.2.1))
  | dropBatch => exact .inl (hKept (congrArg _ (evaluatorStep_frame h).2.2.1))
  | evaluate id => exact .inl (hKept (congrArg _ (evaluatorStep_frame h).2.2.1))
  | finishBatch => exact .inl (hKept (congrArg _ (evaluatorStep_frame h).2.2.1))

theorem CentredSince.later {now later idx since : Nat} {window : PoolWindow}
    (h : setup.CentredSince now idx since window) (hLe : now ≤ later) : setup.CentredSince later idx since window := by
  obtain ⟨plan, n, hPlan, hSince, hNow, hWindow⟩ := h
  exact ⟨plan, n, hPlan, hSince, hNow.trans hLe, hWindow⟩

theorem Centring.step (h : setup.Centring s) (hFresh : setup.StartsFresh s action)
    (hStep : setup.step s action = some t) : setup.Centring t := by
  refine ⟨step_upToNow h.current hStep, ?_⟩
  intro entry hMem
  obtain ⟨old, hOld, hIdx, hSince, hWindow⟩ | ⟨hStart, hWindow⟩ := running_cases hStep hMem
  · rw [← hIdx, ← hSince, ← hWindow]
    exact (h.centred old hOld).later (step_now_le hStep)
  · exact centred_of_readSince h.current (hFresh _ hStart) hWindow (step_now_le hStep)

/-- In every run whose hydrations start when the `slot0` they read is no older than the
event that queued their pool: the window of every hydration is centred on the word of
the pool's tick at a block no older than that event. -/
theorem hydrations_centred {start : Nat} {hydrated : SlotKey → Bool} {actions : List Action}
    (hRun : run setup.step (setup.booted start hydrated) actions = some s)
    (hFresh : Each setup.step setup.StartsFresh (setup.booted start hydrated) actions) :
    ∀ entry ∈ s.resync.running, setup.CentredSince s.net.now entry.idx entry.since entry.window := by
  have hInv : setup.Centring s :=
    hFresh.invariant (fun _ _ _ h => h.step) hRun ⟨booted_upToNow start hydrated, nofun⟩
  exact hInv.centred

section Sample

/-- The sample pool at tick 1000, in word 3. -/
def farStorage : Storage := fun key =>
  if key = (samplePlan.addr, samplePlan.slot0) then 79232123823359799118286999568#256 ||| 1000#256 <<< 160 else 1#256

def farSetup : Setup where
  keccak := referenceKeccak
  chain _ := farStorage
  plans := [some (.cl samplePlan), some (.v2Packed 7#160 8#256)]
  tickSpacing _ := 1
  store := .build [] 2
  shardCount := 1
  shard _ := ⟨0, Nat.one_pos⟩

/-- A swap in block 11 queues the pool, and its batch reads the pool's `slot0` again. -/
def swapQueued : List Action :=
  [.net .mine, .deliver (.poolLog 11 0 none), .pipeline, .receive, .net .mine, .deliver (.newHead 12 0 0),
    .pipeline, .pipeline, .pipeline, .net (.serve 0), .net (.serve 1), .net (.land 0), .net (.land 0), .pipeline,
    .pipeline, .pipeline]

def pairSealed : List Action :=
  [.deliver (.poolLog 12 1 none), .net .mine, .deliver (.newHead 13 0 0), .pipeline, .pipeline, .pipeline]

theorem far_pool_centred :
    ∃ s, run farSetup.step (farSetup.booted 10 fun _ => false) (swapQueued ++ [.flush, .startHydration 0]) = some s ∧
      s.resync.running.map Hydration.idx = [0] ∧
      ∀ entry ∈ s.resync.running, farSetup.CentredSince s.net.now entry.idx entry.since entry.window := by
  have hEnd : (run farSetup.step (farSetup.booted 10 fun _ => false) (swapQueued ++ [.flush, .startHydration 0])).any
      (fun s => s.resync.running.map Hydration.idx = [0]) = true := by decide +kernel
  obtain ⟨s, hRun, hRunning⟩ := (Option.any_eq_true _ _).mp hEnd
  exact ⟨s, hRun, of_decide_eq_true hRunning, hydrations_centred hRun (by decide +kernel)⟩

/-- The pair's batch clears the memo before the pool is flushed: its window is centred on word 0. -/
theorem far_pool_at_word_zero :
    ¬∀ (setup : Setup) (start : Nat) (hydrated : SlotKey → Bool) (actions : List Action) (s : Runtime),
      (∀ action ∈ actions, action.plain = true) → run setup.step (setup.booted start hydrated) actions = some s →
      ∀ entry ∈ s.resync.running, setup.CentredSince s.net.now entry.idx entry.since entry.window := by
  intro hAll
  have hEnd : (run farSetup.step (farSetup.booted 10 fun _ => false)
      (swapQueued ++ pairSealed ++ [.flush, .startHydration 0])).any (fun s => s.resync.running.any fun entry =>
        entry.idx = 0 ∧ entry.window.lo = -64) = true := by decide +kernel
  obtain ⟨s, hRun, hWindow⟩ := (Option.any_eq_true _ _).mp hEnd
  obtain ⟨entry, hMem, hEntry⟩ := List.any_eq_true.mp hWindow
  obtain ⟨hIdx, hLo⟩ := of_decide_eq_true hEntry
  obtain ⟨plan, n, hPlan, -, -, hCentred⟩ := hAll _ _ _ _ s (by decide) hRun entry hMem
  rw [hIdx] at hPlan hCentred
  cases hPlan
  have hTick : farSetup.tickAt samplePlan n = 1000 := by
    change (decodeV3Slot0 (farStorage (samplePlan.addr, samplePlan.slot0))).2 = 1000
    rw [farStorage, if_pos rfl]
    decide
  rw [hTick] at hCentred
  rw [hCentred] at hLo
  exact absurd hLo (by decide)

end Sample

end Setup

end Robinarb
