import Robinarb.State.Patch

/-! # The ingest pipeline

`run_pipeline` as a handler: what one input does to the variables of the loop, and
the effects it has on the outside, in the order in which the loop awaits them. The
inputs are the events of the ingest channel and the quiet timer; the end of the
inputs is the close of the channel. The dirty set is a list without order.
-/

namespace Robinarb

structure ChangedBatch where
  block : Nat
  pools : List Nat
  deriving DecidableEq

/-- `queueTickResync` sends the pool alone; the block of its event is kept for statements. -/
inductive Effect where
  | onNewHead (baseFeePerGas : Nat)
  | setHead (number : Nat)
  | patchClTicks (pool : TickPool) (ticks : List Int)
  | queueTickResync (idx block : Nat)
  | sealBatch (block : Nat) (pools : List Nat)
  | resyncAll (block : Nat)
  deriving DecidableEq

/-- The batch an effect sends; a resync announces every pool. -/
def Effect.batch? (poolCount : Nat) : Effect → Option ChangedBatch
  | .sealBatch block pools => some ⟨block, pools⟩
  | .resyncAll block => some ⟨block, List.range poolCount⟩
  | _ => none

inductive PipelineInput where
  | event (ev : IngestEvent)
  | quiet
  deriving DecidableEq

/-- `head` is the engine's head, which only the pipeline writes. -/
structure PipelineState where
  openBlock : Nat
  dirty : List Nat
  haveOpen : Bool
  head : Nat
  deriving DecidableEq

namespace PipelineState

def initial : PipelineState := ⟨0, [], false, 0⟩

def sealBatch (s : PipelineState) : PipelineState × List Effect :=
  if s.dirty = [] then (s, []) else ({ s with dirty := [] }, [.sealBatch s.openBlock s.dirty])

/-- The first statements of the `PoolLog` arm: a later block seals the open one. -/
def openFor (s : PipelineState) (block : Nat) : PipelineState × List Effect :=
  if s.openBlock < block then
    let sealed := if s.haveOpen then s.sealBatch else (s, [])
    ({ sealed.1 with openBlock := block, haveOpen := true }, sealed.2)
  else
    (s, [])

section Handler

variable (plans : List (Option SlotPlan)) (tickSpacing : Nat → Int)

def isCl (idx : Nat) : Bool :=
  match plans[idx]?.join with
  | some (.cl _) => true
  | _ => false

/-- The patch of a log that touched ticks, then the re-centring of every CL pool. -/
def tickEffects (block idx : Nat) (touchedTicks : Option (Int × Int)) : List Effect :=
  (match patchCall plans tickSpacing (.poolLog block idx touchedTicks) with
    | some (pool, ticks) => [.patchClTicks pool ticks]
    | none => []) ++
  if isCl plans idx then [.queueTickResync idx block] else []

/-- One turn of the loop. The quiet timer runs only while a block is open. -/
def handle (s : PipelineState) : PipelineInput → PipelineState × List Effect
  | .event (.newHead number _ baseFeePerGas) =>
    let sealed := if s.haveOpen = true ∧ s.openBlock < number then s.sealBatch else (s, [])
    ({ sealed.1 with openBlock := number, haveOpen := true, head := number },
      sealed.2 ++ [.onNewHead baseFeePerGas, .setHead number])
  | .event (.poolLog block idx touchedTicks) =>
    let opened := s.openFor block
    ({ opened.1 with dirty := opened.1.dirty.insert idx },
      opened.2 ++ tickEffects plans tickSpacing block idx touchedTicks)
  | .event .resync => (s, [.resyncAll (max s.openBlock s.head)])
  | .quiet => if s.haveOpen then ({ s.sealBatch.1 with haveOpen := false }, s.sealBatch.2) else (s, [])

def close (s : PipelineState) : List Effect := if s.haveOpen then s.sealBatch.2 else []

def after (s : PipelineState) (inputs : List PipelineInput) : PipelineState :=
  inputs.foldl (fun s input => (s.handle plans tickSpacing input).1) s

/-- All effects from a state on, the close included. -/
def effects (s : PipelineState) : List PipelineInput → List Effect
  | [] => s.close
  | input :: rest => (s.handle plans tickSpacing input).2 ++ effects (s.handle plans tickSpacing input).1 rest

/-- A log of a block that is not above the open one, while no block is open. -/
def Late (s : PipelineState) : PipelineInput → Prop
  | .event (.poolLog block _ _) => s.haveOpen = false ∧ block ≤ s.openBlock
  | _ => False

end Handler

section Turns

variable {plans : List (Option SlotPlan)} {tickSpacing : Nat → Int}

theorem sealBatch_cases (s : PipelineState) :
    (s.dirty = [] ∧ s.sealBatch = (s, [])) ∨
      (s.dirty ≠ [] ∧ s.sealBatch = ({ s with dirty := [] }, [.sealBatch s.openBlock s.dirty])) := by
  unfold sealBatch
  split
  · exact .inl ⟨‹_›, rfl⟩
  · exact .inr ⟨‹_›, rfl⟩

@[simp] theorem sealBatch_dirty (s : PipelineState) : s.sealBatch.1.dirty = [] := by
  obtain ⟨hDirty, hSeal⟩ | ⟨-, hSeal⟩ := s.sealBatch_cases
  · rw [hSeal, hDirty]
  · rw [hSeal]

theorem openFor_cases (s : PipelineState) (block : Nat) :
    (s.openBlock < block ∧ s.haveOpen = true ∧
      s.openFor block = ({ s.sealBatch.1 with openBlock := block, haveOpen := true }, s.sealBatch.2)) ∨
    (s.openBlock < block ∧ s.haveOpen = false ∧
      s.openFor block = ({ s with openBlock := block, haveOpen := true }, [])) ∨
    (block ≤ s.openBlock ∧ s.openFor block = (s, [])) := by
  unfold openFor
  split
  · cases hOpen : s.haveOpen with
    | true => exact .inl ⟨‹_›, rfl, rfl⟩
    | false => exact .inr (.inl ⟨‹_›, rfl, rfl⟩)
  · exact .inr (.inr ⟨by omega, rfl⟩)

theorem sealBatch_announces {s : PipelineState} {idx : Nat} (h : idx ∈ s.dirty) :
    ∃ block pools, Effect.sealBatch block pools ∈ s.sealBatch.2 ∧ idx ∈ pools := by
  obtain ⟨hDirty, -⟩ | ⟨-, hSeal⟩ := s.sealBatch_cases
  · rw [hDirty] at h
    cases h
  · exact ⟨s.openBlock, s.dirty, by simp [hSeal], h⟩

variable (plans tickSpacing) in
theorem handle_announces {s : PipelineState} {idx : Nat} (h : idx ∈ s.dirty) (input : PipelineInput) :
    (∃ block pools, Effect.sealBatch block pools ∈ (s.handle plans tickSpacing input).2 ∧ idx ∈ pools) ∨
      idx ∈ (s.handle plans tickSpacing input).1.dirty := by
  obtain (⟨number, timestamp, fee⟩ | ⟨block, pool, ticks⟩ | _) | _ := input
  · simp only [handle]
    split
    · obtain ⟨block, pools, hSeal, hPools⟩ := sealBatch_announces h
      exact .inl ⟨block, pools, List.mem_append_left _ hSeal, hPools⟩
    · exact .inr h
  · simp only [handle]
    obtain ⟨-, -, hOpen⟩ | ⟨-, -, hOpen⟩ | ⟨-, hOpen⟩ := s.openFor_cases block
    · obtain ⟨block, pools, hSeal, hPools⟩ := sealBatch_announces h
      rw [hOpen]
      exact .inl ⟨block, pools, List.mem_append_left _ hSeal, hPools⟩
    · rw [hOpen]
      exact .inr (List.mem_insert_of_mem h)
    · rw [hOpen]
      exact .inr (List.mem_insert_of_mem h)
  · exact .inr h
  · simp only [handle]
    split
    · exact .inl (sealBatch_announces h)
    · exact .inr h

variable (plans tickSpacing) in
theorem handle_poolLog_dirty (s : PipelineState) (block idx : Nat) (ticks : Option (Int × Int)) :
    idx ∈ (s.handle plans tickSpacing (.event (.poolLog block idx ticks))).1.dirty :=
  List.mem_insert_self ..

/-- Nothing waits while no block is open. -/
def Unparked (s : PipelineState) : Prop := s.haveOpen = false → s.dirty = []

theorem handle_unparked {s : PipelineState} {input : PipelineInput} (hLate : ¬s.Late input)
    (h : s.Unparked) : (s.handle plans tickSpacing input).1.Unparked := by
  obtain (⟨number, timestamp, fee⟩ | ⟨block, pool, ticks⟩ | _) | _ := input
  · intro hOpen
    cases hOpen
  · simp only [handle]
    obtain ⟨-, -, hOpen⟩ | ⟨-, -, hOpen⟩ | ⟨hBlock, hOpen⟩ := s.openFor_cases block
    · rw [hOpen]
      intro hClosed
      cases hClosed
    · rw [hOpen]
      intro hClosed
      cases hClosed
    · rw [hOpen]
      intro hClosed
      exact absurd ⟨hClosed, hBlock⟩ hLate
  · exact h
  · simp only [handle]
    split
    · intro _
      exact s.sealBatch_dirty
    · exact h

end Turns

section Runs

variable {plans : List (Option SlotPlan)} {tickSpacing : Nat → Int}

theorem after_append (s : PipelineState) (first second : List PipelineInput) :
    s.after plans tickSpacing (first ++ second) =
      (s.after plans tickSpacing first).after plans tickSpacing second :=
  List.foldl_append

def NoneLate (plans : List (Option SlotPlan)) (tickSpacing : Nat → Int) (s : PipelineState)
    (inputs : List PipelineInput) : Prop :=
  ∀ before input rest, inputs = before ++ input :: rest → ¬(s.after plans tickSpacing before).Late input

theorem NoneLate.tail {s : PipelineState} {input : PipelineInput} {rest : List PipelineInput}
    (h : NoneLate plans tickSpacing s (input :: rest)) :
    NoneLate plans tickSpacing (s.handle plans tickSpacing input).1 rest := by
  rintro before next after rfl
  exact h (input :: before) next after rfl

theorem NoneLate.drop {s : PipelineState} {before rest : List PipelineInput}
    (h : NoneLate plans tickSpacing s (before ++ rest)) :
    NoneLate plans tickSpacing (s.after plans tickSpacing before) rest := by
  induction before generalizing s with
  | nil => exact h
  | cons input before ih => exact ih h.tail

theorem NoneLate.unparked {s : PipelineState} {before rest : List PipelineInput}
    (h : NoneLate plans tickSpacing s (before ++ rest)) (hStart : s.Unparked) :
    (s.after plans tickSpacing before).Unparked := by
  induction before generalizing s with
  | nil => exact hStart
  | cons input before ih => exact ih h.tail (handle_unparked (h [] input _ rfl) hStart)

theorem NoneLate.announced {s : PipelineState} {inputs : List PipelineInput}
    (h : NoneLate plans tickSpacing s inputs) (hStart : s.Unparked) {idx : Nat} (hDirty : idx ∈ s.dirty) :
    ∃ block pools, Effect.sealBatch block pools ∈ s.effects plans tickSpacing inputs ∧ idx ∈ pools := by
  induction inputs generalizing s with
  | nil =>
    have hOpen : s.haveOpen = true := by
      by_contra hClosed
      rw [hStart (by simpa using hClosed)] at hDirty
      cases hDirty
    simp only [effects, close, hOpen, if_true]
    exact sealBatch_announces hDirty
  | cons input rest ih =>
    obtain ⟨block, pools, hSeal, hPools⟩ | hDirty := handle_announces plans tickSpacing hDirty input
    · exact ⟨block, pools, List.mem_append_left _ hSeal, hPools⟩
    · obtain ⟨block, pools, hSeal, hPools⟩ := ih h.tail (handle_unparked (h [] input rest rfl) hStart) hDirty
      exact ⟨block, pools, List.mem_append_right _ hSeal, hPools⟩

end Runs

section Parking

variable (plans : List (Option SlotPlan)) (tickSpacing : Nat → Int) (poolCount : Nat)

/-- No pool is dirty whenever the loop waits without the timer, and every pool that
a log named is listed in a batch sent after that log. -/
structure ParksNothing (inputs : List PipelineInput) : Prop where
  waiting : ∀ before, before <+: inputs → (initial.after plans tickSpacing before).Unparked
  announced : ∀ before block idx ticks rest, inputs = before ++ .event (.poolLog block idx ticks) :: rest →
    ∃ batch ∈ ((initial.after plans tickSpacing (before ++ [.event (.poolLog block idx ticks)])).effects
      plans tickSpacing rest).filterMap (Effect.batch? poolCount), idx ∈ batch.pools

/-- Over any inputs up to the close of the channel, the pipeline parks no dirty pool
if and only if no log of a block at or below the open one is handled while no block
is open. -/
theorem parksNothing_iff (inputs : List PipelineInput) :
    ParksNothing plans tickSpacing poolCount inputs ↔ NoneLate plans tickSpacing initial inputs := by
  constructor
  · rintro ⟨hWaiting, -⟩ before input rest rfl hLate
    obtain (_ | ⟨block, idx, ticks⟩ | _) | _ := input
    · exact hLate
    · have hParked := hWaiting (before ++ [.event (.poolLog block idx ticks)]) ⟨rest, by simp⟩
      rw [after_append] at hParked
      have hDirty := handle_poolLog_dirty plans tickSpacing
        (initial.after plans tickSpacing before) block idx ticks
      have hSame : ((initial.after plans tickSpacing before).handle plans tickSpacing
          (.event (.poolLog block idx ticks))).1.haveOpen = false := by
        simp only [handle, openFor, if_neg (Nat.not_lt.mpr hLate.2)]
        exact hLate.1
      change idx ∈ ((initial.after plans tickSpacing before).after plans tickSpacing
        [.event (.poolLog block idx ticks)]).dirty at hDirty
      rw [hParked hSame] at hDirty
      cases hDirty
    · exact hLate
    · exact hLate
  · intro h
    have hStart : initial.Unparked := fun _ => rfl
    constructor
    · rintro before ⟨rest, rfl⟩
      exact h.unparked hStart
    · rintro before block idx ticks rest rfl
      have hSplit : before ++ .event (.poolLog block idx ticks) :: rest =
          (before ++ [.event (.poolLog block idx ticks)]) ++ rest := by simp
      rw [hSplit] at h
      have hDirty : idx ∈ (initial.after plans tickSpacing
          (before ++ [.event (.poolLog block idx ticks)])).dirty := by
        rw [after_append]
        exact handle_poolLog_dirty _ _ _ block idx ticks
      obtain ⟨label, pools, hSeal, hPools⟩ := h.drop.announced (h.unparked hStart) hDirty
      exact ⟨⟨label, pools⟩, List.mem_filterMap.mpr ⟨_, hSeal, rfl⟩, hPools⟩

/-- A second log of block 10, after the quiet timer sealed block 10, is announced by nothing. -/
theorem late_log_parked : ¬ParksNothing [] (fun _ => 0) 2
    [.event (.poolLog 10 0 none), .quiet, .event (.poolLog 10 1 none)] := by
  rintro ⟨-, hAnnounced⟩
  obtain ⟨batch, hBatch, -⟩ := hAnnounced [.event (.poolLog 10 0 none), .quiet] 10 1 none [] rfl
  exact absurd hBatch (by decide +revert)

end Parking

end PipelineState

end Robinarb
