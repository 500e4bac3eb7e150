import Robinarb.Library.Debounce
import Robinarb.State.SamplePool
import Mathlib.Data.List.Range

/-! # When the resync loop flushes

The pools that `run_tick_resync_loop` receives, at their times, and the batches it flushes.
A flush takes no time.
-/

namespace Robinarb

open Debounce

structure Arrival where
  time : Nat
  idx : Nat

/-- The set of pools gathered since the last flush, with the arrivals it comes from. -/
structure Pending where
  arrivals : List Arrival
  pools : List Nat
  nodup : pools.Nodup
  gathered : ∀ idx, idx ∈ pools ↔ ∃ a ∈ arrivals, a.idx = idx

namespace Pending

def empty : Pending := ⟨[], [], List.nodup_nil, by simp⟩

def insert (pending : Pending) (a : Arrival) : Pending where
  arrivals := pending.arrivals ++ [a]
  pools := pending.pools.insert a.idx
  nodup := pending.nodup.insert
  gathered idx := by
    rw [List.mem_insert_iff, pending.gathered idx]
    constructor
    · rintro (rfl | ⟨b, hb, rfl⟩)
      · exact ⟨a, by simp, rfl⟩
      · exact ⟨b, by simp [hb], rfl⟩
    · rintro ⟨b, hb, rfl⟩
      rcases List.mem_append.mp hb with hb | hb
      · exact .inr ⟨b, hb, rfl⟩
      · exact .inl (by rw [List.mem_singleton.mp hb])

theorem pools_eq_nil_iff (pending : Pending) : pending.pools = [] ↔ pending.arrivals = [] := by
  constructor
  · intro hNone
    apply List.eq_nil_iff_forall_not_mem.mpr
    intro a ha
    have hPool := (pending.gathered a.idx).mpr ⟨a, ha, rfl⟩
    rw [hNone] at hPool
    cases hPool
  · intro hNone
    apply List.eq_nil_iff_forall_not_mem.mpr
    intro idx hIdx
    obtain ⟨a, ha, -⟩ := (pending.gathered idx).mp hIdx
    rw [hNone] at ha
    cases ha

end Pending

structure Flush where
  time : Nat
  pending : Pending

/-- When a batch is flushed that nothing more joins; a closed channel ends the wait at once. -/
def flushTime (batchWindow : Nat) (closed : Option Nat) (armed : Nat) : Nat :=
  match closed with
  | none => armed + batchWindow
  | some c => min (armed + batchWindow) c

/-- The flushes of the loop. It has `pending` and came to its receiver at `armed`; the queue
is what it has yet to receive before its channel closes, if it ever does. -/
def runTickResyncLoop (batchWindow : Nat) (closed : Option Nat) : Pending → Nat → List Arrival → List Flush
  | pending, armed, a :: rest =>
    if pending.pools = [] then runTickResyncLoop batchWindow closed (pending.insert a) a.time rest
    -- the timeout polls the channel first
    else if a.time ≤ armed + batchWindow then runTickResyncLoop batchWindow closed (pending.insert a) a.time rest
    -- the flush leaves `pending` empty, and an empty loop waits for the arrival
    else ⟨armed + batchWindow, pending⟩ :: runTickResyncLoop batchWindow closed (Pending.empty.insert a) a.time rest
  | pending, armed, [] =>
    if pending.pools = [] then [] else [⟨flushTime batchWindow closed armed, pending⟩]

/-- The pools of a flush that `hydrate_cl_ticks_for_pool` is called for. -/
def Flush.hydrated (plans : List (Option SlotPlan)) (flush : Flush) : List Nat :=
  flush.pending.pools.filter fun idx => (plans[idx]?.join).isSome

/-- The arrivals of a run: `run_pipeline` queues concentrated-liquidity pools only. -/
structure ResyncTrace (plans : List (Option SlotPlan)) where
  arrivals : List Arrival
  closed : Option Nat
  sorted : arrivals.Pairwise fun a b => a.time ≤ b.time
  closedAfter : ∀ c ∈ closed, ∀ a ∈ arrivals, a.time ≤ c
  queued : ∀ a ∈ arrivals, ∃ plan, plans[a.idx]? = some (some (.cl plan))

section Flushes

variable {plans : List (Option SlotPlan)} (batchWindow : Nat)

def ResyncTrace.flushes (trace : ResyncTrace plans) : List Flush :=
  runTickResyncLoop batchWindow trace.closed Pending.empty 0 trace.arrivals

/-- Nothing received is dropped, a pool of a batch is hydrated once, and no later than the
window after the first arrival of the batch. -/
structure FlushedInWindow (trace : ResyncTrace plans) : Prop where
  kept : (trace.flushes batchWindow).flatMap (fun flush => flush.pending.arrivals) = trace.arrivals
  hydrated : ∀ flush ∈ trace.flushes batchWindow, (flush.hydrated plans).Nodup ∧
    ∀ a ∈ flush.pending.arrivals, a.idx ∈ flush.hydrated plans
  inWindow : ∀ flush ∈ trace.flushes batchWindow, ∀ first ∈ flush.pending.arrivals.head?,
    flush.time ≤ first.time + batchWindow

/-- An arrival with none in the window before it has no later one in the window after it,
or the channel closes within that window. -/
def ResyncTrace.Bursts (trace : ResyncTrace plans) : Prop :=
  ∀ a ∈ trace.arrivals, (∀ b ∈ trace.arrivals, b.time < a.time → b.time + batchWindow < a.time) →
    (∃ c ∈ trace.closed, c ≤ a.time + batchWindow) ∨
      ∀ b ∈ trace.arrivals, a.time < b.time → a.time + batchWindow < b.time

theorem runTickResyncLoop_debounce (closed : Option Nat) (pending : Pending) (armed : Nat) (queue : List Arrival) :
    (runTickResyncLoop batchWindow closed pending armed queue).map (fun flush => (flush.time, flush.pending.arrivals)) =
      debounce Arrival.time batchWindow closed pending.arrivals armed queue := by
  induction queue generalizing pending armed with
  | nil =>
    rw [runTickResyncLoop, debounce]
    by_cases hEmpty : pending.pools = []
    · rw [if_pos hEmpty, if_pos (pending.pools_eq_nil_iff.mp hEmpty)]
      rfl
    · rw [if_neg hEmpty, if_neg fun h => hEmpty (pending.pools_eq_nil_iff.mpr h)]
      cases closed <;> rfl
  | cons a rest ih =>
    rw [runTickResyncLoop, debounce]
    by_cases hEmpty : pending.pools = []
    · rw [if_pos hEmpty, if_pos (.inl (pending.pools_eq_nil_iff.mp hEmpty)), ih]
      rfl
    · rw [if_neg hEmpty]
      have hSome : pending.arrivals ≠ [] := fun h => hEmpty (pending.pools_eq_nil_iff.mpr h)
      by_cases hJoins : a.time ≤ armed + batchWindow
      · rw [if_pos hJoins, if_pos (.inr hJoins), ih]
        rfl
      · rw [if_neg hJoins, if_neg (not_or.mpr ⟨hSome, hJoins⟩), List.map_cons, ih]
        rfl

theorem flushes_debounce (trace : ResyncTrace plans) :
    (trace.flushes batchWindow).map (fun flush => (flush.time, flush.pending.arrivals)) =
      debounce Arrival.time batchWindow trace.closed [] 0 trace.arrivals :=
  runTickResyncLoop_debounce batchWindow trace.closed Pending.empty 0 trace.arrivals

theorem flushes_kept (trace : ResyncTrace plans) :
    (trace.flushes batchWindow).flatMap (fun flush => flush.pending.arrivals) = trace.arrivals := by
  have hAll := flushes_debounce batchWindow trace ▸ debounce_flatMap [] 0 trace.arrivals
  rw [List.flatMap_map] at hAll
  exact hAll

theorem flushes_hydrated (trace : ResyncTrace plans) {flush : Flush} (h : flush ∈ trace.flushes batchWindow) :
    (flush.hydrated plans).Nodup ∧ ∀ a ∈ flush.pending.arrivals, a.idx ∈ flush.hydrated plans := by
  constructor
  · exact flush.pending.nodup.filter _
  · intro a ha
    have hArrived : a ∈ trace.arrivals := by
      rw [← flushes_kept batchWindow trace]
      exact List.mem_flatMap.mpr ⟨flush, h, ha⟩
    obtain ⟨plan, hPlan⟩ := trace.queued a hArrived
    exact List.mem_filter.mpr ⟨(flush.pending.gathered a.idx).mpr ⟨a, ha, rfl⟩, by rw [hPlan]; rfl⟩

/-- Every arrival re-arms the timeout, so a batch is flushed in its window exactly when
its arrivals come at one instant or the channel closes in time. -/
theorem flushedInWindow_iff (trace : ResyncTrace plans) :
    FlushedInWindow batchWindow trace ↔ trace.Bursts batchWindow := by
  have hPrompt := flushes_debounce batchWindow trace ▸ debounce_prompt_iff trace.sorted trace.closedAfter
  rw [List.forall_mem_map] at hPrompt
  constructor
  · intro h
    exact hPrompt.mp h.inWindow
  · intro h
    exact ⟨flushes_kept batchWindow trace, fun _ => flushes_hydrated batchWindow trace, hPrompt.mpr h⟩

end Flushes

section Sample

def clPlans : List (Option SlotPlan) := [some (.cl samplePlan)]

def twoSwaps : ResyncTrace clPlans where
  arrivals := [⟨0, 0⟩, ⟨300, 0⟩]
  closed := none
  sorted := by decide
  closedAfter := nofun
  queued a ha := by
    refine ⟨samplePlan, ?_⟩
    rcases List.mem_cons.mp ha with rfl | ha
    · rfl
    · rw [List.mem_singleton.mp ha]
      rfl

theorem twoSwaps_late : (twoSwaps.flushes 400).map (fun flush => (flush.time, flush.pending.pools)) = [(700, [0])] ∧
    ¬FlushedInWindow 400 twoSwaps := by
  constructor
  · decide
  · intro h
    have hLate := h.inWindow _ (List.mem_singleton_self _) ⟨0, 0⟩ rfl
    exact absurd hLate (by decide)

end Sample

section Steady

variable {plans : List (Option SlotPlan)} {idx : Nat} {plan : ClPlan} (hPlan : plans[idx]? = some (some (.cl plan)))

/-- One pool, again and again, at one instant after another. -/
def steadyTrace (n : Nat) : ResyncTrace plans where
  arrivals := ⟨0, idx⟩ :: (List.range n).map fun i => ⟨i + 1, idx⟩
  closed := none
  sorted := by
    rw [List.pairwise_cons]
    constructor
    · exact fun a _ => Nat.zero_le a.time
    · exact List.pairwise_map.mpr (List.pairwise_le_range.imp Nat.succ_le_succ)
  closedAfter := nofun
  queued a ha := by
    rcases List.mem_cons.mp ha with rfl | ha
    · exact ⟨plan, hPlan⟩
    · obtain ⟨_, -, rfl⟩ := List.mem_map.mp ha
      exact ⟨plan, hPlan⟩

/-- The pool of a steady traffic waits for its flush beyond every bound. -/
theorem steadyTrace_postponed {batchWindow : Nat} (hWindow : 0 < batchWindow) (n : Nat) :
    ∃ flush, (steadyTrace hPlan n).flushes batchWindow = [flush] ∧ flush.time = n + batchWindow := by
  have hTimes : (0 :: ((List.range n).map fun i => (⟨i + 1, idx⟩ : Arrival)).map Arrival.time) = List.range (n + 1) := by
    rw [List.map_map, List.range_succ_eq_map]
    rfl
  have hSteady : (0 :: ((List.range n).map fun i => (⟨i + 1, idx⟩ : Arrival)).map Arrival.time).IsChain
      fun s t => t ≤ s + batchWindow := by
    rw [hTimes, List.isChain_range]
    intro m _
    omega
  have hLast : (((List.range n).map fun i => (⟨i + 1, idx⟩ : Arrival)).map Arrival.time).getLastD 0 = n := by
    have hAll : (0 :: ((List.range n).map fun i => (⟨i + 1, idx⟩ : Arrival)).map Arrival.time).getLastD 0 = n := by
      rw [hTimes]
      simp [List.getLast?_range]
    rwa [List.getLastD_cons] at hAll
  have hRun := flushes_debounce batchWindow (steadyTrace hPlan n)
  change _ = debounce Arrival.time batchWindow none [⟨0, idx⟩] 0 _ at hRun
  rw [debounce_steady (List.cons_ne_nil _ _) hSteady, hLast, List.map_eq_singleton_iff] at hRun
  obtain ⟨flush, hFlush, hBatch⟩ := hRun
  exact ⟨flush, hFlush, congrArg Prod.fst hBatch⟩

end Steady

end Robinarb
