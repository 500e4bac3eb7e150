import Robinarb.Ingest.Pipeline
import Robinarb.Library.Runs

/-! # The fee poller

`run_fee_poll_loop` beside `run_pipeline`. The pipeline performs its effects one at a
time, the poller sleeps between its ticks, and the two share the set `fee_recheck`.
-/

namespace Robinarb

open Runs

/-- The fee fields of the pools' metadata, which the poller rewrites. -/
structure Fees where
  pips : Nat → U32
  bps : Nat → U32

/-- A loop over the answers of one multicall; a word too wide for its decoder panics. -/
structure FeeUpdate where
  fees : Fees
  changed : List Nat
  panicked : Bool

namespace FeeUpdate

def set (u : FeeUpdate) (idx : Nat) (pips bps : U32) : FeeUpdate :=
  ⟨⟨Function.update u.fees.pips idx pips, Function.update u.fees.bps idx bps⟩, u.changed ++ [idx], false⟩

/-- One answer of `fee()`; `none` is a failed call or bytes that do not decode. -/
def clFee (u : FeeUpdate) (answer : Nat × Option U256) : FeeUpdate :=
  match answer.2 with
  | none => u
  | some word =>
    if u.panicked then u
    else if 2 ^ 128 ≤ word.toNat then { u with panicked := true }
    else
      let newFee := word.setWidth 32
      if u.fees.pips answer.1 = newFee then u else u.set answer.1 newFee (newFee / 100)

/-- One answer of `getFee`. -/
def aeroFee (u : FeeUpdate) (answer : Nat × Option U256) : FeeUpdate :=
  match answer.2 with
  | none => u
  | some word =>
    if u.panicked then u
    else if 2 ^ 32 ≤ word.toNat then { u with panicked := true }
    else
      let feeBps := word.setWidth 32
      if u.fees.bps answer.1 = feeBps then u else u.set answer.1 (feeBps * 100) feeBps

end FeeUpdate

inductive PollStage where
  | sleeping
  | readingCl (sweep : Bool) (targets : List Nat)
  | readingAero (changed : List Nat)
  | announcing (changed : List Nat)
  | stopped

/-- The pools whose fee a multicall under way reads. -/
def PollStage.targets : PollStage → List Nat
  | .readingCl _ targets => targets
  | _ => []

structure FeeSetup where
  plans : List (Option SlotPlan)
  tickSpacing : Nat → Int
  feeDynamic : List Nat
  aeroPools : List Nat

/-- The sets are lists without order. -/
structure FeeState where
  pipeline : PipelineState
  todo : List Effect
  feeRecheck : List Nat
  fees : Fees
  poll : PollStage

inductive FeeAction where
  | input (i : PipelineInput)
  | perform
  | tick (sweep : Bool)
  | clRead (answers : List (Option U256))
  | clFails
  | aeroRead (answers : List (Option U256))
  | aeroFails
  | announce
  | announceFails

namespace FeeSetup

variable (setup : FeeSetup)

def readsFeeWord (idx : Nat) : Bool :=
  match setup.plans[idx]?.join with
  | some (.cl plan) =>
    match plan.fee with
    | .word _ => true
    | .fromMeta => false
  | _ => false

def clPools : List Nat := setup.feeDynamic.filter fun idx => !setup.readsFeeWord idx

def booted (fees : Fees) : FeeState :=
  ⟨.initial, [], [], fees, if setup.clPools = [] ∧ setup.aeroPools = [] then .stopped else .sleeping⟩

/-- After the CL pools the sweep goes on with the Aerodrome pools. -/
def afterCl (sweep : Bool) (s : FeeState) (u : FeeUpdate) : FeeState :=
  { s with
    fees := u.fees
    poll :=
      if u.panicked then .stopped
      else if sweep = true ∧ setup.aeroPools ≠ [] then .readingAero u.changed
      else .announcing u.changed }

def step (s : FeeState) : FeeAction → Option FeeState
  | .input i =>
    match s.todo with
    | [] =>
      let next := s.pipeline.handle setup.plans setup.tickSpacing i
      some { s with pipeline := next.1, todo := next.2 }
    | _ :: _ => none
  | .perform =>
    match s.todo with
    | [] => none
    | _ :: rest => some { s with todo := rest }
  | .tick sweep =>
    match s.poll with
    | .sleeping =>
      let targets := if sweep then setup.clPools else s.feeRecheck.filter fun idx => !setup.readsFeeWord idx
      some { s with feeRecheck := [], poll := .readingCl sweep targets }
    | _ => none
  | .clRead answers =>
    match s.poll with
    | .readingCl sweep targets =>
      some (setup.afterCl sweep s ((targets.zip answers).foldl FeeUpdate.clFee ⟨s.fees, [], false⟩))
    | _ => none
  | .clFails =>
    match s.poll with
    | .readingCl sweep targets =>
      some (setup.afterCl sweep { s with feeRecheck := s.feeRecheck ++ targets } ⟨s.fees, [], false⟩)
    | _ => none
  | .aeroRead answers =>
    match s.poll with
    | .readingAero changed =>
      let u := (setup.aeroPools.zip answers).foldl FeeUpdate.aeroFee ⟨s.fees, changed, false⟩
      some { s with fees := u.fees, poll := if u.panicked then .stopped else .announcing u.changed }
    | _ => none
  | .aeroFails =>
    match s.poll with
    | .readingAero changed => some { s with poll := .announcing changed }
    | _ => none
  | .announce =>
    match s.poll with
    | .announcing _ => some { s with poll := .sleeping }
    | _ => none
  | .announceFails =>
    -- the receiver is gone, which only a batch that is sent finds out
    match s.poll with
    | .announcing changed => some { s with poll := if changed = [] then .sleeping else .stopped }
    | _ => none

/-- The batch the pipeline sends next. -/
def sealed? (s : FeeState) : Option ChangedBatch := s.todo.head?.bind (Effect.batch? setup.plans.length)

/-- The poller takes the pool off the set. -/
def Takes (idx : Nat) (s : FeeState) : FeeAction → Prop
  | .tick _ => idx ∈ s.feeRecheck
  | _ => False

/-- A poll of the pool fails. -/
def PutsBack (idx : Nat) (s : FeeState) : FeeAction → Prop
  | .clFails => idx ∈ s.poll.targets
  | _ => False

variable {setup} {idx : Nat} {s t : FeeState} {action : FeeAction}

/-- A step leaves the set alone unless it is the poller's, which empties it at a tick
and fills it only when a poll fails. -/
theorem step_feeRecheck (h : setup.step s action = some t) :
    idx ∈ t.feeRecheck ∨ Takes idx s action ↔ idx ∈ s.feeRecheck ∨ PutsBack idx s action := by
  cases action with
  | input i =>
    simp only [step] at h
    split at h
    · cases h
      exact Iff.rfl
    · cases h
  | perform =>
    simp only [step] at h
    split at h
    · cases h
    · cases h
      exact Iff.rfl
  | tick sweep =>
    simp only [step] at h
    split at h
    · cases h
      exact (or_iff_right List.not_mem_nil).trans (or_iff_left not_false).symm
    · cases h
  | clRead answers =>
    simp only [step] at h
    split at h
    · cases h
      exact Iff.rfl
    · cases h
  | clFails =>
    simp only [step] at h
    split at h
    · rename_i hPoll
      cases h
      have hTargets : PutsBack idx s .clFails ↔ idx ∈ s.poll.targets := Iff.rfl
      rw [hTargets, hPoll]
      exact (or_iff_left not_false).trans List.mem_append
    · cases h
  | aeroRead answers =>
    simp only [step] at h
    split at h
    · cases h
      exact Iff.rfl
    · cases h
  | aeroFails =>
    simp only [step] at h
    split at h
    · cases h
      exact Iff.rfl
    · cases h
  | announce =>
    simp only [step] at h
    split at h
    · cases h
      exact Iff.rfl
    · cases h
  | announceFails =>
    simp only [step] at h
    split at h
    · cases h
      exact Iff.rfl
    · cases h

/-- For every log, and every later moment, the announcement of its batch among them:
the pool is flagged by then, or was and is taken, exactly when an earlier failed poll
left it flagged at its log, or a poll of it failed since. -/
theorem recheck_after_log_iff {block : Nat} {ticks : Option (Int × Int)} {u : FeeState} {between : List FeeAction}
    (hLog : setup.step s (.input (.event (.poolLog block idx ticks))) = some t)
    (hRun : run setup.step t between = some u) :
    idx ∈ u.feeRecheck ∨ Sometime setup.step (Takes idx) t between ↔
      idx ∈ s.feeRecheck ∨ Sometime setup.step (PutsBack idx) t between := by
  have hFlagged : idx ∈ t.feeRecheck ↔ idx ∈ s.feeRecheck := by
    have hStep : idx ∈ t.feeRecheck ∨ Takes idx s _ ↔ _ := step_feeRecheck hLog
    exact (or_iff_left not_false).symm.trans (hStep.trans (or_iff_left not_false))
  rw [← hFlagged]
  exact held_or_taken_iff (fun _ _ _ => step_feeRecheck) hRun

section Sample

/-- One pool whose fee is polled. -/
def sampleFees : FeeSetup where
  plans := [some (.cl ⟨1#160, 0, 4, 0, 5, 6, .packed, .fromMeta⟩)]
  tickSpacing _ := 60
  feeDynamic := [0]
  aeroPools := []

/-- After a sweep whose poll failed. -/
def flaggedState : FeeState := ⟨.initial, [], [0], ⟨fun _ => 0, fun _ => 0⟩, .sleeping⟩

theorem failed_poll_recheck :
    run sampleFees.step (sampleFees.booted flaggedState.fees) [.tick true, .clFails, .announce] = some flaggedState ∧
      ∃ t u, sampleFees.step flaggedState (.input (.event (.poolLog 1 0 none))) = some t ∧
        run sampleFees.step t [.perform, .input .quiet] = some u ∧
        (0 ∈ u.feeRecheck ∨ Sometime sampleFees.step (Takes 0) t [.perform, .input .quiet]) := by
  have hFlagged : 0 ∈ flaggedState.feeRecheck := List.mem_cons_self
  refine ⟨rfl, _, _, rfl, rfl, ?_⟩
  exact (recheck_after_log_iff (show sampleFees.step flaggedState (.input (.event (.poolLog 1 0 none))) = some _ from rfl)
    rfl).mpr (.inl hFlagged)

/-- The pipeline handles a log, seals its batch, and nothing has flagged the pool. -/
theorem log_leaves_fee_unchecked : ¬∀ (setup : FeeSetup) (fees : Fees) (before between : List FeeAction)
    (s t u : FeeState) (block idx : Nat) (ticks : Option (Int × Int)) (batch : ChangedBatch),
    idx ∈ setup.clPools → run setup.step (setup.booted fees) before = some s →
    setup.step s (.input (.event (.poolLog block idx ticks))) = some t → run setup.step t between = some u →
    setup.sealed? u = some batch → idx ∈ batch.pools →
    idx ∈ u.feeRecheck ∨ Sometime setup.step (Takes idx) t between := by
  intro h
  have hFlagged := h sampleFees ⟨fun _ => 0, fun _ => 0⟩ [] [.perform, .input .quiet] _ _ _ 1 0 none _
    (by decide) rfl rfl rfl rfl List.mem_cons_self
  obtain hMem | hTaken | ⟨_, hStep, hTaken | ⟨_, _, hDone⟩⟩ := hFlagged
  · cases hMem
  · exact hTaken
  · exact hTaken
  · exact hDone

end Sample

end FeeSetup

end Robinarb
