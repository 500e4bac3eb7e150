import Robinarb.Library.Runs
import Robinarb.Library.TaskList
import Robinarb.Word

/-! # Firing routes

`Sender::run` with the tasks it spawns. The loop checks the blacklist, enters the
route in the in-flight set and spawns, one step each; a task that finishes enters its
revert in the blacklist, refreshes the balances and leaves the in-flight set. The two
structures have no common lock, so the steps interleave.
-/

namespace Robinarb

open Runs

structure Opportunity where
  route : U32
  block : U64
  deriving DecidableEq

/-- Where `run` is with the opportunity it received. -/
inductive RunStage where
  | receiving
  | checked (opp : Opportunity)
  | entered (opp : Opportunity)

def RunStage.checked? : RunStage → Option Opportunity
  | .checked opp => some opp
  | _ => none

def RunStage.entered? : RunStage → Option Opportunity
  | .entered opp => some opp
  | _ => none

/-- A spawned task: in `submit`, in `monitor` after the receipt, back from `submit`,
or gone. -/
inductive TaskStage where
  | submitting
  | refreshing
  | returned
  | removed
  | panicked
  deriving DecidableEq

structure FiringTask where
  opp : Opportunity
  stage : TaskStage

structure Sender where
  blacklist : U32 → Option U64
  inFlight : U32 → Bool
  loop : RunStage
  tasks : List FiringTask

inductive FiringStep where
  | check (opp : Opportunity)
  | enter
  | spawn
  | reverted (task : Nat)
  | landed (task : Nat)
  | refreshed (task : Nat)
  | noReceipt (task : Nat)
  | remove (task : Nat)
  | panics (task : Nat)

namespace FiringTask

def Running (task : FiringTask) : Prop := task.stage ≠ .removed ∧ task.stage ≠ .panicked

instance (task : FiringTask) : Decidable task.Running := inferInstanceAs (Decidable (_ ∧ _))

end FiringTask

namespace Sender

def new : Sender := ⟨fun _ => none, fun _ => false, .receiving, []⟩

def blacklisted (s : Sender) (opp : Opportunity) : Bool :=
  (s.blacklist opp.route).any fun until_ => decide (opp.block < until_)

def restage (s : Sender) (i : Nat) (stages : List TaskStage) (stage : TaskStage)
    (effect : FiringTask → Sender → Sender) : Option Sender := do
  let task ← s.tasks[i]?
  if task.stage ∈ stages then
    return effect task { s with tasks := s.tasks.set i { task with stage } }
  else none

def step (blacklistBlocks : U64) (s : Sender) : FiringStep → Option Sender
  | .check opp =>
    match s.loop with
    | .receiving => some { s with loop := if s.blacklisted opp then .receiving else .checked opp }
    | _ => none
  | .enter => s.loop.checked?.map fun opp =>
    if s.inFlight opp.route then
      { s with loop := .receiving }
    else { s with inFlight := Function.update s.inFlight opp.route true, loop := .entered opp }
  | .spawn => s.loop.entered?.map fun opp =>
    { s with loop := .receiving, tasks := s.tasks ++ [⟨opp, .submitting⟩] }
  | .reverted i => s.restage i [.submitting] .refreshing fun task s =>
    { s with
      blacklist := Function.update s.blacklist task.opp.route (some (task.opp.block + blacklistBlocks)) }
  | .landed i => s.restage i [.submitting] .refreshing fun _ => id
  | .refreshed i => s.restage i [.refreshing] .returned fun _ => id
  | .noReceipt i => s.restage i [.submitting] .returned fun _ => id
  | .remove i => s.restage i [.returned] .removed fun task s =>
    { s with inFlight := Function.update s.inFlight task.opp.route false }
  | .panics i => s.restage i [.submitting, .refreshing] .panicked fun _ => id

/-- A task starts for a route that no other task is running. -/
def StartsAlone (s : Sender) : FiringStep → Prop
  | .spawn => ∀ opp ∈ s.loop.entered?, ∀ task ∈ s.tasks, task.Running → task.opp.route ≠ opp.route
  | _ => True

/-- A task starts for a route that is not suppressed at its block. -/
def StartsUnsuppressed (s : Sender) : FiringStep → Prop
  | .spawn => ∀ opp ∈ s.loop.entered?, s.blacklisted opp = false
  | _ => True

/-- No task leaves the in-flight set behind an opportunity of its route that passed
the check before the route was suppressed. -/
def LeavesInTime (s : Sender) : FiringStep → Prop
  | .remove i => ∀ task ∈ s.tasks[i]?, ∀ opp ∈ s.loop.checked?, opp.route = task.opp.route → s.blacklisted opp = false
  | _ => True

variable {blacklistBlocks : U64} {i : Nat} {s t : Sender} {action : FiringStep} {task : FiringTask} {stage : TaskStage}

theorem restage_eq {stages : List TaskStage} {effect : FiringTask → Sender → Sender}
    (h : s.restage i stages stage effect = some t) : ∃ task, s.tasks[i]? = some task ∧ task.stage ∈ stages ∧
      t = effect task { s with tasks := s.tasks.set i { task with stage } } := by
  obtain ⟨task, hTask, hRest⟩ := Option.bind_eq_some_iff.mp h
  obtain ⟨hStage, hDone⟩ := Option.ite_none_right_eq_some.mp hRest
  exact ⟨task, hTask, hStage, (Option.some.inj hDone).symm⟩

theorem running_of_mem {stages : List TaskStage} (h : task.stage ∈ stages)
    (hStages : ∀ stage ∈ stages, stage ≠ .removed ∧ stage ≠ .panicked) : task.Running :=
  hStages task.stage h

/-- What the in-flight set guarantees: a running task holds its route alone, and so
does an opportunity on its way to a task. -/
structure Exclusive (s : Sender) : Prop where
  held : ∀ task ∈ s.tasks, task.Running → s.inFlight task.opp.route = true
  apart : s.tasks.Pairwise fun a b => a.Running → b.Running → a.opp.route ≠ b.opp.route
  entered : ∀ opp ∈ s.loop.entered?, s.inFlight opp.route = true ∧
    ∀ task ∈ s.tasks, task.Running → task.opp.route ≠ opp.route

/-- An opportunity past the check is not suppressed, or its route is still held. -/
structure Unsuppressed (s : Sender) : Prop where
  checked : ∀ opp ∈ s.loop.checked?, s.blacklisted opp = false ∨ s.inFlight opp.route = true
  entered : ∀ opp ∈ s.loop.entered?, s.blacklisted opp = false

theorem Exclusive.restage (h : Exclusive s) (hTask : s.tasks[i]? = some task) (hRunning : task.Running)
    (stage : TaskStage) : Exclusive { s with tasks := s.tasks.set i { task with stage } } := by
  have hMem := List.mem_of_getElem? hTask
  constructor
  · intro other hOther hOtherRunning
    obtain hOld | rfl := List.mem_or_eq_of_mem_set hOther
    · exact h.held other hOld hOtherRunning
    · exact h.held task hMem hRunning
  · apply TaskList.pairwise_set h.apart hTask
    · exact fun other _ hPair hOther _ => hPair hOther hRunning
    · exact fun other _ hPair _ hOther => hPair hRunning hOther
  · intro opp hOpp
    obtain ⟨hFlight, hAlone⟩ := h.entered opp hOpp
    refine ⟨hFlight, fun other hOther hOtherRunning => ?_⟩
    obtain hOld | rfl := List.mem_or_eq_of_mem_set hOther
    · exact hAlone other hOld hOtherRunning
    · exact hAlone task hMem hRunning

theorem Exclusive.release (h : Exclusive s) {route : U32}
    (hLast : ∀ task ∈ s.tasks, task.Running → task.opp.route ≠ route)
    (hEntered : ∀ opp ∈ s.loop.entered?, opp.route ≠ route) :
    Exclusive { s with inFlight := Function.update s.inFlight route false } := by
  constructor
  · intro task hMem hRunning
    dsimp only
    rw [Function.update_of_ne (hLast task hMem hRunning)]
    exact h.held task hMem hRunning
  · exact h.apart
  · intro opp hOpp
    dsimp only
    rw [Function.update_of_ne (hEntered opp hOpp)]
    exact h.entered opp hOpp

theorem Exclusive.remove (h : Exclusive s) (hTask : s.tasks[i]? = some task) (hRunning : task.Running) :
    Exclusive { s with
      inFlight := Function.update s.inFlight task.opp.route false
      tasks := s.tasks.set i { task with stage := .removed } } := by
  apply (h.restage hTask hRunning .removed).release
  · intro other hOther hOtherRunning
    obtain ⟨j, hj⟩ := List.mem_iff_getElem?.mp hOther
    rw [List.getElem?_set] at hj
    split at hj
    · split at hj
      · obtain rfl := Option.some.inj hj
        exact absurd rfl hOtherRunning.1
      · cases hj
    · rename_i hne
      obtain hPair | hPair := TaskList.pairwise_ne h.apart hTask hj hne
      · exact (hPair hRunning hOtherRunning).symm
      · exact hPair hOtherRunning hRunning
  · exact fun opp hOpp => ((h.entered opp hOpp).2 task (List.mem_of_getElem? hTask) hRunning).symm

theorem Exclusive.enter (h : Exclusive s) {opp : Opportunity} (hFree : s.inFlight opp.route = false) :
    Exclusive { s with inFlight := Function.update s.inFlight opp.route true, loop := .entered opp } := by
  have hAlone : ∀ task ∈ s.tasks, task.Running → task.opp.route ≠ opp.route := by
    intro task hMem hRunning hRoute
    have hHeld := h.held task hMem hRunning
    rw [hRoute, hFree] at hHeld
    cases hHeld
  constructor
  · intro task hMem hRunning
    dsimp only
    rw [Function.update_of_ne (hAlone task hMem hRunning)]
    exact h.held task hMem hRunning
  · exact h.apart
  · rintro other ⟨⟩
    exact ⟨Function.update_self .., hAlone⟩

theorem Exclusive.spawn (h : Exclusive s) {opp : Opportunity} (hEntered : s.loop.entered? = some opp) :
    Exclusive { s with loop := .receiving, tasks := s.tasks ++ [⟨opp, .submitting⟩] } := by
  obtain ⟨hFlight, hAlone⟩ := h.entered opp hEntered
  constructor
  · intro task hMem hRunning
    obtain hOld | hNew := List.mem_append.mp hMem
    · exact h.held task hOld hRunning
    · obtain rfl := List.mem_singleton.mp hNew
      exact hFlight
  · apply List.pairwise_append.mpr
    refine ⟨h.apart, List.pairwise_singleton .., ?_⟩
    intro task hMem other hOther hRunning _
    obtain rfl := List.mem_singleton.mp hOther
    exact hAlone task hMem hRunning
  · exact nofun

theorem Exclusive.step (h : Exclusive s) (hStep : step blacklistBlocks s action = some t) : Exclusive t := by
  cases action with
  | check opp =>
    simp only [Sender.step] at hStep
    split at hStep
    · obtain rfl := Option.some.inj hStep
      refine ⟨h.held, h.apart, ?_⟩
      dsimp only
      split <;> exact nofun
    · cases hStep
  | enter =>
    obtain ⟨opp, -, rfl⟩ := Option.map_eq_some_iff.mp hStep
    split
    · exact ⟨h.held, h.apart, nofun⟩
    · rename_i hFree
      exact h.enter (Bool.eq_false_of_not_eq_true hFree)
  | spawn =>
    obtain ⟨opp, hEntered, rfl⟩ := Option.map_eq_some_iff.mp hStep
    exact h.spawn hEntered
  | reverted i =>
    simp only [Sender.step] at hStep
    obtain ⟨task, hTask, hStage, rfl⟩ := restage_eq hStep
    have hNext := h.restage hTask (running_of_mem hStage (by decide)) .refreshing
    exact ⟨hNext.held, hNext.apart, hNext.entered⟩
  | landed i =>
    obtain ⟨task, hTask, hStage, rfl⟩ := restage_eq hStep
    exact h.restage hTask (running_of_mem hStage (by decide)) .refreshing
  | refreshed i =>
    obtain ⟨task, hTask, hStage, rfl⟩ := restage_eq hStep
    exact h.restage hTask (running_of_mem hStage (by decide)) .returned
  | noReceipt i =>
    obtain ⟨task, hTask, hStage, rfl⟩ := restage_eq hStep
    exact h.restage hTask (running_of_mem hStage (by decide)) .returned
  | remove i =>
    simp only [Sender.step] at hStep
    obtain ⟨task, hTask, hStage, rfl⟩ := restage_eq hStep
    exact h.remove hTask (running_of_mem hStage (by decide))
  | panics i =>
    obtain ⟨task, hTask, hStage, rfl⟩ := restage_eq hStep
    exact h.restage hTask (running_of_mem hStage (by decide)) .panicked

theorem blacklisted_of_ne {opp : Opportunity} {route : U32} (hne : opp.route ≠ route) (until_ : Option U64)
    (tasks : List FiringTask) :
    blacklisted { s with blacklist := Function.update s.blacklist route until_, tasks } opp = s.blacklisted opp := by
  rw [blacklisted, blacklisted]
  dsimp only
  rw [Function.update_of_ne hne]

theorem Unsuppressed.step (h : Unsuppressed s) (hExclusive : Exclusive s) (hLeaves : LeavesInTime s action)
    (hStep : step blacklistBlocks s action = some t) : Unsuppressed t := by
  cases action with
  | check opp =>
    simp only [Sender.step] at hStep
    split at hStep
    · obtain rfl := Option.some.inj hStep
      cases hListed : s.blacklisted opp with
      | true => exact ⟨nofun, nofun⟩
      | false =>
        refine ⟨?_, nofun⟩
        rintro other ⟨⟩
        exact .inl hListed
    · cases hStep
  | enter =>
    obtain ⟨opp, hChecked, rfl⟩ := Option.map_eq_some_iff.mp hStep
    split
    · exact ⟨nofun, nofun⟩
    · rename_i hFree
      refine ⟨nofun, ?_⟩
      rintro other ⟨⟩
      exact (h.checked opp hChecked).resolve_right hFree
  | spawn =>
    obtain ⟨opp, hEntered, rfl⟩ := Option.map_eq_some_iff.mp hStep
    exact ⟨nofun, nofun⟩
  | reverted i =>
    simp only [Sender.step] at hStep
    obtain ⟨task, hTask, hStage, rfl⟩ := restage_eq hStep
    have hRunning := running_of_mem hStage (by decide)
    have hMem := List.mem_of_getElem? hTask
    constructor
    · intro opp hOpp
      obtain hRoute | hRoute := eq_or_ne opp.route task.opp.route
      · right
        rw [hRoute]
        exact hExclusive.held task hMem hRunning
      · rw [blacklisted_of_ne hRoute]
        exact h.checked opp hOpp
    · intro opp hOpp
      rw [blacklisted_of_ne ((hExclusive.entered opp hOpp).2 task hMem hRunning).symm]
      exact h.entered opp hOpp
  | landed i =>
    obtain ⟨task, hTask, hStage, rfl⟩ := restage_eq hStep
    exact ⟨h.checked, h.entered⟩
  | refreshed i =>
    obtain ⟨task, hTask, hStage, rfl⟩ := restage_eq hStep
    exact ⟨h.checked, h.entered⟩
  | noReceipt i =>
    obtain ⟨task, hTask, hStage, rfl⟩ := restage_eq hStep
    exact ⟨h.checked, h.entered⟩
  | remove i =>
    simp only [Sender.step] at hStep
    obtain ⟨task, hTask, hStage, rfl⟩ := restage_eq hStep
    refine ⟨?_, h.entered⟩
    intro opp hOpp
    obtain hRoute | hRoute := eq_or_ne opp.route task.opp.route
    · exact .inl (hLeaves task hTask opp hOpp hRoute)
    · dsimp only
      rw [Function.update_of_ne hRoute]
      exact h.checked opp hOpp
  | panics i =>
    obtain ⟨task, hTask, hStage, rfl⟩ := restage_eq hStep
    exact ⟨h.checked, h.entered⟩

theorem new_exclusive : Exclusive new := ⟨nofun, List.Pairwise.nil, nofun⟩

/-- The in-flight set alone keeps two tasks of one route apart, in every interleaving. -/
theorem starts_alone (blacklistBlocks : U64) (steps : List FiringStep) :
    Each (step blacklistBlocks) StartsAlone new steps := by
  have hStep : ∀ s action t, Exclusive s → True → step blacklistBlocks s action = some t → Exclusive t :=
    fun _ _ _ hExclusive _ hStep => hExclusive.step hStep
  have hAlone : ∀ s action, Exclusive s → (StartsAlone s action ↔ True) := by
    intro s action hExclusive
    cases action with
    | spawn => exact iff_of_true (fun opp hOpp => (hExclusive.entered opp hOpp).2) trivial
    | _ => exact Iff.rfl
  have hTrue : Each (step blacklistBlocks) (fun _ _ => True) new steps :=
    .of_forall (P := fun _ => True) (fun _ _ => trivial) new
  exact (Each.congr hStep hAlone new_exclusive hTrue).mpr hTrue

/-- A task starts for a route that is neither in flight nor suppressed, as long as no
task leaves the in-flight set behind an opportunity it has suppressed since the check. -/
theorem routes_start_clean (blacklistBlocks : U64) {steps : List FiringStep}
    (hLeaves : Each (step blacklistBlocks) LeavesInTime new steps) :
    Each (step blacklistBlocks) (fun s action => StartsAlone s action ∧ StartsUnsuppressed s action) new steps := by
  have hStep : ∀ s action t, Exclusive s ∧ Unsuppressed s → LeavesInTime s action →
      step blacklistBlocks s action = some t → Exclusive t ∧ Unsuppressed t :=
    fun _ _ _ hInv hLeaves hStep => ⟨hInv.1.step hStep, hInv.2.step hInv.1 hLeaves hStep⟩
  have hClean : ∀ s action, Exclusive s ∧ Unsuppressed s →
      (StartsAlone s action ∧ StartsUnsuppressed s action ↔ True) := by
    rintro s action ⟨hExclusive, hUnsuppressed⟩
    apply iff_of_true _ trivial
    cases action with
    | spawn => exact ⟨fun opp hOpp => (hExclusive.entered opp hOpp).2, hUnsuppressed.entered⟩
    | _ => exact ⟨trivial, trivial⟩
  have hTrue := hLeaves.mono fun _ _ _ => trivial
  exact (Each.congr hStep hClean ⟨new_exclusive, nofun, nofun⟩ hLeaves).mpr hTrue

section Sample

instance : ∀ s action, Decidable (StartsUnsuppressed s action)
  | s, .spawn => Option.decidableForallMem s.loop.entered?
  | _, .check _ | _, .enter | _, .reverted _ | _, .landed _ | _, .refreshed _ | _, .noReceipt _ | _, .remove _
  | _, .panics _ => inferInstanceAs (Decidable True)

instance : ∀ s action, Decidable (LeavesInTime s action)
  | s, .remove i =>
    have : ∀ task : FiringTask, Decidable (∀ opp ∈ s.loop.checked?,
        opp.route = task.opp.route → s.blacklisted opp = false) := fun _ => Option.decidableForallMem s.loop.checked?
    Option.decidableForallMem s.tasks[i]?
  | _, .check _ | _, .enter | _, .spawn | _, .reverted _ | _, .landed _ | _, .refreshed _ | _, .noReceipt _
  | _, .panics _ => inferInstanceAs (Decidable True)

/-- The route comes again in the next block, before the first task's receipt. -/
def resurfaced (finish : List FiringStep) : List FiringStep :=
  [.check ⟨7#32, 10#64⟩, .enter, .spawn, .check ⟨7#32, 11#64⟩] ++ finish

/-- Entered while the task still runs, the second opportunity is dropped. -/
theorem resurfaced_dropped_clean : Each (step 5#64) (fun s action => StartsAlone s action ∧ StartsUnsuppressed s action) new
    (resurfaced [.enter, .reverted 0, .refreshed 0, .remove 0, .check ⟨7#32, 16#64⟩, .enter, .spawn]) :=
  routes_start_clean 5#64 (by decide +kernel)

/-- The first task reverts and leaves between the check and the in-flight insert: the
second one starts at block 11 for a route suppressed until block 15. -/
theorem suppressed_route_starts : ¬∀ (blacklistBlocks : U64) (steps : List FiringStep),
    Each (step blacklistBlocks) (fun s action => StartsAlone s action ∧ StartsUnsuppressed s action) new steps := by
  intro h
  have hUnsuppressed := (h 5#64 (resurfaced [.reverted 0, .refreshed 0, .remove 0, .enter, .spawn])).mono
    fun _ _ hClean => hClean.2
  exact absurd hUnsuppressed (by decide +kernel)

end Sample

end Sender

end Robinarb
