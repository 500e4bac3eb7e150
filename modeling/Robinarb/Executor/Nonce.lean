import Robinarb.Library.Runs
import Robinarb.Library.TaskList
import Robinarb.Word

/-! # Nonces of concurrent submissions

`NonceManager` and the part of `Sender::submit` that uses it. Every submission is a
task of its own; a step is one access to the counter, one lane's answer, or one
answer of the chain, so a list of steps is an interleaving.
-/

namespace Robinarb

open Runs

/-- What joining one lane's task gives; a task that panicked gives no answer. -/
inductive LaneResult where
  | accepted
  | rejected
  | crashed
  deriving DecidableEq

inductive SubmitStage where
  | reserved
  | signFailed
  | sent
  | resyncing
  | storing (count : U64)
  | returned
  deriving DecidableEq

/-- The count a task has read and not stored yet. -/
def SubmitStage.count? : SubmitStage → Option U64
  | .storing count => some count
  | _ => none

/-- A task of `Sender::submit`, from the reservation on, with one result for each lane. -/
structure SubmitTask where
  nonce : U64
  results : List (Option LaneResult)
  stage : SubmitStage
  deriving DecidableEq

structure NonceManager where
  next : U64
  tasks : List SubmitTask

inductive NonceStep where
  | reserve
  | sign (task : Nat)
  | signFails (task : Nat)
  | lane (task lane : Nat) (result : LaneResult)
  | join (task : Nat)
  | count (task : Nat) (pending : U64)
  | countFails (task : Nat)
  | store (task : Nat)

namespace SubmitTask

def Signed (task : SubmitTask) : Prop := task.stage ≠ .reserved ∧ task.stage ≠ .signFailed

/-- Signed, and refused by every lane. -/
def Rejected (task : SubmitTask) : Prop := task.Signed ∧ ∀ result ∈ task.results, result = some .rejected

def Dead (task : SubmitTask) : Prop := task.stage = .signFailed ∨ task.Rejected

instance (task : SubmitTask) : Decidable task.Signed := inferInstanceAs (Decidable (_ ∧ _))

instance (task : SubmitTask) : Decidable task.Rejected :=
  have := List.decidableBAll (fun result => result = some LaneResult.rejected) task.results
  inferInstanceAs (Decidable (_ ∧ _))

instance (task : SubmitTask) : Decidable task.Dead := inferInstanceAs (Decidable (_ ∨ _))

end SubmitTask

namespace NonceManager

def new (count : U64) : NonceManager := ⟨count, []⟩

/-- One task takes a step of its own, which may also set the counter. -/
def advance (s : NonceManager) (i : Nat) (f : SubmitTask → Option (SubmitTask × U64)) : Option NonceManager := do
  let task ← s.tasks[i]?
  let (task', next) ← f task
  return ⟨next, s.tasks.set i task'⟩

def step (lanes : Nat) (s : NonceManager) : NonceStep → Option NonceManager
  | .reserve => some ⟨s.next + 1, s.tasks ++ [⟨s.next, [], .reserved⟩]⟩
  | .sign i => s.advance i fun task =>
    if task.stage = .reserved then some (⟨task.nonce, List.replicate lanes none, .sent⟩, s.next) else none
  | .signFails i => s.advance i fun task =>
    if task.stage = .reserved then some ({ task with stage := .signFailed }, s.next) else none
  | .lane i lane result => s.advance i fun task =>
    if task.stage = .sent ∧ task.results[lane]? = some none then
      some ({ task with results := task.results.set lane (some result) }, s.next)
    else none
  | .join i => s.advance i fun task =>
    if task.stage = .sent ∧ none ∉ task.results then
      if some .accepted ∈ task.results then
        some ({ task with stage := .returned }, s.next)
      else some ({ task with stage := .resyncing }, s.next)
    else none
  | .count i pending => s.advance i fun task =>
    if task.stage = .resyncing then some ({ task with stage := .storing pending }, s.next) else none
  | .countFails i => s.advance i fun task =>
    if task.stage = .resyncing then some ({ task with stage := .returned }, s.next) else none
  | .store i => s.advance i fun task =>
    task.stage.count?.map fun pending => ({ task with stage := .returned }, pending)

/-- A signature under a nonce that was signed before comes after every lane refused
the transaction it was signed for. -/
def SignsFresh (s : NonceManager) : NonceStep → Prop
  | .sign i => ∀ task ∈ s.tasks[i]?, task.stage = .reserved →
    ∀ other ∈ s.tasks, other.Signed → other.nonce = task.nonce → other.Rejected
  | _ => True

/-- The counter stays above every nonce that is in use: a reservation does not wrap
it, and a count that is stored has no live nonce at or above it. -/
def CountsInUse (s : NonceManager) : NonceStep → Prop
  | .reserve => s.next.toNat + 1 < 2 ^ 64
  | .store i => ∀ task ∈ s.tasks[i]?, ∀ pending ∈ task.stage.count?,
    ∀ other ∈ s.tasks, pending ≤ other.nonce → other.Dead
  | _ => True

/-- What a task keeps in a step of its own. -/
structure Follows (task task' : SubmitTask) : Prop where
  nonce : task'.nonce = task.nonce
  dead : task.Dead → task'.Dead

variable {lanes i : Nat} {s t : NonceManager} {action : NonceStep} {task : SubmitTask}

theorem advance_follows {f : SubmitTask → Option (SubmitTask × U64)} (h : s.advance i f = some t)
    (hFollows : ∀ task task' next, f task = some (task', next) → Follows task task' ∧
      (next = s.next ∨ action = .store i ∧ task.stage.count? = some next)) :
    ∃ i task task', s.tasks[i]? = some task ∧ Follows task task' ∧ t.tasks = s.tasks.set i task' ∧
      (t.next = s.next ∨ action = .store i ∧ task.stage.count? = some t.next) := by
  obtain ⟨task, hTask, hRest⟩ := Option.bind_eq_some_iff.mp h
  obtain ⟨⟨task', next⟩, hStep, hDone⟩ := Option.bind_eq_some_iff.mp hRest
  obtain rfl := Option.some.inj hDone
  obtain ⟨hTask', hNext⟩ := hFollows task task' next hStep
  exact ⟨i, task, task', hTask, hTask', rfl, hNext⟩

/-- A task at a stage without a lane's verdict is not dead, whatever comes of it. -/
theorem Follows.of_stage {task' : SubmitTask} (hNonce : task'.nonce = task.nonce) (hFailed : task.stage ≠ .signFailed)
    (hKept : task.Rejected → task'.Rejected) : Follows task task' := by
  constructor
  · exact hNonce
  · rintro (hStage | hRejected)
    · exact absurd hStage hFailed
    · exact .inr (hKept hRejected)

theorem Follows.restage {stage : SubmitStage} (hSigned : task.Signed) (hStage : stage ≠ .reserved)
    (hFailed : stage ≠ .signFailed) : Follows task { task with stage } :=
  .of_stage rfl hSigned.2 fun hRejected => ⟨⟨hStage, hFailed⟩, hRejected.2⟩

theorem signed_of_stage {stage : SubmitStage} (h : task.stage = stage) (hReserved : stage ≠ .reserved)
    (hFailed : stage ≠ .signFailed) : task.Signed :=
  ⟨h ▸ hReserved, h ▸ hFailed⟩

theorem step_cases (h : step lanes s action = some t) :
    (action = .reserve ∧ t = ⟨s.next + 1, s.tasks ++ [⟨s.next, [], .reserved⟩]⟩) ∨
    ∃ i task task', s.tasks[i]? = some task ∧ Follows task task' ∧ t.tasks = s.tasks.set i task' ∧
      (t.next = s.next ∨ action = .store i ∧ task.stage.count? = some t.next) := by
  cases action with
  | reserve => exact .inl ⟨rfl, (Option.some.inj h).symm⟩
  | sign i =>
    refine .inr (advance_follows h fun task task' next hStep => ?_)
    obtain ⟨hStage, hEq⟩ := Option.ite_none_right_eq_some.mp hStep
    cases hEq
    refine ⟨.of_stage rfl ?_ ?_, .inl rfl⟩
    · exact fun hFailed => by simp [hStage] at hFailed
    · exact fun hRejected => absurd hStage hRejected.1.1
  | signFails i =>
    refine .inr (advance_follows h fun task task' next hStep => ?_)
    obtain ⟨-, hEq⟩ := Option.ite_none_right_eq_some.mp hStep
    cases hEq
    exact ⟨⟨rfl, fun _ => .inl rfl⟩, .inl rfl⟩
  | lane i lane result =>
    refine .inr (advance_follows h fun task task' next hStep => ?_)
    obtain ⟨⟨hStage, hOpen⟩, hEq⟩ := Option.ite_none_right_eq_some.mp hStep
    cases hEq
    refine ⟨.of_stage rfl ?_ ?_, .inl rfl⟩
    · exact fun hFailed => by simp [hStage] at hFailed
    · exact fun hRejected => absurd (hRejected.2 none (List.mem_of_getElem? hOpen)) nofun
  | join i =>
    refine .inr (advance_follows h fun task task' next hStep => ?_)
    obtain ⟨⟨hStage, -⟩, hEq⟩ := Option.ite_none_right_eq_some.mp hStep
    have hSigned : task.Signed := signed_of_stage hStage nofun nofun
    split at hEq
    · cases hEq
      exact ⟨.restage hSigned nofun nofun, .inl rfl⟩
    · cases hEq
      exact ⟨.restage hSigned nofun nofun, .inl rfl⟩
  | count i pending =>
    refine .inr (advance_follows h fun task task' next hStep => ?_)
    obtain ⟨hStage, hEq⟩ := Option.ite_none_right_eq_some.mp hStep
    cases hEq
    exact ⟨.restage (signed_of_stage hStage nofun nofun) nofun nofun, .inl rfl⟩
  | countFails i =>
    refine .inr (advance_follows h fun task task' next hStep => ?_)
    obtain ⟨hStage, hEq⟩ := Option.ite_none_right_eq_some.mp hStep
    cases hEq
    exact ⟨.restage (signed_of_stage hStage nofun nofun) nofun nofun, .inl rfl⟩
  | store i =>
    refine .inr (advance_follows h fun task task' next hStep => ?_)
    obtain ⟨pending, hCount, hEq⟩ := Option.map_eq_some_iff.mp hStep
    cases hEq
    have hSigned : task.Signed := by
      constructor
      · exact fun hStage => by simp [hStage, SubmitStage.count?] at hCount
      · exact fun hStage => by simp [hStage, SubmitStage.count?] at hCount
    exact ⟨.restage hSigned nofun nofun, .inr ⟨rfl, hCount⟩⟩

/-- Nonces in use lie below the counter, and of two tasks with one nonce the earlier
is dead. -/
structure Ahead (s : NonceManager) : Prop where
  live : ∀ task ∈ s.tasks, s.next ≤ task.nonce → task.Dead
  apart : s.tasks.Pairwise fun earlier later => earlier.nonce = later.nonce → earlier.Dead

theorem Ahead.reserve (h : Ahead s) (hWrap : s.next.toNat + 1 < 2 ^ 64) :
    Ahead ⟨s.next + 1, s.tasks ++ [⟨s.next, [], .reserved⟩]⟩ := by
  have hNext : (s.next + 1).toNat = s.next.toNat + 1 := by
    rw [BitVec.toNat_add, Nat.mod_eq_of_lt]
    · rfl
    · exact hWrap
  constructor
  · intro task hMem hLe
    rw [BitVec.le_def, hNext] at hLe
    obtain hOld | hNew := List.mem_append.mp hMem
    · apply h.live task hOld
      rw [BitVec.le_def]
      omega
    · obtain rfl := List.mem_singleton.mp hNew
      exact absurd hLe (Nat.not_succ_le_self _)
  · apply List.pairwise_append.mpr
    refine ⟨h.apart, List.pairwise_singleton .., ?_⟩
    intro earlier hEarlier later hLater hNonce
    obtain rfl := List.mem_singleton.mp hLater
    apply h.live earlier hEarlier
    rw [hNonce]
    exact BitVec.le_refl _

theorem Ahead.follow {next : U64} {task' : SubmitTask} (h : Ahead s) (hTask : s.tasks[i]? = some task)
    (hFollows : Follows task task') (hNext : ∀ task ∈ s.tasks, next ≤ task.nonce → task.Dead) :
    Ahead ⟨next, s.tasks.set i task'⟩ := by
  have hMem := List.mem_of_getElem? hTask
  constructor
  · intro other hOther hLe
    obtain hOld | rfl := List.mem_or_eq_of_mem_set hOther
    · exact hNext other hOld hLe
    · rw [hFollows.nonce] at hLe
      exact hFollows.dead (hNext task hMem hLe)
  · apply TaskList.pairwise_set h.apart hTask
    · intro earlier _ hPair hNonce
      exact hPair (hNonce.trans hFollows.nonce)
    · intro later _ hPair hNonce
      exact hFollows.dead (hPair (hFollows.nonce.symm.trans hNonce))

theorem Ahead.step (h : Ahead s) (hSafe : CountsInUse s action) (hStep : step lanes s action = some t) : Ahead t := by
  obtain ⟨rfl, rfl⟩ | ⟨i, task, task', hTask, hFollows, hTasks, hNext⟩ := step_cases hStep
  · exact h.reserve hSafe
  · obtain ⟨next, tasks⟩ := t
    obtain rfl : tasks = s.tasks.set i task' := hTasks
    apply h.follow hTask hFollows
    obtain rfl | ⟨rfl, hCount⟩ := hNext
    · exact h.live
    · exact hSafe task hTask next hCount

theorem Ahead.signsFresh (h : Ahead s) (action : NonceStep) : SignsFresh s action := by
  cases action with
  | sign i =>
    intro task hTask hStage other hOther hSigned hNonce
    have hAlive : ¬task.Dead := by
      rintro (hFailed | hRejected)
      · simp [hStage] at hFailed
      · exact hRejected.1.1 hStage
    obtain ⟨j, hj⟩ := List.mem_iff_getElem?.mp hOther
    obtain rfl | hne := eq_or_ne i j
    · obtain rfl := Option.some.inj (hTask.symm.trans hj)
      exact absurd hStage hSigned.1
    · obtain hPair | hPair := TaskList.pairwise_ne h.apart hTask hj hne
      · exact absurd (hPair hNonce.symm) hAlive
      · exact (hPair hNonce).resolve_left hSigned.2
  | _ => trivial

/-- In every interleaving that keeps the counter above the nonces in use, no nonce is
signed again while a lane may still hold it. -/
theorem nonces_not_reused (lanes : Nat) (start : U64) {steps : List NonceStep}
    (hInUse : Each (step lanes) CountsInUse (new start) steps) : Each (step lanes) SignsFresh (new start) steps := by
  have hNew : Ahead (new start) := ⟨nofun, List.Pairwise.nil⟩
  have hStep : ∀ s action t, Ahead s → CountsInUse s action → step lanes s action = some t → Ahead t :=
    fun _ _ _ hAhead hSafe hStep => hAhead.step hSafe hStep
  have hAgree := Each.congr (P := SignsFresh) (Q := fun _ _ => True) hStep
    (fun s action hAhead => iff_of_true (hAhead.signsFresh action) trivial) hNew hInUse
  exact hAgree.mpr (hInUse.mono fun _ _ _ => trivial)

section Sample

/-- Task 0 is refused and stores the count it read after task 1, which holds the next
nonce, was accepted. -/
def lostUpdate (pending : U64) : List NonceStep :=
  [.reserve, .reserve, .sign 0, .lane 0 0 .rejected, .join 0, .count 0 pending, .sign 1, .lane 1 0 .accepted, .store 0,
    .reserve, .sign 2, .reserve, .sign 3]

instance : ∀ s action, Decidable (SignsFresh s action)
  | s, .sign i =>
    have : ∀ task : SubmitTask, Decidable (∀ other ∈ s.tasks, other.Signed → other.nonce = task.nonce → other.Rejected) :=
      fun _ => List.decidableBAll _ s.tasks
    Option.decidableForallMem s.tasks[i]?
  | _, .reserve | _, .signFails _ | _, .lane _ _ _ | _, .join _ | _, .count _ _ | _, .countFails _ | _, .store _ =>
    inferInstanceAs (Decidable True)

instance : ∀ s action, Decidable (CountsInUse s action)
  | s, .store i =>
    have : ∀ pending : U64, Decidable (∀ other ∈ s.tasks, pending ≤ other.nonce → other.Dead) :=
      fun _ => List.decidableBAll _ s.tasks
    have : ∀ task : SubmitTask, Decidable (∀ pending ∈ task.stage.count?,
        ∀ other ∈ s.tasks, pending ≤ other.nonce → other.Dead) := fun task => Option.decidableForallMem task.stage.count?
    Option.decidableForallMem s.tasks[i]?
  | _, .reserve => inferInstanceAs (Decidable (_ < _))
  | _, .sign _ | _, .signFails _ | _, .lane _ _ _ | _, .join _ | _, .count _ _ | _, .countFails _ =>
    inferInstanceAs (Decidable True)

/-- With a count that includes the accepted transaction the same steps are harmless. -/
theorem lostUpdate_seven_fresh : Each (step 1) SignsFresh (new 5#64) (lostUpdate 7#64) :=
  nonces_not_reused 1 5#64 (by decide +kernel)

/-- The count task 0 read was 5, before task 1's nonce 6 was used; it is stored when 6
is on a lane, and two reservations later 6 is signed again. -/
theorem lost_update_reuses_nonce :
    ¬∀ (lanes : Nat) (start : U64) (steps : List NonceStep), Each (step lanes) SignsFresh (new start) steps := by
  intro h
  exact absurd (h 1 5#64 (lostUpdate 5#64)) (by decide +kernel)

end Sample

end NonceManager

end Robinarb
