import Mathlib.Algebra.Order.Ring.Nat
import Mathlib.Data.List.Nodup

/-! # A server behind a channel

Callers post requests to a channel and wait for the reply on a slot of their own, which
goes along with the request. The server takes the messages in order and gives each to a
worker, who hands the request to an endpoint and passes the answer on to the slot. A
worker may crash and the server may stop: what they hold is dropped.
-/

namespace Mailbox

universe u v

variable {ρ : Type u} {α : Type v}

/-- A request with the slot of its caller. -/
structure Message (ρ : Type u) where
  request : ρ
  caller : Nat
  deriving DecidableEq

/-- A slot whose sender is still there, one that has its answer, one that was dropped. -/
inductive Slot (α : Type v) where
  | waiting
  | filled (answer : α)
  | closed
  deriving DecidableEq

inductive Outcome (α : Type v) where
  | answered (answer : α)
  | dropped
  | gone
  deriving DecidableEq

structure Caller (ρ : Type u) (α : Type v) where
  request : ρ
  slot : Slot α
  outcome : Option (Outcome α)
  deriving DecidableEq

structure Worker (ρ : Type u) where
  message : Message ρ
  sent : Bool
  deriving DecidableEq

/-- `wire` and `heard` record what the endpoint was given, and what it answered. -/
structure State (ρ : Type u) (α : Type v) where
  serving : Bool
  queue : List (Message ρ)
  workers : List (Worker ρ)
  callers : List (Caller ρ α)
  wire : List (Message ρ)
  heard : List (Message ρ × α)
  deriving DecidableEq

inductive Step (ρ : Type u) (α : Type v) where
  | submit (request : ρ)
  | take
  | send (worker : Nat)
  | answer (worker : Nat) (answer : α)
  | crash (worker : Nat)
  | stop
  | collect (caller : Nat)

def Step.isSubmit : Step ρ α → Bool
  | .submit _ => true
  | _ => false

def update (P : Nat → Prop) [DecidablePred P] (f : Caller ρ α → Caller ρ α) (callers : List (Caller ρ α)) :
    List (Caller ρ α) :=
  callers.mapIdx fun i c => if P i then f c else c

def Caller.settle (slot : Slot α) (c : Caller ρ α) : Caller ρ α := { c with slot }

def Slot.outcome : Slot α → Option (Outcome α)
  | .waiting => none
  | .filled a => some (.answered a)
  | .closed => some .dropped

namespace State

def start : State ρ α := ⟨true, [], [], [], [], []⟩

/-- The messages whose slots the server and its workers hold. -/
def held (s : State ρ α) : List (Message ρ) := s.queue ++ s.workers.map Worker.message

def step (s : State ρ α) : Step ρ α → Option (State ρ α)
  | .submit request =>
    some (if s.serving then
      { s with
        queue := s.queue ++ [⟨request, s.callers.length⟩]
        callers := s.callers ++ [⟨request, .waiting, none⟩] }
    else { s with callers := s.callers ++ [⟨request, .closed, some .gone⟩] })
  | .take =>
    match s.queue with
    | [] => none
    | m :: rest => some { s with queue := rest, workers := s.workers ++ [⟨m, false⟩] }
  | .send w =>
    match s.workers[w]? with
    | some ⟨m, false⟩ => some { s with workers := s.workers.set w ⟨m, true⟩, wire := s.wire ++ [m] }
    | _ => none
  | .answer w a =>
    match s.workers[w]? with
    | some ⟨m, true⟩ => some { s with
        workers := s.workers.eraseIdx w
        callers := update (· = m.caller) (.settle (.filled a)) s.callers
        heard := s.heard ++ [(m, a)] }
    | _ => none
  | .crash w =>
    match s.workers[w]? with
    | some ⟨m, _⟩ => some { s with
        workers := s.workers.eraseIdx w
        callers := update (· = m.caller) (.settle .closed) s.callers }
    | none => none
  | .stop =>
    if s.serving then
      some { s with
        serving := false
        queue := []
        workers := []
        callers := update (· ∈ s.held.map Message.caller) (.settle .closed) s.callers }
    else none
  | .collect i =>
    match s.callers[i]? with
    | some c =>
      if c.outcome = none ∧ c.slot.outcome ≠ none then
        some { s with callers := update (· = i) (fun c => { c with outcome := c.slot.outcome }) s.callers }
      else none
    | none => none

/-- The steps, with the workers split at the one that takes the step. -/
inductive Moved : State ρ α → Step ρ α → State ρ α → Prop where
  | posted {s : State ρ α} (request : ρ) (hServing : s.serving = true) : Moved s (.submit request) { s with
      queue := s.queue ++ [⟨request, s.callers.length⟩]
      callers := s.callers ++ [⟨request, .waiting, none⟩] }
  | refused {s : State ρ α} (request : ρ) (hServing : s.serving = false) :
      Moved s (.submit request) { s with callers := s.callers ++ [⟨request, .closed, some .gone⟩] }
  | take {s : State ρ α} {m : Message ρ} {rest : List (Message ρ)} (hQueue : s.queue = m :: rest) :
      Moved s .take { s with queue := rest, workers := s.workers ++ [⟨m, false⟩] }
  | send {s : State ρ α} {before after : List (Worker ρ)} {m : Message ρ} (hWorkers : s.workers = before ++ ⟨m, false⟩ :: after) :
      Moved s (.send before.length) { s with workers := before ++ ⟨m, true⟩ :: after, wire := s.wire ++ [m] }
  | answer {s : State ρ α} {before after : List (Worker ρ)} {m : Message ρ} (a : α)
      (hWorkers : s.workers = before ++ ⟨m, true⟩ :: after) : Moved s (.answer before.length a) { s with
        workers := before ++ after
        callers := update (· = m.caller) (.settle (.filled a)) s.callers
        heard := s.heard ++ [(m, a)] }
  | crash {s : State ρ α} {before after : List (Worker ρ)} {m : Message ρ} {sent : Bool}
      (hWorkers : s.workers = before ++ ⟨m, sent⟩ :: after) : Moved s (.crash before.length) { s with
        workers := before ++ after
        callers := update (· = m.caller) (.settle .closed) s.callers }
  | stop {s : State ρ α} (hServing : s.serving = true) : Moved s .stop { s with
      serving := false
      queue := []
      workers := []
      callers := update (· ∈ s.held.map Message.caller) (.settle .closed) s.callers }
  | collect {s : State ρ α} {i : Nat} {c : Caller ρ α} (hCaller : s.callers[i]? = some c) (hOpen : c.outcome = none)
      (hSettled : c.slot.outcome ≠ none) :
      Moved s (.collect i) { s with callers := update (· = i) (fun c => { c with outcome := c.slot.outcome }) s.callers }

theorem split_at {workers : List (Worker ρ)} {w : Nat} {worker : Worker ρ} (h : workers[w]? = some worker) :
    ∃ before after, workers = before ++ worker :: after ∧ before.length = w := by
  obtain ⟨hLt, rfl⟩ := List.getElem?_eq_some_iff.mp h
  refine ⟨workers.take w, workers.drop (w + 1), ?_, List.length_take_of_le (Nat.le_of_lt hLt)⟩
  rw [List.getElem_cons_drop, List.take_append_drop]

theorem moved_of_step {s t : State ρ α} {label : Step ρ α} (h : s.step label = some t) : Moved s label t := by
  cases label with
  | submit request =>
    obtain rfl := Option.some.inj h
    split
    · exact .posted request ‹_›
    · exact .refused request (Bool.eq_false_iff.mpr ‹_›)
  | take =>
    simp only [step] at h
    split at h
    · cases h
    · cases h
      exact .take ‹_›
  | send w =>
    simp only [step] at h
    split at h
    · rename_i m hWorker
      obtain ⟨before, after, hSplit, rfl⟩ := split_at hWorker
      cases h
      rw [hSplit, List.set_append_right _ _ (Nat.le_refl _), Nat.sub_self, List.set_cons_zero]
      exact .send hSplit
    · cases h
  | answer w a =>
    simp only [step] at h
    split at h
    · rename_i m hWorker
      obtain ⟨before, after, hSplit, rfl⟩ := split_at hWorker
      cases h
      rw [hSplit, List.eraseIdx_append_of_length_le (Nat.le_refl _), Nat.sub_self, List.eraseIdx_cons_zero]
      exact .answer a hSplit
    · cases h
  | crash w =>
    simp only [step] at h
    split at h
    · rename_i m sent hWorker
      obtain ⟨before, after, hSplit, rfl⟩ := split_at hWorker
      cases h
      rw [hSplit, List.eraseIdx_append_of_length_le (Nat.le_refl _), Nat.sub_self, List.eraseIdx_cons_zero]
      exact .crash hSplit
    · cases h
  | stop =>
    obtain ⟨hServing, hEnd⟩ := Option.ite_none_right_eq_some.mp h
    cases hEnd
    exact .stop hServing
  | collect i =>
    simp only [step] at h
    split at h
    · rename_i c hCaller
      obtain ⟨⟨hOpen, hSettled⟩, hEnd⟩ := Option.ite_none_right_eq_some.mp h
      cases hEnd
      exact .collect hCaller hOpen hSettled
    · cases h

end State

section Callers

variable {callers : List (Caller ρ α)} {P : Nat → Prop} [DecidablePred P] {f : Caller ρ α → Caller ρ α} {i : Nat}
  {c' : Caller ρ α}

theorem update_eq_some (h : (update P f callers)[i]? = some c') :
    ∃ c, callers[i]? = some c ∧ c' = if P i then f c else c := by
  rw [update, List.getElem?_mapIdx] at h
  obtain ⟨c, hc, hEq⟩ := Option.map_eq_some_iff.mp h
  exact ⟨c, hc, hEq.symm⟩

theorem getElem?_update {c : Caller ρ α} (h : callers[i]? = some c) :
    (update P f callers)[i]? = some (if P i then f c else c) := by
  rw [update, List.getElem?_mapIdx, h]
  rfl

theorem push_eq_some {c : Caller ρ α} (h : (callers ++ [c])[i]? = some c') :
    callers[i]? = some c' ∨ i = callers.length ∧ c' = c := by
  rw [List.getElem?_append] at h
  split at h
  · exact .inl h
  · obtain ⟨hOnly, hEq⟩ := List.getElem?_eq_some_iff.mp h
    rw [List.getElem_singleton] at hEq
    rw [List.length_singleton] at hOnly
    exact .inr ⟨by omega, hEq.symm⟩

theorem getElem?_push {c d : Caller ρ α} (h : callers[i]? = some c) : (callers ++ [d])[i]? = some c := by
  rw [List.getElem?_append_left (List.getElem?_eq_some_iff.mp h).1]
  exact h

end Callers

section Routing

/-- Every message held is of the caller whose slot it names, every open slot is named by
one, and a server that has stopped holds none. -/
structure Routed (s : State ρ α) : Prop where
  own : ∀ m ∈ s.held, ∃ c, s.callers[m.caller]? = some c ∧ c.request = m.request
  apart : (s.held.map Message.caller).Nodup
  waiting : ∀ i c, s.callers[i]? = some c → (c.slot = .waiting ↔ i ∈ s.held.map Message.caller)
  stopped : s.serving = false → s.held = []

variable {s t : State ρ α} {label : Step ρ α}

theorem held_perm {before after : List (Worker ρ)} {m : Message ρ} {sent : Bool}
    (hWorkers : s.workers = before ++ ⟨m, sent⟩ :: after) :
    s.held.Perm (m :: (s.queue ++ (before ++ after).map Worker.message)) := by
  rw [State.held, hWorkers, List.map_append, List.map_cons, List.map_append, ← List.append_assoc, ← List.append_assoc]
  exact List.perm_middle

theorem Routed.lt (h : Routed s) {i : Nat} (hi : i ∈ s.held.map Message.caller) : i < s.callers.length := by
  obtain ⟨m, hm, rfl⟩ := List.mem_map.mp hi
  obtain ⟨c, hc, -⟩ := h.own m hm
  exact (List.getElem?_eq_some_iff.mp hc).1

theorem Routed.perm (h : Routed s) (hHeld : t.held.Perm s.held) (hCallers : t.callers = s.callers)
    (hServing : t.serving = s.serving) : Routed t where
  own m hm := hCallers ▸ h.own m (hHeld.mem_iff.mp hm)
  apart := ((hHeld.map _).nodup_iff).mpr h.apart
  waiting i c hc := by
    rw [(hHeld.map _).mem_iff]
    exact h.waiting i c (hCallers ▸ hc)
  stopped hStopped := by
    rw [h.stopped (hServing ▸ hStopped)] at hHeld
    exact hHeld.eq_nil

/-- Messages leave the server, and their slots are settled. -/
theorem Routed.settle (h : Routed s) (gone : List (Message ρ)) (slot : Slot α) {P : Nat → Prop} [DecidablePred P]
    (hHeld : s.held.Perm (gone ++ t.held)) (hP : ∀ i, P i ↔ i ∈ gone.map Message.caller) (hSlot : slot ≠ .waiting)
    (hCallers : t.callers = update P (.settle slot) s.callers) (hStopped : t.serving = false → t.held = []) : Routed t := by
  have hApart := ((hHeld.map Message.caller).nodup_iff).mp h.apart
  rw [List.map_append, List.nodup_append] at hApart
  obtain ⟨-, hRest, hDisjoint⟩ := hApart
  refine ⟨fun m hm => ?_, hRest, fun i c' hc' => ?_, hStopped⟩
  · obtain ⟨c, hc, hRequest⟩ := h.own m (hHeld.mem_iff.mpr (List.mem_append_right _ hm))
    refine ⟨_, hCallers ▸ getElem?_update hc, ?_⟩
    split
    · exact hRequest
    · exact hRequest
  · rw [hCallers] at hc'
    obtain ⟨c, hc, rfl⟩ := update_eq_some hc'
    have hWaiting := h.waiting i c hc
    rw [(hHeld.map _).mem_iff, List.map_append, List.mem_append, ← hP] at hWaiting
    split
    · rename_i hGone
      constructor
      · exact fun hOpen => absurd hOpen hSlot
      · exact fun hKept => absurd rfl (hDisjoint i ((hP i).mp hGone) i hKept)
    · rename_i hNotGone
      rw [hWaiting, or_iff_right hNotGone]

theorem Routed.step (h : Routed s) (hStep : s.step label = some t) : Routed t := by
  cases State.moved_of_step hStep with
  | posted request hServing =>
    have hHeld : State.held { s with
        queue := s.queue ++ [⟨request, s.callers.length⟩]
        callers := s.callers ++ [⟨request, .waiting, none⟩] } =
        s.queue ++ (⟨request, s.callers.length⟩ :: s.workers.map Worker.message) := by
      rw [State.held, List.append_assoc]
      rfl
    have hPerm : (s.queue ++ (⟨request, s.callers.length⟩ :: s.workers.map Worker.message)).Perm
        (⟨request, s.callers.length⟩ :: s.held) := List.perm_middle
    refine ⟨fun m hm => ?_, ?_, fun i c hc => ?_, fun hStopped => ?_⟩
    · rw [hHeld, hPerm.mem_iff] at hm
      obtain rfl | hOld := List.mem_cons.mp hm
      · exact ⟨⟨request, .waiting, none⟩, List.getElem?_concat_length, rfl⟩
      · obtain ⟨c, hc, hRequest⟩ := h.own m hOld
        exact ⟨c, getElem?_push hc, hRequest⟩
    · rw [hHeld, (hPerm.map _).nodup_iff, List.map_cons, List.nodup_cons]
      exact ⟨fun hOld => Nat.lt_irrefl _ (h.lt hOld), h.apart⟩
    · rw [hHeld, (hPerm.map _).mem_iff, List.map_cons, List.mem_cons]
      obtain hOld | ⟨rfl, rfl⟩ := push_eq_some hc
      · have hNe : i ≠ s.callers.length := Nat.ne_of_lt (List.getElem?_eq_some_iff.mp hOld).1
        rw [h.waiting i c hOld, or_iff_right hNe]
      · exact ⟨fun _ => .inl rfl, fun _ => rfl⟩
    · exact absurd (hServing.symm.trans hStopped) nofun
  | refused request hServing =>
    have hNone := h.stopped hServing
    refine ⟨fun m hm => ?_, h.apart, fun i c hc => ?_, h.stopped⟩
    · change m ∈ s.held at hm
      rw [hNone] at hm
      cases hm
    · obtain hOld | ⟨rfl, rfl⟩ := push_eq_some hc
      · exact h.waiting i c hOld
      · change _ ↔ _ ∈ s.held.map Message.caller
        rw [hNone]
        exact ⟨nofun, nofun⟩
  | take hQueue =>
    refine h.perm ?_ rfl rfl
    rw [State.held, State.held, hQueue, List.map_append, ← List.append_assoc]
    exact List.perm_append_comm
  | send hWorkers =>
    refine h.perm (.of_eq ?_) rfl rfl
    rw [State.held, State.held, hWorkers, List.map_append, List.map_append]
    rfl
  | @answer before after m a hWorkers =>
    refine h.settle [m] (.filled a) (held_perm hWorkers) (fun i => List.mem_singleton.symm) nofun rfl fun hStopped => ?_
    have hHeld := held_perm hWorkers
    rw [h.stopped hStopped] at hHeld
    cases hHeld.symm.eq_nil
  | @crash before after m sent hWorkers =>
    refine h.settle [m] .closed (held_perm hWorkers) (fun i => List.mem_singleton.symm) nofun rfl fun hStopped => ?_
    have hHeld := held_perm hWorkers
    rw [h.stopped hStopped] at hHeld
    cases hHeld.symm.eq_nil
  | stop hServing =>
    refine h.settle s.held .closed ?_ (fun i => Iff.rfl) nofun rfl fun _ => rfl
    exact .of_eq (List.append_nil _).symm
  | @collect i c hCaller hOpen hSettled =>
    refine ⟨fun m hm => ?_, h.apart, fun j c' hc' => ?_, h.stopped⟩
    · obtain ⟨d, hd, hRequest⟩ := h.own m hm
      refine ⟨_, getElem?_update hd, ?_⟩
      split
      · exact hRequest
      · exact hRequest
    · obtain ⟨d, hd, rfl⟩ := update_eq_some hc'
      change _ ↔ _ ∈ s.held.map Message.caller
      rw [← h.waiting j d hd]
      split
      · exact Iff.rfl
      · exact Iff.rfl

end Routing

section Wire

variable {s t : State ρ α} {label : Step ρ α}

/-- What the endpoint was given: requests of callers, each once, and all that was answered. -/
structure Wired (s : State ρ α) : Prop where
  own : ∀ m ∈ s.wire, ∃ c, s.callers[m.caller]? = some c ∧ c.request = m.request
  once : (s.wire.map Message.caller).Nodup
  queued : ∀ m ∈ s.queue, m.caller ∉ s.wire.map Message.caller
  unsent : ∀ w ∈ s.workers, w.sent = false → w.message.caller ∉ s.wire.map Message.caller
  sent : ∀ w ∈ s.workers, w.sent = true → w.message ∈ s.wire
  heard : ∀ entry ∈ s.heard, entry.1 ∈ s.wire

/-- A caller stays what it is, and an outcome is final. -/
theorem caller_kept (hStep : s.step label = some t) {i : Nat} {c : Caller ρ α} (hc : s.callers[i]? = some c) :
    ∃ c', t.callers[i]? = some c' ∧ c'.request = c.request ∧ ∀ o, c.outcome = some o → c'.outcome = some o := by
  have hSettle : ∀ (P : Nat → Prop) [DecidablePred P] (slot : Slot α), ∃ c', (update P (.settle slot) s.callers)[i]? = some c' ∧
      c'.request = c.request ∧ ∀ o, c.outcome = some o → c'.outcome = some o := by
    intro P _ slot
    refine ⟨_, getElem?_update hc, ?_⟩
    split
    · exact ⟨rfl, fun _ => id⟩
    · exact ⟨rfl, fun _ => id⟩
  cases State.moved_of_step hStep with
  | posted request hServing => exact ⟨c, getElem?_push hc, rfl, fun _ => id⟩
  | refused request hServing => exact ⟨c, getElem?_push hc, rfl, fun _ => id⟩
  | take hQueue => exact ⟨c, hc, rfl, fun _ => id⟩
  | send hWorkers => exact ⟨c, hc, rfl, fun _ => id⟩
  | answer a hWorkers => exact hSettle _ _
  | crash hWorkers => exact hSettle _ _
  | stop hServing => exact hSettle _ _
  | collect hCaller hOpen hSettled =>
    refine ⟨_, getElem?_update hc, ?_⟩
    split
    · rename_i hHere
      obtain rfl := Option.some.inj ((hHere ▸ hc).symm.trans hCaller)
      exact ⟨rfl, fun o ho => absurd (hOpen.symm.trans ho) nofun⟩
    · exact ⟨rfl, fun _ => id⟩

theorem callers_length (hStep : s.step label = some t) (hOld : label.isSubmit = false) :
    t.callers.length = s.callers.length := by
  cases State.moved_of_step hStep with
  | posted request hServing => cases hOld
  | refused request hServing => cases hOld
  | take hQueue => rfl
  | send hWorkers => rfl
  | answer a hWorkers => exact List.length_mapIdx
  | crash hWorkers => exact List.length_mapIdx
  | stop hServing => exact List.length_mapIdx
  | collect hCaller hOpen hSettled => exact List.length_mapIdx

/-- A request that is submitted is the next caller's. -/
theorem submit_callers {request : ρ} (hStep : s.step (.submit request) = some t) :
    ∃ c, t.callers = s.callers ++ [c] ∧ c.request = request := by
  cases State.moved_of_step hStep with
  | posted request hServing => exact ⟨_, rfl, rfl⟩
  | refused request hServing => exact ⟨_, rfl, rfl⟩

theorem mem_split {before after : List (Worker ρ)} {w x : Worker ρ} (h : w ∈ before ++ after) : w ∈ before ++ x :: after := by
  obtain hMem | hMem := List.mem_append.mp h
  · exact List.mem_append_left _ hMem
  · exact List.mem_append_right _ (List.mem_cons_of_mem _ hMem)

theorem Wired.lt (h : Wired s) {i : Nat} (hi : i ∈ s.wire.map Message.caller) : i < s.callers.length := by
  obtain ⟨m, hm, rfl⟩ := List.mem_map.mp hi
  obtain ⟨c, hc, -⟩ := h.own m hm
  exact (List.getElem?_eq_some_iff.mp hc).1

/-- A step that gives the endpoint nothing keeps this, with what it leaves of the messages. -/
theorem Wired.keep (h : Wired s) (hStep : s.step label = some t) (hWire : t.wire = s.wire)
    (hQueue : ∀ m ∈ t.queue, m ∈ s.queue ∨ m.caller = s.callers.length)
    (hWorkers : ∀ w ∈ t.workers, w ∈ s.workers ∨ w.sent = false ∧ w.message ∈ s.queue)
    (hHeard : ∀ entry ∈ t.heard, entry.1 ∈ s.wire) : Wired t where
  own m hm := by
    obtain ⟨c, hc, hRequest⟩ := h.own m (hWire ▸ hm)
    obtain ⟨c', hc', hKept, -⟩ := caller_kept hStep hc
    exact ⟨c', hc', hKept.trans hRequest⟩
  once := hWire ▸ h.once
  queued m hm := by
    rw [hWire]
    obtain hOld | hNew := hQueue m hm
    · exact h.queued m hOld
    · exact fun hBefore => Nat.lt_irrefl _ (h.lt (hNew ▸ hBefore))
  unsent w hw hUnsent := by
    rw [hWire]
    obtain hOld | ⟨-, hTaken⟩ := hWorkers w hw
    · exact h.unsent w hOld hUnsent
    · exact h.queued _ hTaken
  sent w hw hSent := by
    rw [hWire]
    obtain hOld | ⟨hUnsent, -⟩ := hWorkers w hw
    · exact h.sent w hOld hSent
    · exact absurd (hUnsent.symm.trans hSent) nofun
  heard entry hEntry := hWire ▸ hHeard entry hEntry

theorem Wired.step (h : Wired s) (hRouted : Routed s) (hStep : s.step label = some t) : Wired t := by
  have hMoved := State.moved_of_step hStep
  cases hMoved with
  | posted request hServing =>
    refine h.keep hStep rfl (fun m hm => ?_) (fun w hw => .inl hw) h.heard
    exact (List.mem_append.mp hm).imp_right fun hNew => congrArg Message.caller (List.mem_singleton.mp hNew)
  | refused request hServing => exact h.keep hStep rfl (fun m hm => .inl hm) (fun w hw => .inl hw) h.heard
  | @take m rest hQueue =>
    refine h.keep hStep rfl (fun m' hm => .inl ?_) (fun w hw => ?_) h.heard
    · rw [hQueue]
      exact List.mem_cons_of_mem _ hm
    · refine (List.mem_append.mp hw).imp_right fun hNew => ?_
      obtain rfl := List.mem_singleton.mp hNew
      rw [hQueue]
      exact ⟨rfl, List.mem_cons_self⟩
  | @send before after m hWorkers =>
    have hApart := (((held_perm hWorkers).map Message.caller).nodup_iff).mp hRouted.apart
    rw [List.map_cons, List.nodup_cons] at hApart
    have hOther : ∀ m' ∈ s.queue ++ (before ++ after).map Worker.message, m'.caller ≠ m.caller :=
      fun m' hm' hSame => hApart.1 (hSame ▸ List.mem_map_of_mem hm')
    have hFresh : m.caller ∉ s.wire.map Message.caller :=
      h.unsent ⟨m, false⟩ (hWorkers ▸ List.mem_append_right _ List.mem_cons_self) rfl
    have hAdded : ∀ i, i ∈ (s.wire ++ [m]).map Message.caller → i ∈ s.wire.map Message.caller ∨ i = m.caller := by
      intro i hi
      rw [List.map_append, List.mem_append] at hi
      exact hi.imp_right List.mem_singleton.mp
    have hWorkerOther : ∀ w ∈ before ++ after, w.message.caller ≠ m.caller :=
      fun w hw => hOther _ (List.mem_append_right _ (List.mem_map_of_mem hw))
    have hSplit : ∀ w ∈ before ++ ⟨m, true⟩ :: after, w = ⟨m, true⟩ ∨ w ∈ before ++ after := by
      intro w hw
      rw [List.mem_append, List.mem_cons] at hw
      rw [List.mem_append]
      tauto
    refine ⟨fun m' hm' => ?_, ?_, fun m' hm' hIn => ?_, fun w hw hUnsent hIn => ?_, fun w hw hSent => ?_, fun entry hEntry => ?_⟩
    · obtain hOld | hNew := List.mem_append.mp hm'
      · exact h.own m' hOld
      · obtain rfl := List.mem_singleton.mp hNew
        exact hRouted.own m' ((held_perm hWorkers).mem_iff.mpr List.mem_cons_self)
    · rw [List.map_append, List.nodup_append]
      refine ⟨h.once, List.nodup_singleton _, fun i hi j hj hSame => ?_⟩
      exact hFresh (List.mem_singleton.mp hj ▸ hSame ▸ hi)
    · obtain hOld | hSame := hAdded _ hIn
      · exact h.queued m' hm' hOld
      · exact hOther m' (List.mem_append_left _ hm') hSame
    · obtain rfl | hRest := hSplit w hw
      · cases hUnsent
      · obtain hOld | hSame := hAdded _ hIn
        · exact h.unsent w (hWorkers ▸ mem_split hRest) hUnsent hOld
        · exact hWorkerOther w hRest hSame
    · obtain rfl | hRest := hSplit w hw
      · exact List.mem_append_right _ (List.mem_singleton_self m)
      · exact List.mem_append_left _ (h.sent w (hWorkers ▸ mem_split hRest) hSent)
    · exact List.mem_append_left _ (h.heard entry hEntry)
  | @answer before after m a hWorkers =>
    refine h.keep hStep rfl (fun m' hm => .inl hm) (fun w hw => .inl (hWorkers ▸ mem_split hw)) fun entry hEntry => ?_
    obtain hOld | hNew := List.mem_append.mp hEntry
    · exact h.heard entry hOld
    · obtain rfl := List.mem_singleton.mp hNew
      exact h.sent ⟨m, true⟩ (hWorkers ▸ List.mem_append_right _ List.mem_cons_self) rfl
  | crash hWorkers => exact h.keep hStep rfl (fun m hm => .inl hm) (fun w hw => .inl (hWorkers ▸ mem_split hw)) h.heard
  | stop hServing => exact h.keep hStep rfl nofun nofun h.heard
  | collect hCaller hOpen hSettled => exact h.keep hStep rfl (fun m hm => .inl hm) (fun w hw => .inl hw) h.heard

end Wire

section Outcomes

variable {s t : State ρ α} {label : Step ρ α}

/-- A slot is filled by the answer to its caller's own request, and a caller returns what
its slot says, or was refused before anything of its request was sent. -/
structure Settled (s : State ρ α) : Prop where
  filled : ∀ i c a, s.callers[i]? = some c → c.slot = .filled a → (⟨c.request, i⟩, a) ∈ s.heard
  returned : ∀ i c o, s.callers[i]? = some c → c.outcome = some o →
    c.slot.outcome = some o ∨ o = .gone ∧ c.slot = .closed ∧ i ∉ s.wire.map Message.caller

theorem Settled.settle (h : Settled s) (hRouted : Routed s) (slot : Slot α) {P : Nat → Prop} [DecidablePred P]
    (hP : ∀ i, P i → i ∈ s.held.map Message.caller)
    (hFilled : ∀ i c a, s.callers[i]? = some c → P i → slot = .filled a → (⟨c.request, i⟩, a) ∈ t.heard)
    (hHeard : ∀ entry ∈ s.heard, entry ∈ t.heard) (hWire : t.wire = s.wire)
    (hCallers : t.callers = update P (.settle slot) s.callers) : Settled t := by
  constructor
  · intro i c' a hc' hSlot
    rw [hCallers] at hc'
    obtain ⟨c, hc, rfl⟩ := update_eq_some hc'
    split at hSlot
    · rename_i hGone
      rw [if_pos hGone]
      exact hFilled i c a hc hGone hSlot
    · rename_i hKept
      rw [if_neg hKept]
      exact hHeard _ (h.filled i c a hc hSlot)
  · intro i c' o hc' hOutcome
    rw [hCallers] at hc'
    obtain ⟨c, hc, rfl⟩ := update_eq_some hc'
    rw [hWire]
    split at hOutcome
    · rename_i hGone
      -- the slot was open until now, so its caller cannot have returned
      have hWaiting := (hRouted.waiting i c hc).mpr (hP i hGone)
      obtain hSaid | ⟨-, hClosed, -⟩ := h.returned i c o hc hOutcome
      · rw [hWaiting] at hSaid
        cases hSaid
      · rw [hWaiting] at hClosed
        cases hClosed
    · rename_i hKept
      rw [if_neg hKept]
      exact h.returned i c o hc hOutcome

theorem Settled.step (h : Settled s) (hRouted : Routed s) (hWired : Wired s) (hStep : s.step label = some t) : Settled t := by
  cases State.moved_of_step hStep with
  | posted request hServing =>
    constructor
    · intro i c a hc hSlot
      obtain hOld | ⟨rfl, rfl⟩ := push_eq_some hc
      · exact h.filled i c a hOld hSlot
      · cases hSlot
    · intro i c o hc hOutcome
      obtain hOld | ⟨rfl, rfl⟩ := push_eq_some hc
      · exact h.returned i c o hOld hOutcome
      · cases hOutcome
  | refused request hServing =>
    constructor
    · intro i c a hc hSlot
      obtain hOld | ⟨rfl, rfl⟩ := push_eq_some hc
      · exact h.filled i c a hOld hSlot
      · cases hSlot
    · intro i c o hc hOutcome
      obtain hOld | ⟨rfl, rfl⟩ := push_eq_some hc
      · exact h.returned i c o hOld hOutcome
      · cases hOutcome
        exact .inr ⟨rfl, rfl, fun hBefore => Nat.lt_irrefl _ (hWired.lt hBefore)⟩
  | take hQueue => exact ⟨h.filled, h.returned⟩
  | @send before after m hWorkers =>
    refine ⟨h.filled, fun i c o hc hOutcome => (h.returned i c o hc hOutcome).imp_right ?_⟩
    rintro ⟨rfl, hClosed, hNever⟩
    refine ⟨rfl, hClosed, fun hNow => ?_⟩
    rw [List.map_append, List.mem_append] at hNow
    obtain hBefore | hNow := hNow
    · exact hNever hBefore
    · have hHeld : i ∈ s.held.map Message.caller := by
        rw [List.mem_singleton.mp hNow]
        exact List.mem_map_of_mem ((held_perm hWorkers).mem_iff.mpr List.mem_cons_self)
      rw [← hRouted.waiting i c hc, hClosed] at hHeld
      cases hHeld
  | @answer before after m a hWorkers =>
    have hMem : m ∈ s.held := (held_perm hWorkers).mem_iff.mpr List.mem_cons_self
    refine h.settle hRouted (.filled a) (fun i (hi : i = m.caller) => hi ▸ List.mem_map_of_mem hMem) ?_
      (fun entry hEntry => List.mem_append_left _ hEntry) rfl rfl
    rintro i c b hc rfl hSlot
    cases hSlot
    obtain ⟨d, hd, hRequest⟩ := hRouted.own m hMem
    obtain rfl := Option.some.inj (hc.symm.trans hd)
    rw [hRequest]
    exact List.mem_append_right _ (List.mem_singleton_self _)
  | @crash before after m sent hWorkers =>
    have hMem : m ∈ s.held := (held_perm hWorkers).mem_iff.mpr List.mem_cons_self
    exact h.settle hRouted .closed (fun i (hi : i = m.caller) => hi ▸ List.mem_map_of_mem hMem) (fun _ _ _ _ _ => nofun)
      (fun _ => id) rfl rfl
  | stop hServing => exact h.settle hRouted .closed (fun i hi => hi) (fun _ _ _ _ _ => nofun) (fun _ => id) rfl rfl
  | @collect i c hCaller hOpen hSettled =>
    constructor
    · intro j c' a hc' hSlot
      obtain ⟨d, hd, rfl⟩ := update_eq_some hc'
      have hKept : ∀ P : Prop, [Decidable P] → (if P then { d with outcome := d.slot.outcome } else d).slot = d.slot ∧
          (if P then { d with outcome := d.slot.outcome } else d).request = d.request := by
        intro P _
        split
        · exact ⟨rfl, rfl⟩
        · exact ⟨rfl, rfl⟩
      rw [(hKept (j = i)).1] at hSlot
      rw [(hKept (j = i)).2]
      exact h.filled j d a hd hSlot
    · intro j c' o hc' hOutcome
      obtain ⟨d, hd, rfl⟩ := update_eq_some hc'
      split at hOutcome
      · rename_i hHere
        rw [if_pos hHere]
        exact .inl hOutcome
      · rename_i hOther
        rw [if_neg hOther]
        exact h.returned j d o hd hOutcome

/-- Messages reach whom they are of, the endpoint is given each request once, and a caller
returns what was answered to its own. -/
structure Sound (s : State ρ α) : Prop where
  routed : Routed s
  wired : Wired s
  settled : Settled s

theorem sound_start : Sound (State.start : State ρ α) where
  routed := ⟨nofun, List.nodup_nil, nofun, nofun⟩
  wired := ⟨nofun, List.nodup_nil, nofun, nofun, nofun, nofun⟩
  settled := ⟨nofun, nofun⟩

theorem Sound.step (h : Sound s) (hStep : s.step label = some t) : Sound t where
  routed := h.routed.step hStep
  wired := h.wired.step h.routed hStep
  settled := h.settled.step h.routed h.wired hStep

theorem Slot.outcome_ne_gone (slot : Slot α) : slot.outcome ≠ some .gone := by
  cases slot <;> nofun

theorem Slot.filled_of_outcome {slot : Slot α} {a : α} (h : slot.outcome = some (.answered a)) : slot = .filled a := by
  cases slot with
  | waiting => cases h
  | filled b =>
    cases h
    rfl
  | closed => cases h

/-- What a caller returns as the answer was answered to its own request. -/
theorem Sound.heard_of_answered (h : Sound s) {i : Nat} {c : Caller ρ α} {a : α} (hc : s.callers[i]? = some c)
    (hOutcome : c.outcome = some (.answered a)) : (⟨c.request, i⟩, a) ∈ s.heard := by
  obtain hSlot | ⟨hGone, -⟩ := h.settled.returned i c _ hc hOutcome
  · exact h.settled.filled i c a hc (Slot.filled_of_outcome hSlot)
  · cases hGone

theorem Sound.unsent_of_gone (h : Sound s) {i : Nat} {c : Caller ρ α} (hc : s.callers[i]? = some c)
    (hOutcome : c.outcome = some .gone) : i ∉ s.wire.map Message.caller := by
  obtain hSlot | ⟨-, -, hNever⟩ := h.settled.returned i c _ hc hOutcome
  · exact absurd hSlot (Slot.outcome_ne_gone _)
  · exact hNever

/-- With nothing left to do but at the endpoint, whoever waits has its request there. -/
theorem Sound.waits_for_endpoint (h : Sound s) (hTake : s.step .take = none) (hSend : ∀ w, s.step (.send w) = none)
    (hCollect : ∀ i, s.step (.collect i) = none) {i : Nat} {c : Caller ρ α} (hc : s.callers[i]? = some c)
    (hOpen : c.outcome = none) : ⟨⟨c.request, i⟩, true⟩ ∈ s.workers := by
  have hWaiting : c.slot = .waiting := by
    have hStuck := hCollect i
    simp only [State.step, hc, hOpen, true_and] at hStuck
    rw [ite_eq_right_iff] at hStuck
    cases hSlot : c.slot with
    | waiting => rfl
    | filled a => cases hStuck (by rw [hSlot]; nofun)
    | closed => cases hStuck (by rw [hSlot]; nofun)
  have hQueue : s.queue = [] := by
    cases hQueue : s.queue with
    | nil => rfl
    | cons m rest =>
      simp only [State.step, hQueue] at hTake
      cases hTake
  obtain ⟨m, hm, rfl⟩ := List.mem_map.mp ((h.routed.waiting i c hc).mp hWaiting)
  obtain ⟨d, hd, hRequest⟩ := h.routed.own m hm
  obtain rfl := Option.some.inj (hc.symm.trans hd)
  rw [State.held, hQueue, List.nil_append] at hm
  obtain ⟨⟨m', sent⟩, hw, rfl⟩ := List.mem_map.mp hm
  cases sent with
  | true => rwa [hRequest]
  | false =>
    obtain ⟨w, hAt⟩ := List.mem_iff_getElem?.mp hw
    have hStuck := hSend w
    simp only [State.step, hAt] at hStuck
    cases hStuck

end Outcomes

section Work

variable {s t : State ρ α} {label : Step ρ α}

def Worker.work (w : Worker ρ) : Nat := if w.sent then 1 else 2

/-- A bound on the steps that can follow without another request. -/
def State.work (s : State ρ α) : Nat :=
  (if s.serving then 1 else 0) + 3 * s.queue.length + (s.workers.map Worker.work).sum +
    (s.callers.map Caller.outcome).countP Option.isNone

theorem outcomes_update {P : Nat → Prop} [DecidablePred P] (slot : Slot α) (callers : List (Caller ρ α)) :
    (update P (.settle slot) callers).map Caller.outcome = callers.map Caller.outcome := by
  apply List.ext_getElem?
  intro i
  rw [List.getElem?_map, List.getElem?_map, update, List.getElem?_mapIdx, Option.map_map]
  congr 1
  funext c
  dsimp only [Function.comp_apply]
  split <;> rfl

theorem countP_collect {callers : List (Caller ρ α)} {i : Nat} {c : Caller ρ α} (hc : callers[i]? = some c)
    (hOpen : c.outcome = none) (hSettled : c.slot.outcome ≠ none) :
    ((update (· = i) (fun c => { c with outcome := c.slot.outcome }) callers).map Caller.outcome).countP Option.isNone + 1 =
      (callers.map Caller.outcome).countP Option.isNone := by
  obtain ⟨o, ho⟩ := Option.ne_none_iff_exists'.mp hSettled
  have hSet : (update (· = i) (fun c => { c with outcome := c.slot.outcome }) callers).map Caller.outcome =
      (callers.map Caller.outcome).set i (some o) := by
    apply List.ext_getElem?
    intro j
    rw [List.getElem?_map, update, List.getElem?_mapIdx, List.getElem?_set, List.getElem?_map, List.length_map]
    by_cases hHere : i = j
    · subst hHere
      rw [if_pos rfl, if_pos (List.getElem?_eq_some_iff.mp hc).1, hc]
      exact congrArg some ((congrArg Caller.outcome (if_pos rfl)).trans ho)
    · rw [if_neg hHere, Option.map_map]
      congr 1
      funext d
      exact congrArg Caller.outcome (if_neg (Ne.symm hHere))
  have hAt : (callers.map Caller.outcome)[i]? = some none := by
    rw [List.getElem?_map, hc]
    exact congrArg some hOpen
  obtain ⟨hLt, hNone⟩ := List.getElem?_eq_some_iff.mp hAt
  have hPositive : 0 < (callers.map Caller.outcome).countP Option.isNone :=
    List.countP_pos_iff.mpr ⟨none, List.mem_of_getElem? hAt, rfl⟩
  rw [hSet, List.countP_set hLt, hNone]
  simp only [Option.isNone_none, Option.isNone_some, if_true, Bool.false_eq_true, if_false]
  omega

theorem work_workers {before after : List (Worker ρ)} {m : Message ρ} {sent : Bool} :
    ((before ++ ⟨m, sent⟩ :: after).map Worker.work).sum =
      (Worker.work ⟨m, sent⟩) + ((before ++ after).map Worker.work).sum := by
  simp only [List.map_append, List.map_cons, List.sum_append, List.sum_cons]
  omega

/-- Every step but a request leaves less to do. -/
theorem work_lt (hStep : s.step label = some t) (hOld : label.isSubmit = false) : t.work < s.work := by
  cases State.moved_of_step hStep with
  | posted request hServing => cases hOld
  | refused request hServing => cases hOld
  | take hQueue =>
    simp only [State.work, hQueue, List.length_cons, List.map_append, List.sum_append, List.map_cons, List.map_nil,
      List.sum_cons, List.sum_nil, Worker.work, Bool.false_eq_true, if_false]
    omega
  | send hWorkers =>
    simp only [State.work, hWorkers, work_workers]
    simp only [Worker.work, if_true, Bool.false_eq_true, if_false]
    omega
  | answer a hWorkers =>
    simp only [State.work, hWorkers, work_workers, outcomes_update]
    simp only [Worker.work, if_true]
    omega
  | @crash before after m sent hWorkers =>
    simp only [State.work, hWorkers, work_workers, outcomes_update]
    cases sent
    · simp only [Worker.work, Bool.false_eq_true, if_false]
      omega
    · simp only [Worker.work, if_true]
      omega
  | stop hServing =>
    simp only [State.work, outcomes_update, hServing, if_true, Bool.false_eq_true, if_false, List.length_nil, List.map_nil,
      List.sum_nil]
    omega
  | collect hCaller hOpen hSettled =>
    have hFewer := countP_collect hCaller hOpen hSettled
    simp only [State.work]
    omega

theorem work_submit {request : ρ} (hStep : s.step (.submit request) = some t) : t.work ≤ s.work + 4 := by
  cases State.moved_of_step hStep with
  | posted request hServing =>
    simp only [State.work, List.length_append, List.length_singleton, List.map_append, List.map_cons, List.map_nil,
      List.countP_append, List.countP_singleton, Option.isNone_none, if_true]
    omega
  | refused request hServing =>
    simp only [State.work, List.map_append, List.map_cons, List.map_nil, List.countP_append, List.countP_singleton,
      Option.isNone_some, Bool.false_eq_true, if_false]
    omega

end Work

end Mailbox
