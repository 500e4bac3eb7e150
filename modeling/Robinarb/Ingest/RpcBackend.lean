import Robinarb.Ingest.Backend
import Mathlib.Tactic.Common

/-! # The live ingest loop

The `select!` loop of `run_once` over the items it polls. The two subscriptions
are merged by the order of the polls; the stream ends, the watchdog and a closed
receiver are the ways out of the loop.
-/

namespace Robinarb

/-- Block and log index of the last log handed on. -/
abbrev Cursor := Nat × Nat

def u64Max : Nat := 2 ^ 64 - 1

def Before (a b : Cursor) : Prop := a.1 < b.1 ∨ a.1 = b.1 ∧ a.2 < b.2

instance (a b : Cursor) : Decidable (Before a b) := inferInstanceAs (Decidable (_ ∨ _))

theorem Before.trans {a b c : Cursor} (hab : Before a b) (hbc : Before b c) : Before a c := by
  unfold Before at *
  omega

theorem Before.trans_not {a b c : Cursor} (hab : ¬Before b a) (hbc : Before b c) : Before a c := by
  unfold Before at *
  omega

/-- An absent cursor lies below every position. -/
def Above (cursor : Option Cursor) (pos : Cursor) : Prop := ∀ c, cursor = some c → Before c pos

instance (cursor : Option Cursor) (pos : Cursor) : Decidable (Above cursor pos) :=
  match cursor with
  | none => .isTrue nofun
  | some c => decidable_of_iff (Before c pos) ⟨fun h _ hc => Option.some.inj hc ▸ h, fun h => h c rfl⟩

@[simp] theorem above_none (pos : Cursor) : Above none pos := nofun

@[simp] theorem above_some (c pos : Cursor) : Above (some c) pos ↔ Before c pos :=
  ⟨fun h => h c rfl, fun h _ hc => Option.some.inj hc ▸ h⟩

structure Header where
  number : Nat
  timestamp : Nat
  baseFeePerGas : Option Nat

inductive Poll where
  | header (h : Header)
  | log (l : Log)
  | blockStreamEnded
  | logStreamEnded
  | watchdog

/-- A head confirms every block before it. -/
def completeCursor (h : Header) : Cursor := (h.number - 1, u64Max)

def logPosition (log : Log) : Cursor := (log.blockNumber.getD 0, log.logIndex.getD u64Max)

def advanceTo (cursor : Option Cursor) (complete : Cursor) : Option Cursor :=
  if Above cursor complete then some complete else cursor

structure LiveState where
  cursor : Option Cursor
  sent : List IngestEvent

inductive Exit where
  | bail (text : String)
  | receiverDropped
  deriving DecidableEq

section Live

variable (f : FilterSet) (d : LogDecoders) (accepts : List IngestEvent → Bool)

/-- `tx.send(ev).await.is_err()` leaves the loop. -/
def LiveState.send (s : LiveState) (ev : IngestEvent) : Except (Exit × LiveState) LiveState :=
  if accepts s.sent then .ok { s with sent := s.sent ++ [ev] } else .error (.receiverDropped, s)

def poolLogOf (log : Log) (idx : Nat) : IngestEvent :=
  .poolLog (log.blockNumber.getD 0) idx (decodeTouchedTicks d log)

/-- One turn of the `select!` loop. -/
def pollStep (s : LiveState) : Poll → Except (Exit × LiveState) LiveState
  | .header h =>
    LiveState.send accepts { s with cursor := advanceTo s.cursor (completeCursor h) }
      (.newHead h.number h.timestamp (h.baseFeePerGas.getD 0))
  | .log l =>
    match f.resolve l with
    | none => .ok s
    | some idx =>
      if Above s.cursor (logPosition l) then
        LiveState.send accepts { s with cursor := some (logPosition l) } (poolLogOf d l idx)
      else
        .ok s
  | .blockStreamEnded => .error (.bail "block stream ended", s)
  | .logStreamEnded => .error (.bail "log stream ended", s)
  | .watchdog => .error (.bail "no newHeads for 15s; connection presumed dead", s)

/-- The loop of `run_once` over everything it polls. -/
def pollLoop (polls : List Poll) (s : LiveState) : Except (Exit × LiveState) LiveState :=
  polls.foldlM (pollStep f d accepts) s

end Live

def IngestEvent.isPoolLog : IngestEvent → Bool
  | .poolLog .. => true
  | _ => false

def poolLogs (sent : List IngestEvent) : List IngestEvent := sent.filter IngestEvent.isPoolLog

theorem poolLogs_append (sent rest : List IngestEvent) :
    poolLogs (sent ++ rest) = poolLogs sent ++ poolLogs rest :=
  List.filter_append ..

def Poll.isItem : Poll → Bool
  | .header _ => true
  | .log _ => true
  | _ => false

def Poll.log? : Poll → Option Log
  | .log l => some l
  | _ => none

def polledLogs (polls : List Poll) : List Log := polls.filterMap Poll.log?

section Delivery

variable (f : FilterSet) (d : LogDecoders)

/-- The event a log is due as: it resolves and lies above the cursor the loop started from. -/
def due (cursor : Option Cursor) (log : Log) : Option IngestEvent :=
  if Above cursor (logPosition log) then (f.resolve log).map (poolLogOf d log) else none

/-- The pool logs the loop sends from a cursor. -/
def delivered (cursor : Option Cursor) : List Poll → List IngestEvent
  | [] => []
  | .header h :: rest => delivered (advanceTo cursor (completeCursor h)) rest
  | .log l :: rest =>
    match due f d cursor l with
    | some ev => ev :: delivered (some (logPosition l)) rest
    | none => delivered cursor rest
  | _ :: rest => delivered cursor rest

/-- No due log is polled after a header that confirms its block; `seen` are the
headers polled so far. -/
def NotOvertaken (cursor : Option Cursor) : List Header → List Poll → Prop
  | _, [] => True
  | seen, .header h :: rest => NotOvertaken cursor (h :: seen) rest
  | seen, .log l :: rest =>
    ((due f d cursor l).isSome → ∀ h ∈ seen, Before (completeCursor h) (logPosition l)) ∧
      NotOvertaken cursor seen rest
  | seen, _ :: rest => NotOvertaken cursor seen rest

end Delivery

section Loop

variable {f : FilterSet} {d : LogDecoders} {accepts : List IngestEvent → Bool}

theorem above_advanceTo {cursor : Option Cursor} {complete pos : Cursor} :
    Above (advanceTo cursor complete) pos ↔ Above cursor pos ∧ Before complete pos := by
  unfold advanceTo
  cases cursor with
  | none => simp
  | some c =>
    simp only [above_some]
    split
    · rename_i hBefore
      rw [above_some]
      exact ⟨fun h => ⟨hBefore.trans h, h⟩, And.right⟩
    · rename_i hNot
      rw [above_some]
      exact ⟨fun h => ⟨h, .trans_not hNot h⟩, And.left⟩

/-- Without a disconnect the loop runs on, and its pool logs are those of `delivered`. -/
theorem pollLoop_delivered (hAccepts : ∀ sent, accepts sent = true) {polls : List Poll}
    (hItems : ∀ poll ∈ polls, poll.isItem = true) (s : LiveState) :
    ∃ final, pollLoop f d accepts polls s = .ok final ∧
      poolLogs final.sent = poolLogs s.sent ++ delivered f d s.cursor polls := by
  have hSend : ∀ (s : LiveState) ev, s.send accepts ev = .ok { s with sent := s.sent ++ [ev] } := by
    intro s ev
    rw [LiveState.send, if_pos (hAccepts _)]
  induction polls generalizing s with
  | nil => exact ⟨s, rfl, by simp [delivered]⟩
  | cons poll rest ih =>
    have hRest := fun t => ih (fun p hp => hItems p (List.mem_cons_of_mem _ hp)) t
    have hStep : ∀ t, pollStep f d accepts s poll = .ok t →
        pollLoop f d accepts (poll :: rest) s = pollLoop f d accepts rest t := by
      intro t h
      simp only [pollLoop, List.foldlM_cons, h]
      rfl
    cases poll with
    | header h =>
      rw [hStep _ (hSend _ _)]
      obtain ⟨final, hRun, hSent⟩ := hRest _
      refine ⟨final, hRun, ?_⟩
      rw [hSent, poolLogs_append, List.append_assoc]
      rfl
    | log l =>
      cases hResolve : f.resolve l with
      | none =>
        rw [hStep s (by simp only [pollStep, hResolve])]
        simpa [delivered, due, hResolve] using hRest s
      | some idx =>
        by_cases hAbove : Above s.cursor (logPosition l)
        · rw [hStep _ (by simp only [pollStep, hResolve, if_pos hAbove, hSend]; rfl)]
          obtain ⟨final, hRun, hSent⟩ := hRest _
          refine ⟨final, hRun, ?_⟩
          rw [hSent, poolLogs_append, List.append_assoc]
          simp only [delivered, due, hResolve, if_pos hAbove, Option.map_some]
          rfl
        · rw [hStep s (by simp only [pollStep, hResolve, if_neg hAbove])]
          simpa [delivered, due, hResolve, hAbove] using hRest s
    | blockStreamEnded => exact absurd (hItems _ List.mem_cons_self) (by simp [Poll.isItem])
    | logStreamEnded => exact absurd (hItems _ List.mem_cons_self) (by simp [Poll.isItem])
    | watchdog => exact absurd (hItems _ List.mem_cons_self) (by simp [Poll.isItem])

/-- The cursor of the loop, as the logs still to come see it: the start cursor and
the headers polled so far. -/
def CursorSeen (start cursor : Option Cursor) (seen : List Header) (rest : List Poll) : Prop :=
  ∀ l ∈ polledLogs rest, Above cursor (logPosition l) ↔
    Above start (logPosition l) ∧ ∀ h ∈ seen, Before (completeCursor h) (logPosition l)

theorem CursorSeen.header {start cursor : Option Cursor} {seen : List Header} {h : Header} {rest : List Poll}
    (hSeen : CursorSeen start cursor seen (.header h :: rest)) :
    CursorSeen start (advanceTo cursor (completeCursor h)) (h :: seen) rest := by
  intro l hl
  rw [above_advanceTo, hSeen l (by simpa [polledLogs, Poll.log?] using hl)]
  simp only [List.forall_mem_cons]
  tauto

theorem CursorSeen.tail {start cursor : Option Cursor} {seen : List Header} {poll : Poll} {rest : List Poll}
    (hSeen : CursorSeen start cursor seen (poll :: rest)) : CursorSeen start cursor seen rest := by
  intro l hl
  apply hSeen l
  obtain ⟨p, hMem, hLog⟩ := List.mem_filterMap.mp hl
  exact List.mem_filterMap.mpr ⟨p, List.mem_cons_of_mem _ hMem, hLog⟩

theorem CursorSeen.log {start cursor : Option Cursor} {seen : List Header} {l : Log} {rest : List Poll}
    (hOrder : ∀ later ∈ polledLogs rest, Before (logPosition l) (logPosition later))
    (hAbove : Above cursor (logPosition l)) (hSeen : CursorSeen start cursor seen (.log l :: rest)) :
    CursorSeen start (some (logPosition l)) seen rest := by
  intro later hLater
  rw [above_some, ← hSeen.tail later hLater]
  refine iff_of_true (hOrder later hLater) ?_
  intro c hc
  exact (hAbove c hc).trans (hOrder later hLater)

/-- A polled log is due from the loop's cursor unless a header seen so far confirms its block. -/
theorem CursorSeen.due_eq {start cursor : Option Cursor} {seen : List Header} {l : Log} {rest : List Poll}
    (hSeen : CursorSeen start cursor seen (.log l :: rest)) :
    due f d cursor l =
      if ∀ h ∈ seen, Before (completeCursor h) (logPosition l) then due f d start l else none := by
  have hAbove := hSeen l (by simp [polledLogs, Poll.log?])
  by_cases hClear : ∀ h ∈ seen, Before (completeCursor h) (logPosition l)
  · rw [if_pos hClear]
    simp only [due, hAbove.trans (and_iff_left hClear)]
  · rw [if_neg hClear, due, if_neg fun h => hClear (hAbove.mp h).2]

theorem due_above {cursor : Option Cursor} {l : Log} {ev : IngestEvent} (h : due f d cursor l = some ev) :
    Above cursor (logPosition l) := by
  unfold due at h
  split at h
  · assumption
  · cases h

theorem delivered_length_le {start cursor : Option Cursor} {seen : List Header} {polls : List Poll}
    (hOrder : (polledLogs polls).Pairwise fun a b => Before (logPosition a) (logPosition b))
    (hSeen : CursorSeen start cursor seen polls) :
    (delivered f d cursor polls).length ≤ ((polledLogs polls).filterMap (due f d start)).length := by
  induction polls generalizing cursor seen with
  | nil => simp [delivered]
  | cons poll rest ih =>
    cases poll with
    | header h => exact ih hOrder hSeen.header
    | log l =>
      obtain ⟨hFirst, hOrder⟩ := List.pairwise_cons.mp hOrder
      have hDue := hSeen.due_eq (f := f) (d := d)
      simp only [delivered]
      cases hEvent : due f d cursor l with
      | none =>
        refine (ih hOrder hSeen.tail).trans ?_
        change _ ≤ ((l :: polledLogs rest).filterMap (due f d start)).length
        rw [List.filterMap_cons]
        split <;> simp
      | some ev =>
        rw [hEvent] at hDue
        split at hDue
        · change _ ≤ ((l :: polledLogs rest).filterMap (due f d start)).length
          rw [List.filterMap_cons_some hDue.symm]
          exact Nat.succ_le_succ (ih hOrder (hSeen.log hFirst (due_above hEvent)))
        · cases hDue
    | blockStreamEnded => exact ih hOrder hSeen.tail
    | logStreamEnded => exact ih hOrder hSeen.tail
    | watchdog => exact ih hOrder hSeen.tail

theorem delivered_eq_iff {start cursor : Option Cursor} {seen : List Header} {polls : List Poll}
    (hOrder : (polledLogs polls).Pairwise fun a b => Before (logPosition a) (logPosition b))
    (hSeen : CursorSeen start cursor seen polls) :
    delivered f d cursor polls = (polledLogs polls).filterMap (due f d start) ↔
      NotOvertaken f d start seen polls := by
  induction polls generalizing cursor seen with
  | nil => simp [delivered, polledLogs, NotOvertaken]
  | cons poll rest ih =>
    cases poll with
    | header h => exact ih hOrder hSeen.header
    | log l =>
      obtain ⟨hFirst, hOrder⟩ := List.pairwise_cons.mp hOrder
      have hDue := hSeen.due_eq (f := f) (d := d)
      simp only [delivered, NotOvertaken]
      change _ = (l :: polledLogs rest).filterMap (due f d start) ↔ _
      cases hStart : due f d start l with
      | none =>
        have hEvent : due f d cursor l = none := by rw [hDue, hStart, ite_self]
        rw [hEvent, List.filterMap_cons_none hStart]
        simpa using ih hOrder hSeen.tail
      | some ev =>
        rw [List.filterMap_cons_some hStart]
        by_cases hClear : ∀ h ∈ seen, Before (completeCursor h) (logPosition l)
        · have hEvent : due f d cursor l = some ev := by rw [hDue, if_pos hClear, hStart]
          simp only [hEvent, List.cons.injEq, true_and]
          rw [ih hOrder (hSeen.log hFirst (due_above hEvent))]
          exact ⟨fun h => ⟨fun _ => hClear, h⟩, And.right⟩
        · have hEvent : due f d cursor l = none := by rw [hDue, if_neg hClear]
          have hLength := delivered_length_le (f := f) (d := d) hOrder hSeen.tail
          simp only [hEvent]
          refine iff_of_false (fun hEq => ?_) (fun h => hClear (h.1 rfl))
          rw [hEq, List.length_cons] at hLength
          omega
    | blockStreamEnded => exact ih hOrder hSeen.tail
    | logStreamEnded => exact ih hOrder hSeen.tail
    | watchdog => exact ih hOrder hSeen.tail

/-- Without a disconnect the live loop sends every due log exactly once, in order,
and no other pool log, if and only if no due log is polled after a header that
confirms its block. -/
theorem pollLoop_loses_nothing_iff (hAccepts : ∀ sent, accepts sent = true) {polls : List Poll}
    (hItems : ∀ poll ∈ polls, poll.isItem = true)
    (hOrder : (polledLogs polls).Pairwise fun a b => Before (logPosition a) (logPosition b))
    (cursor : Option Cursor) :
    ∃ final, pollLoop f d accepts polls ⟨cursor, []⟩ = .ok final ∧
      (poolLogs final.sent = (polledLogs polls).filterMap (due f d cursor) ↔
        NotOvertaken f d cursor [] polls) := by
  obtain ⟨final, hRun, hSent⟩ := pollLoop_delivered (f := f) (d := d) hAccepts hItems ⟨cursor, []⟩
  refine ⟨final, hRun, ?_⟩
  rw [hSent]
  exact delivered_eq_iff hOrder fun l _ => by simp

end Loop

section Sample

def samplePair : PoolMeta where
  idx := 0
  address := 2#160
  dex := .uniV2Fork
  token0 := 10#160
  token1 := 11#160
  dec0 := 18#8
  dec1 := 18#8
  feeBps := 30#32
  feePips := 0#32
  tickSpacing := 0
  v4 := none

def syncTopic : B256 := 0x1c411e9a96e071241c2f21f7726b17ae89e3cab4c78be50e062b03a9fffbbad1#256

/-- A `Sync` of the pair, the first log of block 10. -/
def syncLog : Log := ⟨2#160, [syncTopic], List.replicate 64 0#8, some 10, some 0⟩

def noDecoders : LogDecoders := ⟨fun _ => none, fun _ => none, fun _ => none⟩

def pairFilters : FilterSet := ⟨⟨[samplePair], [(2#160, 0)]⟩, [syncTopic]⟩

/-- Header 11 is polled before the log of block 10: the log is dropped. -/
theorem pollLoop_drops_overtaken_log :
    Engine.new [samplePair] = some pairFilters.engine ∧
    (polledLogs [.header ⟨11, 0, none⟩, .log syncLog]).filterMap
        (due pairFilters noDecoders (some (9, u64Max))) = [.poolLog 10 0 none] ∧
    ¬∃ final, pollLoop pairFilters noDecoders (fun _ => true) [.header ⟨11, 0, none⟩, .log syncLog]
        ⟨some (9, u64Max), []⟩ = .ok final ∧
      poolLogs final.sent = (polledLogs [.header ⟨11, 0, none⟩, .log syncLog]).filterMap
        (due pairFilters noDecoders (some (9, u64Max))) := by
  have hRun : pollLoop pairFilters noDecoders (fun _ => true) [.header ⟨11, 0, none⟩, .log syncLog]
      ⟨some (9, u64Max), []⟩ = .ok ⟨some (10, u64Max), [.newHead 11 0 0]⟩ := rfl
  have hDue : (polledLogs [.header ⟨11, 0, none⟩, .log syncLog]).filterMap
      (due pairFilters noDecoders (some (9, u64Max))) = [.poolLog 10 0 none] := by decide
  refine ⟨rfl, hDue, ?_⟩
  rintro ⟨final, hFinal, hSent⟩
  rw [hRun] at hFinal
  cases hFinal
  rw [hDue] at hSent
  exact absurd hSent (by decide)

theorem pollLoop_in_step_loses_nothing : ∃ final,
    pollLoop pairFilters noDecoders (fun _ => true) [.log syncLog, .header ⟨11, 0, none⟩]
        ⟨some (9, u64Max), []⟩ = .ok final ∧
      (poolLogs final.sent = [syncLog].filterMap (due pairFilters noDecoders (some (9, u64Max))) ↔
        NotOvertaken pairFilters noDecoders (some (9, u64Max)) [] [.log syncLog, .header ⟨11, 0, none⟩]) :=
  pollLoop_loses_nothing_iff (fun _ => rfl) (by simp [Poll.isItem]) (List.pairwise_singleton _ _)
    (some (9, u64Max))

end Sample

end Robinarb
