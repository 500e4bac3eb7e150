import Robinarb.Ingest.Backfill

/-! # Reconnects

`run` as a fold of `run_once` over the connections it makes. What the node does on a
connection is data of that connection: whether it opens, which head it answers, which
queries fail and what the loop polls. The mined logs are one list for all of them.
-/

namespace Robinarb

open ListFilters

/-- `opened` is the block current when the log subscription is opened, and is absent
where connecting or subscribing fails. `head` answers `get_block_number`. -/
structure Connection where
  opened : Option Nat
  head : Option Nat
  fails : Nat → Nat → Nat → Bool
  polls : List Poll

inductive Stage where
  | unconnected
  | headUnknown
  | backfillFailed
  | live
  deriving DecidableEq

/-- What one call of `run_once` sent and the cursor it left. `tip` is a block that had
been mined before anything was sent. -/
structure Session where
  stage : Stage
  sent : List IngestEvent
  cursor : Option Cursor
  tip : Nat

/-- The logs the loop took from the subscription before it ended. -/
def Connection.polled (conn : Connection) : List Log := polledLogs (conn.polls.takeWhile Poll.isItem)

section Run

variable (mined : List Log) (f : FilterSet) (d : LogDecoders) (accepts : List IngestEvent → Bool)

/-- The loop of `run_once`, however it ends. -/
def RpcBackend.runLive (conn : Connection) (s : LiveState) (tip : Nat) : Session :=
  match pollLoop f d accepts conn.polls s with
  | .ok final => ⟨.live, final.sent, final.cursor, tip⟩
  | .error (_, final) => ⟨.live, final.sent, final.cursor, tip⟩

def RpcBackend.runOnce (conn : Connection) (cursor : Option Cursor) : Session :=
  match conn.opened with
  | none => ⟨.unconnected, [], cursor, 0⟩
  | some opened =>
    match cursor with
    | none => runLive f d accepts conn ⟨none, if accepts [] then [.resync] else []⟩ opened
    | some c =>
      match conn.head with
      | none => ⟨.headUnknown, [], some c, 0⟩
      | some head =>
        match backfill ⟨mined, conn.fails⟩ f d accepts c head with
        | (sent, .error _) => ⟨.backfillFailed, sent, some c, head⟩
        | (sent, .ok advanced) => runLive f d accepts conn ⟨some advanced, sent⟩ head

def RpcBackend.run (cursor : Option Cursor) : List Connection → List Session
  | [] => []
  | conn :: rest =>
    let session := runOnce mined f d accepts conn cursor
    session :: run session.cursor rest

/-- What is assumed of the node. The subscription delivers the matching logs mined after
it was opened, in order, the head read afterwards is not older, and a header is polled
after the logs of the blocks before it. -/
structure Connection.Faithful (conn : Connection) : Prop where
  head_le : ∀ opened head, conn.opened = some opened → conn.head = some head → opened ≤ head
  delivers : ∀ opened, conn.opened = some opened → polledLogs conn.polls <+:
    mined.filter fun log => decide (opened < logBlock log) && matchesTopics f.topics log
  inStep : ∀ opened, conn.opened = some opened → ∀ before h after, conn.polls = before ++ .header h :: after →
    ∀ log ∈ mined, matchesTopics f.topics log = true → opened < logBlock log → logBlock log < h.number →
      log ∈ polledLogs before

def Session.Covers (s : Session) (log : Log) : Prop := .resync ∈ s.sent ∧ logBlock log ≤ s.tip

end Run

section Progress

variable {mined : List Log} {f : FilterSet} {d : LogDecoders} {accepts : List IngestEvent → Bool}

/-- What a session has done for the logs: `handed` are those it sent, in order, each
above the cursor it began with and none above the one it has now. A log the cursor has
passed was passed before, is covered or was handed on; a log that was mined by
`opened` or polled is covered or passed. -/
structure Progress (mined : List Log) (f : FilterSet) (d : LogDecoders) (start : Option Cursor) (opened : Nat)
    (covered : Log → Prop) (polled handed : List Log) (s : LiveState) : Prop where
  sends : poolLogs s.sent = handed.filterMap (livePath f d)
  fresh : ∀ log ∈ handed, log ∈ mined ∧ Above start (logPosition log) ∧ ¬Above s.cursor (logPosition log)
  ordered : handed.Pairwise fun a b => Before (logPosition a) (logPosition b)
  forward : ∀ log ∈ mined, Above s.cursor (logPosition log) → Above start (logPosition log)
  accounts : ∀ log ∈ mined, (livePath f d log).isSome → ¬Above s.cursor (logPosition log) →
    ¬Above start (logPosition log) ∨ covered log ∨ log ∈ handed
  reaches : ∀ log ∈ mined, (livePath f d log).isSome → logBlock log ≤ opened ∨ log ∈ polled →
    covered log ∨ ¬Above s.cursor (logPosition log)

variable {start : Option Cursor} {opened : Nat} {covered : Log → Prop} {polled handed : List Log} {s : LiveState}

theorem matchesTopics_of_livePath {log : Log} (h : (livePath f d log).isSome) :
    matchesTopics f.topics log = true ∧ ∃ idx, f.resolve log = some idx ∧
      livePath f d log = some (poolLogOf d log idx) := by
  unfold livePath at h ⊢
  split at h
  · rename_i hTopics
    obtain ⟨ev, hEvent⟩ := Option.isSome_iff_exists.mp h
    obtain ⟨idx, hResolve, -⟩ := Option.map_eq_some_iff.mp hEvent
    exact ⟨hTopics, idx, hResolve, by rw [if_pos hTopics, hResolve]; rfl⟩
  · cases h

/-- A header confirms only blocks whose logs were mined before the subscription or polled. -/
theorem Progress.header (h : Progress mined f d start opened covered polled handed s)
    (complete : Cursor) (ev : IngestEvent) (hEvent : ev.isPoolLog = false)
    (hComplete : ∀ log ∈ mined, (livePath f d log).isSome → ¬Before complete (logPosition log) →
      logBlock log ≤ opened ∨ log ∈ polled) :
    Progress mined f d start opened covered polled handed
      { cursor := advanceTo s.cursor complete, sent := s.sent ++ [ev] } := by
  constructor
  · rw [poolLogs_append, h.sends]
    simp [poolLogs, hEvent]
  · rintro log hMem
    obtain ⟨hMined, hStart, hCursor⟩ := h.fresh log hMem
    exact ⟨hMined, hStart, fun hAbove => hCursor (above_advanceTo.mp hAbove).1⟩
  · exact h.ordered
  · intro log hMined hAbove
    exact h.forward log hMined (above_advanceTo.mp hAbove).1
  · intro log hMined hLive hNot
    by_cases hCursor : Above s.cursor (logPosition log)
    · have hPassed := hComplete log hMined hLive fun hBefore => hNot (above_advanceTo.mpr ⟨hCursor, hBefore⟩)
      obtain hCovered | hAbove := h.reaches log hMined hLive hPassed
      · exact .inr (.inl hCovered)
      · exact absurd hCursor hAbove
    · exact h.accounts log hMined hLive hCursor
  · intro log hMined hLive hReached
    exact (h.reaches log hMined hLive hReached).imp_right fun hNot hAbove => hNot (above_advanceTo.mp hAbove).1

theorem Progress.skip {l : Log} (h : Progress mined f d start opened covered polled handed s)
    (hSkip : (livePath f d l).isSome → ¬Above s.cursor (logPosition l)) :
    Progress mined f d start opened covered (polled ++ [l]) handed s := by
  refine ⟨h.sends, h.fresh, h.ordered, h.forward, h.accounts, ?_⟩
  rintro log hMined hLive (hOpened | hPolled)
  · exact h.reaches log hMined hLive (.inl hOpened)
  · obtain hPolled | hLast := List.mem_append.mp hPolled
    · exact h.reaches log hMined hLive (.inr hPolled)
    · obtain rfl := List.mem_singleton.mp hLast
      exact .inr (hSkip hLive)

/-- A log is handed on. Every matching log up to it was mined before the subscription
or polled already. -/
theorem Progress.hand {l : Log} {ev : IngestEvent} (h : Progress mined f d start opened covered polled handed s)
    (hMined : l ∈ mined) (hEvent : livePath f d l = some ev) (hPool : ev.isPoolLog = true)
    (hAbove : Above s.cursor (logPosition l))
    (hEarlier : ∀ log ∈ mined, (livePath f d log).isSome → ¬Before (logPosition l) (logPosition log) →
      logBlock log ≤ opened ∨ log ∈ polled ∨ log = l) :
    Progress mined f d start opened covered (polled ++ [l]) (handed ++ [l])
      { cursor := some (logPosition l), sent := s.sent ++ [ev] } := by
  have hPasses : ∀ pos, ¬Above s.cursor pos → Before pos (logPosition l) := by
    intro pos hNot
    cases hCursor : s.cursor with
    | none =>
      rw [hCursor] at hNot
      exact absurd (above_none pos) hNot
    | some c =>
      rw [hCursor, above_some] at hNot hAbove
      exact .trans_not hNot hAbove
  have hNotAfter : ∀ {pos}, Before pos (logPosition l) → ¬Before (logPosition l) pos := by
    unfold Before
    omega
  have hKeeps : ∀ pos, ¬Above s.cursor pos → ¬Above (some (logPosition l)) pos := by
    intro pos hNot
    rw [above_some]
    exact hNotAfter (hPasses pos hNot)
  constructor
  · rw [poolLogs_append, h.sends, List.filterMap_append]
    simp [poolLogs, hPool, hEvent]
  · intro log hMem
    obtain hMem | hLast := List.mem_append.mp hMem
    · obtain ⟨hMem, hStart, hCursor⟩ := h.fresh log hMem
      exact ⟨hMem, hStart, hKeeps _ hCursor⟩
    · obtain rfl := List.mem_singleton.mp hLast
      refine ⟨hMined, h.forward log hMined hAbove, ?_⟩
      rw [above_some]
      unfold Before
      omega
  · rw [List.pairwise_append]
    refine ⟨h.ordered, List.pairwise_singleton _ _, fun log hMem last hLast => ?_⟩
    obtain rfl := List.mem_singleton.mp hLast
    exact hPasses _ (h.fresh log hMem).2.2
  · intro log hMem hLater
    refine h.forward log hMem fun c hc => ?_
    exact (hAbove c hc).trans ((above_some _ _).mp hLater)
  · intro log hMem hLive hNot
    rw [above_some] at hNot
    have hHanded : ∀ {log : Log}, log ∈ handed → log ∈ handed ++ [l] := List.mem_append_left _
    by_cases hCursor : Above s.cursor (logPosition log)
    · obtain hOpened | hPolled | rfl := hEarlier log hMem hLive hNot
      · exact .inr ((h.reaches log hMem hLive (.inl hOpened)).imp_right fun hAbove => absurd hCursor hAbove)
      · exact .inr ((h.reaches log hMem hLive (.inr hPolled)).imp_right fun hAbove => absurd hCursor hAbove)
      · exact .inr (.inr (List.mem_append_right _ (List.mem_singleton_self _)))
    · exact (h.accounts log hMem hLive hCursor).imp_right fun hDone => hDone.imp_right hHanded
  · rintro log hMem hLive (hOpened | hPolled)
    · exact (h.reaches log hMem hLive (.inl hOpened)).imp_right (hKeeps _)
    · obtain hPolled | hLast := List.mem_append.mp hPolled
      · exact (h.reaches log hMem hLive (.inr hPolled)).imp_right (hKeeps _)
      · obtain rfl := List.mem_singleton.mp hLast
        rw [above_some]
        exact .inr fun hBefore => hNotAfter hBefore hBefore

variable {conn : Connection} {before after : List Poll}

theorem Connection.Faithful.log (hFaithful : conn.Faithful mined f) (hOpened : conn.opened = some opened)
    (hOrder : mined.Pairwise fun a b => Before (logPosition a) (logPosition b)) {l : Log}
    (hSplit : conn.polls = before ++ .log l :: after) :
    l ∈ mined ∧ matchesTopics f.topics l = true ∧ ∀ log ∈ mined, matchesTopics f.topics log = true →
      ¬Before (logPosition l) (logPosition log) →
        logBlock log ≤ opened ∨ log ∈ polledLogs before ∨ log = l := by
  obtain ⟨tail, hTail⟩ := hFaithful.delivers opened hOpened
  have hPolled : polledLogs conn.polls = polledLogs before ++ l :: polledLogs after := by
    rw [hSplit]
    simp [polledLogs, Poll.log?]
  rw [hPolled, List.append_assoc, List.cons_append] at hTail
  have hSorted := hOrder.sublist
    (List.filter_sublist (p := fun log => decide (opened < logBlock log) && matchesTopics f.topics log))
  have hMem : ∀ log, log ∈ polledLogs before ++ l :: (polledLogs after ++ tail) ↔
      log ∈ mined ∧ opened < logBlock log ∧ matchesTopics f.topics log = true := by
    intro log
    rw [hTail, List.mem_filter, Bool.and_eq_true, decide_eq_true_eq]
  have hSelf := (hMem l).mp (List.mem_append_right _ List.mem_cons_self)
  refine ⟨hSelf.1, hSelf.2.2, ?_⟩
  intro log hMined hTopics hNot
  obtain hLt | hLe := Nat.lt_or_ge opened (logBlock log)
  · have hDelivered := (hMem log).mpr ⟨hMined, hLt, hTopics⟩
    obtain hBefore | hRest := List.mem_append.mp hDelivered
    · exact .inr (.inl hBefore)
    · obtain rfl | hLater := List.mem_cons.mp hRest
      · exact .inr (.inr rfl)
      · rw [← hTail, List.pairwise_append, List.pairwise_cons] at hSorted
        exact absurd (hSorted.2.1.1 log hLater) hNot
  · exact .inl hLe

theorem Connection.Faithful.confirms (hFaithful : conn.Faithful mined f) (hOpened : conn.opened = some opened)
    (hIndex : ∀ log ∈ mined, (logPosition log).2 ≤ u64Max) {h : Header}
    (hSplit : conn.polls = before ++ .header h :: after) {log : Log} (hMined : log ∈ mined)
    (hTopics : matchesTopics f.topics log = true) (hNot : ¬Before (completeCursor h) (logPosition log)) :
    logBlock log ≤ opened ∨ log ∈ polledLogs before := by
  obtain hLt | hLe := Nat.lt_or_ge opened (logBlock log)
  · have hBound := hIndex log hMined
    refine .inr (hFaithful.inStep opened hOpened before h after hSplit log hMined hTopics hLt ?_)
    unfold Before completeCursor at hNot
    unfold logBlock at hLt ⊢
    omega
  · exact .inl hLe

theorem pollStep_header (hAccepts : ∀ sent, accepts sent = true) (s : LiveState) (h : Header) :
    pollStep f d accepts s (.header h) = .ok
      ⟨advanceTo s.cursor (completeCursor h),
        s.sent ++ [.newHead h.number h.timestamp (h.baseFeePerGas.getD 0)]⟩ := by
  rw [pollStep, LiveState.send, if_pos (hAccepts _)]

/-- A log is skipped, or handed on as the live path delivers it. -/
theorem pollStep_log (d : LogDecoders) (hAccepts : ∀ sent, accepts sent = true) (s : LiveState) {l : Log}
    (hTopics : matchesTopics f.topics l = true) :
    (pollStep f d accepts s (.log l) = .ok s ∧
      ((livePath f d l).isSome → ¬Above s.cursor (logPosition l))) ∨
    ∃ idx, livePath f d l = some (poolLogOf d l idx) ∧ Above s.cursor (logPosition l) ∧
      pollStep f d accepts s (.log l) = .ok ⟨some (logPosition l), s.sent ++ [poolLogOf d l idx]⟩ := by
  have hLive : livePath f d l = (f.resolve l).map (poolLogOf d l) := by rw [livePath, if_pos hTopics]
  rw [hLive]
  cases hResolve : f.resolve l with
  | none =>
    left
    constructor
    · simp only [pollStep, hResolve]
    · simp
  | some idx =>
    by_cases hAbove : Above s.cursor (logPosition l)
    · refine .inr ⟨idx, rfl, hAbove, ?_⟩
      simp only [pollStep, hResolve, if_pos hAbove, LiveState.send, hAccepts, if_true]
    · exact .inl ⟨by simp only [pollStep, hResolve, if_neg hAbove], fun _ => hAbove⟩

variable (mined f d accepts start opened covered) in
/-- The loop over the rest of the polls ends with the progress made up to its end. -/
def LoopProgress (before rest : List Poll) (s : LiveState) : Prop :=
  ∃ handed final, Progress mined f d start opened covered (polledLogs (before ++ rest.takeWhile Poll.isItem))
      handed final ∧ s.sent <+: final.sent ∧
    (pollLoop f d accepts rest s = .ok final ∨ ∃ exit, pollLoop f d accepts rest s = .error (exit, final))

theorem LoopProgress.cons {poll : Poll} {rest : List Poll} {t : LiveState}
    (h : LoopProgress mined f d accepts start opened covered (before ++ [poll]) rest t)
    (hItem : poll.isItem = true) (hRun : pollStep f d accepts s poll = .ok t) (hSent : s.sent <+: t.sent) :
    LoopProgress mined f d accepts start opened covered before (poll :: rest) s := by
  obtain ⟨handed, final, hFinal, hGrows, hEnds⟩ := h
  refine ⟨handed, final, ?_, hSent.trans hGrows, ?_⟩
  · rw [List.takeWhile_cons_of_pos hItem]
    rwa [List.append_assoc, List.singleton_append] at hFinal
  · simp only [pollLoop, List.foldlM_cons, hRun]
    exact hEnds

theorem Progress.stop {poll : Poll} (rest : List Poll) {exit : Exit}
    (h : Progress mined f d start opened covered (polledLogs before) handed s) (hItem : poll.isItem = false)
    (hRun : pollStep f d accepts s poll = .error (exit, s)) :
    LoopProgress mined f d accepts start opened covered before (poll :: rest) s := by
  refine ⟨handed, s, ?_, List.prefix_rfl, .inr ⟨exit, ?_⟩⟩
  · rwa [List.takeWhile_cons_of_neg (by simp [hItem]), List.append_nil]
  · simp only [pollLoop, List.foldlM_cons, hRun]
    rfl

theorem Progress.loop (hAccepts : ∀ sent, accepts sent = true)
    (hOrder : mined.Pairwise fun a b => Before (logPosition a) (logPosition b))
    (hIndex : ∀ log ∈ mined, (logPosition log).2 ≤ u64Max)
    (hFaithful : conn.Faithful mined f) (hOpened : conn.opened = some opened)
    {rest : List Poll} (hSplit : conn.polls = before ++ rest)
    (h : Progress mined f d start opened covered (polledLogs before) handed s) :
    LoopProgress mined f d accepts start opened covered before rest s := by
  induction rest generalizing before handed s with
  | nil => exact ⟨handed, s, by simpa using h, List.prefix_rfl, .inl rfl⟩
  | cons poll rest ih =>
    have hNext : conn.polls = (before ++ [poll]) ++ rest := by rw [hSplit, List.append_assoc]; rfl
    cases poll with
    | header header =>
      have hSame : polledLogs (before ++ [.header header]) = polledLogs before := by simp [polledLogs, Poll.log?]
      have hProgress := h.header (completeCursor header)
        (.newHead header.number header.timestamp (header.baseFeePerGas.getD 0)) rfl
        fun log hMined hLive hNot =>
          hFaithful.confirms hOpened hIndex hSplit hMined (matchesTopics_of_livePath hLive).1 hNot
      rw [← hSame] at hProgress
      exact (ih hNext hProgress).cons rfl (pollStep_header hAccepts s header) (List.prefix_append _ _)
    | log l =>
      obtain ⟨hMined, hTopics, hEarlier⟩ := hFaithful.log hOpened hOrder hSplit
      have hMore : polledLogs (before ++ [.log l]) = polledLogs before ++ [l] := by simp [polledLogs, Poll.log?]
      obtain ⟨hRun, hSkip⟩ | ⟨idx, hEvent, hAbove, hRun⟩ := pollStep_log d hAccepts s hTopics
      · have hProgress := h.skip hSkip
        rw [← hMore] at hProgress
        exact (ih hNext hProgress).cons rfl hRun List.prefix_rfl
      · have hProgress := h.hand hMined hEvent rfl hAbove fun log hMem hLive hNot =>
          hEarlier log hMem (matchesTopics_of_livePath hLive).1 hNot
        rw [← hMore] at hProgress
        exact (ih hNext hProgress).cons rfl hRun (List.prefix_append _ _)
    | blockStreamEnded => exact h.stop rest rfl rfl
    | logStreamEnded => exact h.stop rest rfl rfl
    | watchdog => exact h.stop rest rfl rfl

end Progress

section Sessions

variable {mined : List Log} {fails : Nat → Nat → Nat → Bool} {f : FilterSet} {d : LogDecoders}
  {accepts : List IngestEvent → Bool} {cursor : Cursor} {head opened : Nat}

def handedOf (f : FilterSet) (d : LogDecoders) (cursor : Cursor) (logs : List Log) : List Log :=
  logs.filter fun log => (due f d (some cursor) log).isSome

theorem mem_backfillRange {log : Log} :
    log ∈ LogProvider.rangeLogs ⟨mined, fails⟩ (backfillFilter f) (gapStart cursor) head ↔
      log ∈ mined ∧ gapStart cursor ≤ logBlock log ∧ logBlock log ≤ head ∧
        matchesAddress f.engine.addresses log = true ∧ matchesTopics f.topics log = true := by
  simp only [LogProvider.rangeLogs, List.mem_filter, inRange, LogFilter.selects, backfillFilter, Bool.and_eq_true,
    decide_eq_true_eq]
  tauto

theorem due_eq_livePath {log : Log} (hTopics : matchesTopics f.topics log = true)
    (hBefore : Before cursor (logPosition log)) : due f d (some cursor) log = livePath f d log := by
  rw [due, livePath, if_pos hTopics, if_pos ((above_some _ _).mpr hBefore)]

variable (d cursor) in
theorem handedOf_sends {logs : List Log} (hTopics : ∀ log ∈ logs, matchesTopics f.topics log = true) :
    poolLogs (logs.filterMap (due f d (some cursor))) = (handedOf f d cursor logs).filterMap (livePath f d) := by
  have hPool : poolLogs (logs.filterMap (due f d (some cursor))) = logs.filterMap (due f d (some cursor)) := by
    rw [poolLogs, List.filter_eq_self]
    intro ev hMem
    obtain ⟨log, -, hDue⟩ := List.mem_filterMap.mp hMem
    unfold due at hDue
    split at hDue
    · obtain ⟨idx, -, rfl⟩ := Option.map_eq_some_iff.mp hDue
      rfl
    · cases hDue
  rw [hPool, handedOf, List.filterMap_filter]
  apply List.filterMap_congr
  intro log hMem
  cases hDue : due f d (some cursor) log with
  | none => rfl
  | some ev =>
    rw [Option.isSome_some, if_pos rfl, ← hDue]
    exact due_eq_livePath (hTopics log hMem) ((above_some _ _).mp (due_above hDue))

theorem mem_handedOf {logs : List Log} {log : Log}
    (hPrefix : logs <+: LogProvider.rangeLogs ⟨mined, fails⟩ (backfillFilter f) (gapStart cursor) head)
    (h : log ∈ handedOf f d cursor logs) :
    log ∈ mined ∧ Before cursor (logPosition log) ∧ logBlock log ≤ head := by
  obtain ⟨hMem, hDue⟩ := List.mem_filter.mp h
  obtain ⟨ev, hEvent⟩ := Option.isSome_iff_exists.mp hDue
  have hRange := mem_backfillRange.mp (hPrefix.subset hMem)
  exact ⟨hRange.1, (above_some _ _).mp (due_above hEvent), hRange.2.2.1⟩

theorem handedOf_ordered (hOrder : mined.Pairwise fun a b => Before (logPosition a) (logPosition b))
    {logs : List Log}
    (hPrefix : logs <+: LogProvider.rangeLogs ⟨mined, fails⟩ (backfillFilter f) (gapStart cursor) head) :
    (handedOf f d cursor logs).Pairwise fun a b => Before (logPosition a) (logPosition b) := by
  have hRange : (LogProvider.rangeLogs ⟨mined, fails⟩ (backfillFilter f) (gapStart cursor) head).Sublist mined :=
    List.filter_sublist.trans List.filter_sublist
  have hHanded : (handedOf f d cursor logs).Sublist mined :=
    (List.filter_sublist.trans hPrefix.sublist).trans hRange
  exact List.Pairwise.sublist hHanded hOrder

theorem handedOf_complete (hIndex : ∀ log ∈ mined, (logPosition log).2 ≤ u64Max)
    (hOwn : ∀ log ∈ mined, (f.resolve log).isSome → log.address ≠ univ4PoolManager) {log : Log}
    (hMined : log ∈ mined) (hLive : (livePath f d log).isSome) (hBefore : Before cursor (logPosition log))
    (hHead : logBlock log ≤ head) :
    log ∈ handedOf f d cursor
      (LogProvider.rangeLogs ⟨mined, fails⟩ (backfillFilter f) (gapStart cursor) head) := by
  obtain ⟨hTopics, idx, hResolve, -⟩ := matchesTopics_of_livePath hLive
  have hAddress := (matchesAddress_of_livePath hLive).mpr fun hManager =>
    absurd hManager (hOwn log hMined (by rw [hResolve]; rfl))
  refine List.mem_filter.mpr ⟨mem_backfillRange.mpr ⟨hMined, ?_, hHead, hAddress, hTopics⟩, ?_⟩
  · exact gapStart_le (hIndex log hMined) hBefore
  · rwa [due_eq_livePath hTopics hBefore]

/-- `backfill` fails after some logs of the gap, or leaves every log up to the head
handed on, covered by a resync or already passed. -/
theorem backfill_progress (hAccepts : ∀ sent, accepts sent = true)
    (hOrdered : LogProvider.ChainOrdered ⟨mined, fails⟩)
    (hOwn : ∀ log ∈ mined, (f.resolve log).isSome → log.address ≠ univ4PoolManager) (hHead : opened ≤ head)
    (cursor : Cursor) :
    (∃ sent, ∃ handed : List Log, backfill ⟨mined, fails⟩ f d accepts cursor head = (sent, .error ()) ∧
      poolLogs sent = handed.filterMap (livePath f d) ∧
      (∀ log ∈ handed, log ∈ mined ∧ Above (some cursor) (logPosition log)) ∧
      handed.Pairwise fun a b => Before (logPosition a) (logPosition b)) ∨
    ∃ sent, ∃ handed : List Log, ∃ advanced, backfill ⟨mined, fails⟩ f d accepts cursor head = (sent, .ok advanced) ∧
      Progress mined f d (some cursor) opened (fun log => .resync ∈ sent ∧ logBlock log ≤ head) [] handed
        ⟨some advanced, sent⟩ := by
  have hStart : ∀ log ∈ mined, logBlock log < gapStart cursor → ¬Before cursor (logPosition log) := by
    intro log hMined hLt hBefore
    have hLe := gapStart_le (hOrdered.index_le log hMined) hBefore
    omega
  have hPast : ∀ log ∈ mined, Above (some (head, u64Max)) (logPosition log) ↔ head < logBlock log := by
    intro log hMined
    have hIndex := hOrdered.index_le log hMined
    rw [above_some]
    unfold Before logBlock
    omega
  have hFollows : ∀ log, gapStart cursor ≤ head → head < logBlock log → Before cursor (logPosition log) := by
    intro log hGap hLt
    unfold gapStart at hGap
    unfold logBlock at hLt
    unfold Before
    split at hGap <;> omega
  unfold backfill
  split
  · rename_i hEmpty
    refine .inr ⟨[], [], cursor, rfl, rfl, nofun, .nil, fun _ _ h => h, fun _ _ _ h => .inl h, ?_⟩
    rintro log hMined - (hOpened | hPolled)
    · rw [above_some]
      exact .inr (hStart log hMined (by omega))
    · cases hPolled
  · rename_i hGap
    have hGap : gapStart cursor ≤ head := by omega
    split
    · rw [if_pos (hAccepts _)]
      refine .inr ⟨[.resync], [], (head, u64Max), rfl, rfl, nofun, .nil, ?_, ?_, ?_⟩
      · intro log hMined hAbove
        exact (above_some _ _).mpr (hFollows log hGap ((hPast log hMined).mp hAbove))
      · intro log hMined _ hNot
        rw [hPast log hMined] at hNot
        exact .inr (.inl ⟨List.mem_singleton_self _, by omega⟩)
      · rintro log hMined - (hOpened | hPolled)
        · exact .inl ⟨List.mem_singleton_self _, by omega⟩
        · cases hPolled
    · obtain ⟨logs, outcome, hRun, hPrefix, hOutcome⟩ :=
        backfillChunks_cases (f := f) (d := d) hAccepts hOrdered cursor head (gapStart cursor) []
      have hSends := handedOf_sends d cursor (fun log hMem =>
        (mem_backfillRange.mp (hPrefix.subset hMem)).2.2.2.2)
      have hSorted := handedOf_ordered (d := d) hOrdered.ordered hPrefix
      rw [hRun, List.nil_append]
      obtain ⟨rfl, -⟩ | ⟨rfl, hAll⟩ := hOutcome
      · refine .inl ⟨_, handedOf f d cursor logs, rfl, hSends, ?_, hSorted⟩
        intro log hMem
        obtain ⟨hMined, hBefore, -⟩ := mem_handedOf hPrefix hMem
        exact ⟨hMined, (above_some _ _).mpr hBefore⟩
      · refine .inr ⟨_, handedOf f d cursor logs, (head, u64Max), rfl, hSends, ?_, hSorted, ?_, ?_, ?_⟩
        · intro log hMem
          obtain ⟨hMined, hBefore, hLe⟩ := mem_handedOf hPrefix hMem
          refine ⟨hMined, (above_some _ _).mpr hBefore, ?_⟩
          rw [hPast log hMined]
          omega
        · intro log hMined hAbove
          exact (above_some _ _).mpr (hFollows log hGap ((hPast log hMined).mp hAbove))
        · intro log hMined hLive hNot
          rw [hPast log hMined] at hNot
          by_cases hBefore : Before cursor (logPosition log)
          · subst hAll
            exact .inr (.inr (handedOf_complete hOrdered.index_le hOwn hMined hLive hBefore (by omega)))
          · exact .inl fun hAbove => hBefore ((above_some _ _).mp hAbove)
        · rintro log hMined - (hOpened | hPolled)
          · refine .inr fun hAbove => ?_
            have hLt := (hPast log hMined).mp hAbove
            omega
          · cases hPolled

/-- What one session does for the logs, from the cursor it began with. -/
structure Session.Keeps (mined : List Log) (f : FilterSet) (d : LogDecoders) (conn : Connection)
    (start : Option Cursor) (handed : List Log) (s : Session) : Prop where
  sends : poolLogs s.sent = handed.filterMap (livePath f d)
  above : ∀ log ∈ handed, Above start (logPosition log)
  ordered : handed.Pairwise fun a b => Before (logPosition a) (logPosition b)
  passed : s.stage ≠ .backfillFailed → ∀ log ∈ handed, ¬Above s.cursor (logPosition log)
  forward : ∀ log ∈ mined, Above s.cursor (logPosition log) → Above start (logPosition log)
  handed_mined : ∀ log ∈ handed, log ∈ mined
  accounts : ∀ log ∈ mined, (livePath f d log).isSome → ¬Above s.cursor (logPosition log) →
    ¬Above start (logPosition log) ∨ s.Covers log ∨ log ∈ handed
  reaches : s.stage = .live → ∀ log ∈ mined, (livePath f d log).isSome →
    (∃ opened, conn.opened = some opened ∧ logBlock log ≤ opened) ∨ log ∈ conn.polled →
    s.Covers log ∨ ¬Above s.cursor (logPosition log)

theorem Session.Keeps.idle {conn : Connection} {start : Option Cursor} {stage : Stage} (hStage : stage ≠ .live) :
    Session.Keeps mined f d conn start [] ⟨stage, [], start, 0⟩ where
  sends := rfl
  above := nofun
  ordered := .nil
  passed := fun _ => nofun
  forward := fun _ _ h => h
  handed_mined := nofun
  accounts := fun _ _ _ h => .inl h
  reaches := fun hLive => absurd hLive hStage

theorem runLive_keeps (hAccepts : ∀ sent, accepts sent = true)
    (hOrdered : LogProvider.ChainOrdered ⟨mined, fails⟩) {conn : Connection} (hFaithful : conn.Faithful mined f)
    (hOpened : conn.opened = some opened) {start : Option Cursor} {handed : List Log} {s : LiveState} {tip : Nat}
    (h : Progress mined f d start opened (fun log => .resync ∈ s.sent ∧ logBlock log ≤ tip) [] handed s) :
    ∃ handed, Session.Keeps mined f d conn start handed (RpcBackend.runLive f d accepts conn s tip) := by
  obtain ⟨handed, final, hFinal, hGrows, hEnds⟩ := Progress.loop hAccepts hOrdered.ordered hOrdered.index_le
    hFaithful hOpened (List.nil_append conn.polls).symm h
  have hRun : RpcBackend.runLive f d accepts conn s tip = ⟨.live, final.sent, final.cursor, tip⟩ := by
    obtain hOk | ⟨exit, hError⟩ := hEnds
    · rw [RpcBackend.runLive, hOk]
    · rw [RpcBackend.runLive, hError]
  have hCovers : ∀ log, .resync ∈ s.sent ∧ logBlock log ≤ tip →
      Session.Covers ⟨.live, final.sent, final.cursor, tip⟩ log :=
    fun log hCovered => ⟨hGrows.subset hCovered.1, hCovered.2⟩
  rw [hRun]
  refine ⟨handed, hFinal.sends, fun log hMem => (hFinal.fresh log hMem).2.1, hFinal.ordered,
    fun _ log hMem => (hFinal.fresh log hMem).2.2, hFinal.forward, fun log hMem => (hFinal.fresh log hMem).1, ?_, ?_⟩
  · intro log hMined hLive hNot
    exact (hFinal.accounts log hMined hLive hNot).imp_right fun hDone => hDone.imp_left (hCovers log)
  · intro _ log hMined hLive hReached
    refine (hFinal.reaches log hMined hLive (hReached.imp_left ?_)).imp_left (hCovers log)
    rintro ⟨block, hBlock, hLe⟩
    rw [hOpened] at hBlock
    cases hBlock
    exact hLe

theorem runOnce_keeps (hAccepts : ∀ sent, accepts sent = true)
    (hOrdered : ∀ fails, LogProvider.ChainOrdered ⟨mined, fails⟩)
    (hOwn : ∀ log ∈ mined, (f.resolve log).isSome → log.address ≠ univ4PoolManager) {conn : Connection}
    (hFaithful : conn.Faithful mined f) (start : Option Cursor) :
    ∃ handed, Session.Keeps mined f d conn start handed (RpcBackend.runOnce mined f d accepts conn start) := by
  unfold RpcBackend.runOnce
  cases hOpened : conn.opened with
  | none => exact ⟨[], .idle nofun⟩
  | some opened =>
    cases start with
    | none =>
      -- no cursor: the resync covers every log the subscription will not deliver
      have hStart : Progress mined f d none opened (fun log => .resync ∈ [IngestEvent.resync] ∧ logBlock log ≤ opened)
          [] [] ⟨none, [.resync]⟩ := by
        refine ⟨rfl, nofun, .nil, fun _ _ h => h, ?_, ?_⟩
        · intro log _ _ hNot
          exact absurd (above_none _) hNot
        · rintro log - - (hLe | hPolled)
          · exact .inl ⟨List.mem_singleton_self _, hLe⟩
          · cases hPolled
      rw [if_pos (hAccepts _)]
      exact runLive_keeps hAccepts (hOrdered conn.fails) hFaithful hOpened hStart
    | some c =>
      cases hHead : conn.head with
      | none => exact ⟨[], .idle nofun⟩
      | some head =>
        obtain ⟨sent, handed, hRun, hSends, hAbove, hSorted⟩ | ⟨sent, handed, advanced, hRun, hProgress⟩ :=
          backfill_progress (d := d) hAccepts (hOrdered conn.fails) hOwn
            (hFaithful.head_le opened head hOpened hHead) c
        · simp only [hRun]
          exact ⟨handed, hSends, fun log hMem => (hAbove log hMem).2, hSorted, fun h => absurd rfl h,
            fun _ _ h => h, fun log hMem => (hAbove log hMem).1, fun _ _ _ h => .inl h, nofun⟩
        · simp only [hRun]
          exact runLive_keeps hAccepts (hOrdered conn.fails) hFaithful hOpened hProgress

/-- The sessions of a run from a cursor. `Done` are the logs dealt with before it. -/
theorem run_keeps (hAccepts : ∀ sent, accepts sent = true)
    (hOrdered : ∀ fails, LogProvider.ChainOrdered ⟨mined, fails⟩)
    (hOwn : ∀ log ∈ mined, (f.resolve log).isSome → log.address ≠ univ4PoolManager) (conns : List Connection)
    (hFaithful : ∀ conn ∈ conns, conn.Faithful mined f) (start : Option Cursor) (Done : Log → Prop)
    (hDone : ∀ log ∈ mined, (livePath f d log).isSome → ¬Above start (logPosition log) → Done log) :
    ∃ handed : Nat → List Log,
      (∀ (k : Nat) s, (RpcBackend.run mined f d accepts start conns)[k]? = some s →
        poolLogs s.sent = (handed k).filterMap (livePath f d)) ∧
      (∀ k, (handed k).Pairwise fun a b => Before (logPosition a) (logPosition b)) ∧
      (∀ k, ∀ log ∈ handed k, log ∈ mined ∧ Above start (logPosition log)) ∧
      (∀ (k : Nat) conn s, conns[k]? = some conn →
        (RpcBackend.run mined f d accepts start conns)[k]? = some s → s.stage = .live →
        ∀ log ∈ mined, (livePath f d log).isSome →
          (∃ opened, conn.opened = some opened ∧ logBlock log ≤ opened) ∨ log ∈ conn.polled →
          Done log ∨ ∃ i ≤ k, log ∈ handed i ∨
            ∃ s, (RpcBackend.run mined f d accepts start conns)[i]? = some s ∧ s.Covers log) ∧
      ∀ i j log, i < j → log ∈ handed i → log ∈ handed j →
        ∃ s, (RpcBackend.run mined f d accepts start conns)[i]? = some s ∧ s.stage = .backfillFailed := by
  induction conns generalizing start Done with
  | nil => exact ⟨fun _ => [], nofun, fun _ => .nil, fun _ => nofun, nofun, fun _ _ _ _ => nofun⟩
  | cons conn conns ih =>
    obtain ⟨first, hFirst⟩ := runOnce_keeps (d := d) hAccepts hOrdered hOwn
      (hFaithful conn List.mem_cons_self) start
    rw [RpcBackend.run]
    generalize RpcBackend.runOnce mined f d accepts conn start = session at hFirst ⊢
    obtain ⟨handed, hSends, hSorted, hAbove, hReaches, hTwice⟩ :=
      ih (fun conn hMem => hFaithful conn (List.mem_cons_of_mem _ hMem)) session.cursor
        (fun log => Done log ∨ session.Covers log ∨ log ∈ first) fun log hMined hLive hNot =>
          (hFirst.accounts log hMined hLive hNot).imp_left (hDone log hMined hLive)
    refine ⟨fun k => k.casesOn first handed, ?_, ?_, ?_, ?_, ?_⟩
    · rintro (_ | k) s hSession
      · cases hSession
        exact hFirst.sends
      · exact hSends k s hSession
    · rintro (_ | k)
      · exact hFirst.ordered
      · exact hSorted k
    · rintro (_ | k) log hMem
      · exact ⟨hFirst.handed_mined log hMem, hFirst.above log hMem⟩
      · obtain ⟨hMined, hLater⟩ := hAbove k log hMem
        exact ⟨hMined, hFirst.forward log hMined hLater⟩
    · have hNow : ∀ k log, Done log ∨ session.Covers log ∨ log ∈ first →
          Done log ∨ ∃ i ≤ k, log ∈ (fun k => k.casesOn first handed : Nat → List Log) i ∨
            ∃ s, (session :: RpcBackend.run mined f d accepts session.cursor conns)[i]? = some s ∧ s.Covers log := by
        rintro k log (hBefore | hCovers | hHanded)
        · exact .inl hBefore
        · exact .inr ⟨0, Nat.zero_le k, .inr ⟨session, rfl, hCovers⟩⟩
        · exact .inr ⟨0, Nat.zero_le k, .inl hHanded⟩
      rintro (_ | k) conn' s hConn hSession hLive log hMined hDelivered hReached
      · cases hConn
        cases hSession
        apply hNow
        obtain hCovers | hPassed := hFirst.reaches hLive log hMined hDelivered hReached
        · exact .inr (.inl hCovers)
        · exact (hFirst.accounts log hMined hDelivered hPassed).imp_left (hDone log hMined hDelivered)
      · obtain hBefore | ⟨i, hLe, hLater⟩ := hReaches k conn' s hConn hSession hLive log hMined hDelivered hReached
        · exact hNow _ log hBefore
        · exact .inr ⟨i + 1, Nat.succ_le_succ hLe, hLater⟩
    · rintro (_ | i) (_ | j) log hLt hEarly hLate
      · cases hLt
      · -- a session that has handed the log on and passed it leaves nothing to repeat
        refine ⟨session, rfl, ?_⟩
        by_contra hStage
        exact hFirst.passed hStage log hEarly (hAbove j log hLate).2
      · cases hLt
      · exact hTwice i j log (Nat.lt_of_succ_lt_succ hLt) hEarly hLate

end Sessions

section Sample

/-- A first connection that ends before block 10, a backfill whose query fails, and a
reconnect at block 11. -/
def sampleConnections : List Connection :=
  [⟨some 9, none, fun _ _ _ => false, [.header ⟨10, 0, none⟩, .watchdog]⟩,
    ⟨some 11, some 11, fun _ _ _ => true, []⟩, ⟨some 11, some 11, fun _ _ _ => false, [.header ⟨12, 0, none⟩]⟩]

/-- The log of block 10 is replayed by the third connection. -/
example : (RpcBackend.run [syncLog] pairFilters noDecoders (fun _ => true) none sampleConnections).map Session.stage =
    [.live, .backfillFailed, .live] := by decide +kernel

theorem sampleConnections_faithful : ∀ conn ∈ sampleConnections, conn.Faithful [syncLog] pairFilters := by
  have hBlock : logBlock syncLog = 10 := rfl
  simp only [sampleConnections, List.forall_mem_cons, List.not_mem_nil, false_implies, implies_true, and_true]
  refine ⟨⟨nofun, fun _ _ => List.nil_prefix, ?_⟩, ⟨?_, fun _ _ => List.nil_prefix, ?_⟩,
    ⟨?_, fun _ _ => List.nil_prefix, ?_⟩⟩
  · rintro opened hOpened before h after hSplit log hMined - hAfter hBefore
    obtain rfl := List.mem_singleton.mp hMined
    have hHeader : Poll.header h ∈ [Poll.header ⟨10, 0, none⟩, .watchdog] :=
      (congrArg (Poll.header h ∈ ·) hSplit).mpr (List.mem_append_right _ List.mem_cons_self)
    obtain hFirst | hRest := List.mem_cons.mp hHeader
    · cases hFirst
      simp only at hBefore
      omega
    · exact absurd hRest (by simp)
  · rintro opened head ⟨⟩ ⟨⟩
    exact Nat.le_refl 11
  · rintro opened ⟨⟩ before h after - log hMined - hAfter -
    obtain rfl := List.mem_singleton.mp hMined
    omega
  · rintro opened head ⟨⟩ ⟨⟩
    exact Nat.le_refl 11
  · rintro opened ⟨⟩ before h after - log hMined - hAfter -
    obtain rfl := List.mem_singleton.mp hMined
    omega

end Sample

end Robinarb
