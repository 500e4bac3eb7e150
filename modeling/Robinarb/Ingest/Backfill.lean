import Robinarb.Ingest.Multicall

/-! # Backfill after a reconnect

The replay of `(cursor..=head]` through chunked log queries, compared with what
the live path would have delivered for the same logs.
-/

namespace Robinarb

open ListFilters

def maxBackfillBlocks : Nat := 3000
def backfillChunk : Nat := 200

section Backfill

variable (p : LogProvider) (f : FilterSet) (d : LogDecoders) (accepts : List IngestEvent → Bool)

/-- The inner loop over the logs of one chunk; `false` is a closed receiver. -/
def replayLogs (cursor : Cursor) : List Log → List IngestEvent → List IngestEvent × Bool
  | [], sent => (sent, true)
  | log :: rest, sent =>
    match f.resolve log with
    | none => replayLogs cursor rest sent
    | some idx =>
      if Before cursor (logPosition log) then
        if accepts sent then replayLogs cursor rest (sent ++ [poolLogOf d log idx]) else (sent, false)
      else
        replayLogs cursor rest sent

/-- The addresses are the keys of the engine's map, whatever their order. -/
def backfillFilter : LogFilter := ⟨f.engine.addresses, f.topics⟩

/-- The chunk loop: what was sent, and the advanced cursor or the failed query. -/
def backfillChunks (cursor : Cursor) (head fromChunk : Nat) (sent : List IngestEvent) :
    List IngestEvent × Except Unit Cursor :=
  if fromChunk ≤ head then
    let toChunk := min (fromChunk + backfillChunk - 1) head
    match p.getLogsBisect (backfillFilter f) fromChunk toChunk with
    | .error e => (sent, .error e)
    | .ok logs =>
      let (sent, running) := replayLogs f d accepts cursor logs sent
      if running then backfillChunks cursor head (toChunk + 1) sent else (sent, .ok (head, u64Max))
  else
    (sent, .ok (head, u64Max))
termination_by head + 1 - fromChunk
decreasing_by
  unfold backfillChunk
  omega

def gapStart (cursor : Cursor) : Nat := if cursor.2 = u64Max then cursor.1 + 1 else cursor.1

def backfill (cursor : Cursor) (head : Nat) : List IngestEvent × Except Unit Cursor :=
  if head < gapStart cursor then ([], .ok cursor)
  else if maxBackfillBlocks < head - gapStart cursor then
    (if accepts [] then [.resync] else [], .ok (head, u64Max))
  else
    backfillChunks p f d accepts cursor head (gapStart cursor) []

/-- What the live path delivers for a log: the topic-filtered subscription, then `resolve`. -/
def livePath (log : Log) : Option IngestEvent :=
  if matchesTopics f.topics log then (f.resolve log).map (poolLogOf d log) else none

def gapLogs (cursor : Cursor) (head : Nat) : List Log :=
  p.mined.filter fun log => decide (Before cursor (logPosition log)) && decide (logBlock log ≤ head)

/-- Logs as a chain mines them: in order, with 64-bit indices. -/
structure LogProvider.ChainOrdered : Prop where
  ordered : p.mined.Pairwise fun a b => Before (logPosition a) (logPosition b)
  index_le : ∀ log ∈ p.mined, (logPosition log).2 ≤ u64Max

end Backfill

section Replay

variable {p : LogProvider} {f : FilterSet} {d : LogDecoders} {accepts : List IngestEvent → Bool}

theorem LogProvider.ChainOrdered.sorted (h : p.ChainOrdered) :
    p.mined.Pairwise fun a b => logBlock a ≤ logBlock b := by
  refine h.ordered.imp fun {a b} hab => ?_
  unfold Before at hab
  unfold logBlock
  omega

theorem replayLogs_eq (hAccepts : ∀ sent, accepts sent = true) (cursor : Cursor) (logs : List Log)
    (sent : List IngestEvent) :
    replayLogs f d accepts cursor logs sent = (sent ++ logs.filterMap (due f d (some cursor)), true) := by
  induction logs generalizing sent with
  | nil => simp [replayLogs]
  | cons log rest ih =>
    rw [replayLogs]
    cases hResolve : f.resolve log with
    | none =>
      have hDue : due f d (some cursor) log = none := by simp [due, hResolve]
      simp only [ih, List.filterMap_cons_none hDue]
    | some idx =>
      by_cases hBefore : Before cursor (logPosition log)
      · have hDue : due f d (some cursor) log = some (poolLogOf d log idx) := by simp [due, hResolve, hBefore]
        simp only [if_pos hBefore, hAccepts, if_true, ih, List.filterMap_cons_some hDue, List.append_assoc,
          List.singleton_append]
      · have hDue : due f d (some cursor) log = none := by simp [due, hBefore]
        simp only [if_neg hBefore, ih, List.filterMap_cons_none hDue]

/-- The chunk loop stops after some of the logs of the range, or after all of them. -/
theorem backfillChunks_cases (hAccepts : ∀ sent, accepts sent = true) (hOrdered : p.ChainOrdered)
    (cursor : Cursor) (head fromChunk : Nat) (sent : List IngestEvent) :
    ∃ logs outcome, backfillChunks p f d accepts cursor head fromChunk sent =
        (sent ++ logs.filterMap (due f d (some cursor)), outcome) ∧
      logs <+: p.rangeLogs (backfillFilter f) fromChunk head ∧
      (outcome = .error () ∧ ¬p.Answers ∨
        outcome = .ok (head, u64Max) ∧ logs = p.rangeLogs (backfillFilter f) fromChunk head) := by
  induction hSize : head + 1 - fromChunk using Nat.strong_induction_on generalizing fromChunk sent with
  | _ size ih =>
    rw [backfillChunks]
    split
    · rename_i hLe
      generalize hTo : min (fromChunk + backfillChunk - 1) head = toChunk
      unfold backfillChunk at hTo
      have hSplit : p.rangeLogs (backfillFilter f) fromChunk toChunk ++
          p.rangeLogs (backfillFilter f) (toChunk + 1) head = p.rangeLogs (backfillFilter f) fromChunk head := by
        simp only [LogProvider.rangeLogs]
        rw [← List.filter_append, filter_inRange_append hOrdered.sorted (by omega) (by omega)]
      obtain hOk | ⟨hError, hNot⟩ := LogProvider.getLogsBisect_cases hOrdered.sorted (backfillFilter f)
        (show fromChunk ≤ toChunk by omega)
      · obtain ⟨logs, outcome, hRun, hPrefix, hOutcome⟩ := ih (head + 1 - (toChunk + 1)) (by omega) (toChunk + 1)
          (sent ++ (p.rangeLogs (backfillFilter f) fromChunk toChunk).filterMap (due f d (some cursor))) rfl
        refine ⟨p.rangeLogs (backfillFilter f) fromChunk toChunk ++ logs, outcome, ?_, ?_, ?_⟩
        · simp only [hOk, replayLogs_eq hAccepts, if_true]
          rw [hRun, List.filterMap_append, List.append_assoc]
        · rw [← hSplit]
          exact (List.prefix_append_right_inj _).mpr hPrefix
        · refine hOutcome.imp_right ?_
          rintro ⟨hDone, hAll⟩
          exact ⟨hDone, by rw [hAll, hSplit]⟩
      · refine ⟨[], .error (), ?_, List.nil_prefix, .inl ⟨rfl, hNot⟩⟩
        simp only [hError, List.filterMap_nil, List.append_nil]
    · have hNone : p.rangeLogs (backfillFilter f) fromChunk head = [] := by
        rw [LogProvider.rangeLogs, List.filter_filter, List.filter_eq_nil_iff]
        intro log _
        simp only [inRange, Bool.and_eq_true, decide_eq_true_eq]
        omega
      exact ⟨[], _, by simp, List.nil_prefix, .inr ⟨rfl, hNone.symm⟩⟩

theorem backfillChunks_eq (hAccepts : ∀ sent, accepts sent = true) (hAnswers : p.Answers)
    (hOrdered : p.ChainOrdered) (cursor : Cursor) (head fromChunk : Nat) (sent : List IngestEvent) :
    backfillChunks p f d accepts cursor head fromChunk sent =
      (sent ++ (p.rangeLogs (backfillFilter f) fromChunk head).filterMap (due f d (some cursor)),
        .ok (head, u64Max)) := by
  obtain ⟨logs, outcome, hRun, -, ⟨-, hNot⟩ | ⟨rfl, rfl⟩⟩ :=
    backfillChunks_cases (p := p) (f := f) (d := d) hAccepts hOrdered cursor head fromChunk sent
  · exact absurd hAnswers hNot
  · exact hRun

theorem gapStart_le {cursor : Cursor} {log : Log} (hIndex : (logPosition log).2 ≤ u64Max)
    (hBefore : Before cursor (logPosition log)) : gapStart cursor ≤ logBlock log := by
  unfold Before at hBefore
  unfold gapStart logBlock
  split <;> omega

theorem replayed_eq_gap (hOrdered : p.ChainOrdered) (cursor : Cursor) (head : Nat) :
    (p.rangeLogs (backfillFilter f) (gapStart cursor) head).filterMap (due f d (some cursor)) =
      (gapLogs p cursor head).filterMap fun log =>
        if matchesAddress f.engine.addresses log then livePath f d log else none := by
  simp only [LogProvider.rangeLogs, gapLogs, List.filterMap_filter]
  apply List.filterMap_congr
  intro log hMem
  by_cases hBefore : Before cursor (logPosition log)
  · have hStart := gapStart_le (hOrdered.index_le log hMem) hBefore
    simp only [inRange, hStart, hBefore, due, livePath, LogFilter.selects, backfillFilter, above_some,
      decide_true, Bool.true_and, if_true]
    split
    · cases matchesAddress f.engine.addresses log <;> cases matchesTopics f.topics log <;> rfl
    · rfl
  · simp [hBefore, due]

theorem backfill_eq (hAccepts : ∀ sent, accepts sent = true) (hAnswers : p.Answers)
    (hOrdered : p.ChainOrdered) {cursor : Cursor} {head : Nat}
    (hGap : head - gapStart cursor ≤ maxBackfillBlocks) :
    ∃ advanced, backfill p f d accepts cursor head =
      ((gapLogs p cursor head).filterMap fun log =>
        if matchesAddress f.engine.addresses log then livePath f d log else none, .ok advanced) := by
  unfold backfill
  split
  · rename_i hEmpty
    have hNone : gapLogs p cursor head = [] := by
      rw [gapLogs, List.filter_eq_nil_iff]
      intro log hMem
      simp only [Bool.and_eq_true, decide_eq_true_eq, not_and]
      intro hBefore
      have hStart := gapStart_le (hOrdered.index_le log hMem) hBefore
      omega
    exact ⟨cursor, by rw [hNone]; rfl⟩
  · rw [if_neg (by omega), backfillChunks_eq hAccepts hAnswers hOrdered, replayed_eq_gap hOrdered]
    exact ⟨(head, u64Max), rfl⟩

/-- A log the live path delivers passes the address filter, unless it comes from a
PoolManager that is not itself a key of the engine. -/
theorem matchesAddress_of_livePath {log : Log} (hLive : (livePath f d log).isSome) :
    matchesAddress f.engine.addresses log = true ↔
      (log.address = univ4PoolManager → univ4PoolManager ∈ f.engine.addresses) := by
  have hResolve : (f.resolve log).isSome := by
    unfold livePath at hLive
    split at hLive
    · simpa using hLive
    · cases hLive
  have hNonempty := FilterSet.resolve_nonempty hResolve
  simp only [matchesAddress, Bool.or_eq_true, List.isEmpty_iff, hNonempty, false_or, List.contains_iff_mem]
  by_cases hManager : log.address = univ4PoolManager
  · rw [hManager]
    exact ⟨fun h _ => h, fun h => h rfl⟩
  · exact iff_of_true (FilterSet.resolve_address hResolve hManager) fun h => absurd h hManager

/-- With an open receiver and a provider that answers, backfill sends exactly what
the live path would have delivered for the logs of the gap, in order, if and only
if no log that path delivers comes from a PoolManager outside the engine's keys. -/
theorem backfill_replays_live_path_iff (hAccepts : ∀ sent, accepts sent = true) (hAnswers : p.Answers)
    (hOrdered : p.ChainOrdered) {cursor : Cursor} {head : Nat}
    (hGap : head - gapStart cursor ≤ maxBackfillBlocks) :
    ∃ sent advanced, backfill p f d accepts cursor head = (sent, .ok advanced) ∧
      (sent = (gapLogs p cursor head).filterMap (livePath f d) ↔
        ∀ log ∈ gapLogs p cursor head, (livePath f d log).isSome →
          log.address = univ4PoolManager → univ4PoolManager ∈ f.engine.addresses) := by
  obtain ⟨advanced, hRun⟩ := backfill_eq (f := f) (d := d) hAccepts hAnswers hOrdered hGap
  refine ⟨_, advanced, hRun, ?_⟩
  rw [filterMap_guard_eq_iff]
  constructor
  · intro h log hMem hLive
    exact (matchesAddress_of_livePath hLive).mp (h log hMem hLive)
  · intro h log hMem hLive
    exact (matchesAddress_of_livePath hLive).mpr (h log hMem hLive)

end Replay

section Sample

def v4SwapTopic : B256 := 0x40e9cecb9f5f1f1c5b9c97dec2917b7ee92e57ba5563708daca94dd84ad7112f#256

def sampleV4Pool : PoolMeta where
  idx := 0
  address := V4Meta.syntheticAddress (7#256 <<< 96)
  dex := .uniV4
  token0 := 10#160
  token1 := 11#160
  dec0 := 18#8
  dec1 := 18#8
  feeBps := 0#32
  feePips := 3000#32
  tickSpacing := 60
  v4 := some ⟨7#256 <<< 96, 10#160, 11#160, 3000#32, 60⟩

def v4Filters : FilterSet := ⟨⟨[sampleV4Pool], [(7#160, 0)]⟩, [v4SwapTopic]⟩

def v4Log : Log :=
  ⟨univ4PoolManager, [v4SwapTopic, 7#256 <<< 96, 12#256], List.replicate 192 0#8, some 10, some 0⟩

def oneLogProvider : LogProvider := ⟨[v4Log], fun _ _ _ => false⟩

/-- The log of a V4 pool is delivered live and never replayed. -/
theorem backfill_misses_v4_log :
    Engine.new [sampleV4Pool] = some v4Filters.engine ∧
    (gapLogs oneLogProvider (9, u64Max) 10).filterMap (livePath v4Filters noDecoders) = [.poolLog 10 0 none] ∧
    ¬∃ sent advanced, backfill oneLogProvider v4Filters noDecoders (fun _ => true) (9, u64Max) 10 =
        (sent, .ok advanced) ∧
      sent = (gapLogs oneLogProvider (9, u64Max) 10).filterMap (livePath v4Filters noDecoders) := by
  have hLive : (gapLogs oneLogProvider (9, u64Max) 10).filterMap (livePath v4Filters noDecoders) =
      [.poolLog 10 0 none] := by decide
  refine ⟨rfl, hLive, ?_⟩
  rintro ⟨sent, advanced, hRun, hSent⟩
  have hGap : 10 - gapStart (9, u64Max) ≤ maxBackfillBlocks := by decide
  obtain ⟨_, hEq⟩ := backfill_eq (p := oneLogProvider) (f := v4Filters) (d := noDecoders) (fun _ => rfl)
    (fun _ => ⟨0, by omega, rfl⟩) ⟨List.pairwise_singleton _ _, by decide⟩ hGap
  rw [hRun, Prod.mk.injEq] at hEq
  rw [hSent, hLive] at hEq
  exact absurd hEq.1 (by decide)

theorem backfill_replays_pair : ∃ sent advanced,
    backfill ⟨[syncLog], fun _ _ _ => false⟩ pairFilters noDecoders (fun _ => true) (9, u64Max) 10 =
        (sent, .ok advanced) ∧
      (sent = (gapLogs ⟨[syncLog], fun _ _ _ => false⟩ (9, u64Max) 10).filterMap
          (livePath pairFilters noDecoders) ↔
        ∀ log ∈ gapLogs ⟨[syncLog], fun _ _ _ => false⟩ (9, u64Max) 10,
          (livePath pairFilters noDecoders log).isSome → log.address = univ4PoolManager →
            univ4PoolManager ∈ pairFilters.engine.addresses) :=
  backfill_replays_live_path_iff (fun _ => rfl) (fun _ => ⟨0, by omega, rfl⟩)
    ⟨List.pairwise_singleton _ _, by decide⟩ (by decide)

end Sample

end Robinarb
