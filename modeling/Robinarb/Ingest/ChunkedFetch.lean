import Robinarb.Library.RangeChunks
import Robinarb.Ingest.Backfill
import Robinarb.Ingest.FactoryScan

/-! # Every block once

What a bisected query fetches and when it fails, and the chunks that the backfill and the
factory scan cut their ranges into.
-/

namespace Robinarb

open RangeChunks CheckpointedLoop

namespace LogProvider

variable {p : LogProvider}

def Refuses (p : LogProvider) (r : Nat × Nat) : Prop := ∀ attempt < 3, p.fails r.1 r.2 attempt = true

theorem retryGetLogs_of_refuses {flt : LogFilter} {first last : Nat} (h : p.Refuses (first, last)) :
    p.retryGetLogs flt first last = .error () := by
  have hAll : (List.range 3).all (p.fails first last) = true :=
    List.all_eq_true.mpr fun attempt hMem => h attempt (List.mem_range.mp hMem)
  rw [retryGetLogs, if_pos hAll]

theorem retryGetLogs_of_answers {flt : LogFilter} {first last : Nat} (h : ¬p.Refuses (first, last)) :
    p.retryGetLogs flt first last = .ok (p.rangeLogs flt first last) := by
  obtain hOk | ⟨-, hFails⟩ := p.retryGetLogs_cases flt first last
  · exact hOk
  · exact absurd hFails h

/-- A block that no query around it gets. -/
def Lost (p : LogProvider) (whole : Nat × Nat) (block : Nat) : Prop :=
  ∀ r, Bisects whole r → r.1 ≤ block → block ≤ r.2 → p.Refuses r

theorem lost_left {first last block : Nat} (hRefuses : p.Refuses (first, last)) (hLt : first < last)
    (hBlock : block ≤ first + (last - first) / 2) :
    p.Lost (first, last) block ↔ p.Lost (first, first + (last - first) / 2) block := by
  constructor
  · intro hLost r hBisects
    exact hLost r (.left hLt hBisects)
  · intro hLost r hBisects hLow hHigh
    rcases hBisects.of_left hBlock hLow with rfl | hLeft
    · exact hRefuses
    · exact hLost r hLeft hLow hHigh

theorem lost_right {first last block : Nat} (hRefuses : p.Refuses (first, last)) (hLt : first < last)
    (hBlock : first + (last - first) / 2 < block) :
    p.Lost (first, last) block ↔ p.Lost (first + (last - first) / 2 + 1, last) block := by
  constructor
  · intro hLost r hBisects
    exact hLost r (.right hLt hBisects)
  · intro hLost r hBisects hLow hHigh
    rcases hBisects.of_right hBlock hHigh with rfl | hRight
    · exact hRefuses
    · exact hLost r hRight hLow hHigh

/-- Bisection has the logs of the whole range, or has met a block that is lost. -/
theorem getLogsBisect_eq (flt : LogFilter) (hSorted : p.mined.Pairwise fun a b => logBlock a ≤ logBlock b) {first last : Nat}
    (h : first ≤ last) :
    p.getLogsBisect flt first last = .ok (p.rangeLogs flt first last) ∧
        (¬∃ block, first ≤ block ∧ block ≤ last ∧ p.Lost (first, last) block) ∨
      p.getLogsBisect flt first last = .error () ∧
        ∃ block, first ≤ block ∧ block ≤ last ∧ p.Lost (first, last) block := by
  induction hSize : last - first using Nat.strong_induction_on generalizing first last with
  | _ size ih =>
    rw [getLogsBisect]
    by_cases hRefuses : p.Refuses (first, last)
    · rw [retryGetLogs_of_refuses hRefuses]
      by_cases hSingle : last ≤ first
      · obtain rfl : first = last := by omega
        refine .inr ⟨if_pos hSingle, first, Nat.le_refl _, Nat.le_refl _, ?_⟩
        intro r hBisects _ _
        rw [hBisects.of_single]
        exact hRefuses
      · have hLt : first < last := by omega
        obtain ⟨hLeft, hNoLeft⟩ | ⟨hLeft, block, hLow, hHigh, hLost⟩ :=
          ih _ (by omega) (show first ≤ first + (last - first) / 2 by omega) rfl
        · obtain ⟨hRight, hNoRight⟩ | ⟨hRight, block, hLow, hHigh, hLost⟩ :=
            ih _ (by omega) (show first + (last - first) / 2 + 1 ≤ last by omega) rfl
          · left
            constructor
            · simp only [hLeft, hRight, if_neg hSingle, rangeLogs]
              rw [← List.filter_append, ListFilters.filter_inRange_append hSorted (by omega) (by omega)]
            · rintro ⟨block, hLow, hHigh, hLost⟩
              by_cases hBlock : block ≤ first + (last - first) / 2
              · exact hNoLeft ⟨block, hLow, hBlock, (lost_left hRefuses hLt hBlock).mp hLost⟩
              · have hAbove : first + (last - first) / 2 < block := by omega
                exact hNoRight ⟨block, hAbove, hHigh, (lost_right hRefuses hLt hAbove).mp hLost⟩
          · right
            constructor
            · simp only [hLeft, hRight, if_neg hSingle]
            · exact ⟨block, by omega, hHigh, (lost_right hRefuses hLt hLow).mpr hLost⟩
        · right
          constructor
          · simp only [hLeft, if_neg hSingle]
          · exact ⟨block, hLow, by omega, (lost_left hRefuses hLt hHigh).mpr hLost⟩
    · left
      constructor
      · rw [retryGetLogs_of_answers hRefuses]
      · rintro ⟨block, hLow, hHigh, hLost⟩
        exact hRefuses (hLost _ (.whole _) hLow hHigh)

end LogProvider

section Backfill

variable (p : LogProvider) (f : FilterSet) (d : LogDecoders) (accepts : List IngestEvent → Bool)

/-- The turn of `backfillChunks` on one chunk; an error is the result that ends the loop. -/
def backfillVisit (cursor : Cursor) (head : Nat) (sent : List IngestEvent) (r : Nat × Nat) :
    Except (List IngestEvent × Except Unit Cursor) (List IngestEvent) :=
  match p.getLogsBisect (backfillFilter f) r.1 r.2 with
  | .error e => .error (sent, .error e)
  | .ok logs =>
    let (sent, running) := replayLogs f d accepts cursor logs sent
    if running then .ok sent else .error (sent, .ok (head, u64Max))

def backfillEnd (head : Nat) :
    Except (List IngestEvent × Except Unit Cursor) (List IngestEvent) → List IngestEvent × Except Unit Cursor
  | .error out => out
  | .ok sent => (sent, .ok (head, u64Max))

/-- The chunk loop takes the chunks of its range in order, until one ends it. -/
theorem backfillChunks_visits (cursor : Cursor) (head fromChunk : Nat) (sent : List IngestEvent) :
    backfillChunks p f d accepts cursor head fromChunk sent =
      backfillEnd head ((chunks backfillChunk fromChunk head).foldlM (backfillVisit p f d accepts cursor head) sent) := by
  induction fromChunk using chunks.induct backfillChunk head generalizing sent with
  | case1 fromChunk h ih =>
    rw [backfillChunks, if_pos h.1, chunks, if_pos h, List.foldlM_cons, backfillVisit]
    dsimp only
    cases p.getLogsBisect (backfillFilter f) fromChunk (min (fromChunk + backfillChunk - 1) head) with
    | error e => rfl
    | ok logs =>
      cases hRunning : (replayLogs f d accepts cursor logs sent).2 with
      | true =>
        simp only [hRunning, if_true]
        exact ih _
      | false =>
        simp only [hRunning, Bool.false_eq_true, if_false]
        rfl
  | case2 fromChunk h =>
    have hPast : ¬fromChunk ≤ head := by
      intro hLe
      exact h ⟨hLe, by decide⟩
    rw [backfillChunks, if_neg hPast, chunks, if_neg h]
    rfl

end Backfill

section Scan

variable (events : CreationEvents) (dex : DexConfig) (cfg : DiscoveryConfig) (p : LogProvider) (topic : B256)
  (head : U64)

/-- The turn of the factory scan on one chunk and one reading of the clock. -/
def scanVisit (s : ScanState × Option DexCache) (turn : (Nat × Nat) × Bool) :
    Except (Outcome ScanState DexCache) (ScanState × Option DexCache) :=
  let last := BitVec.ofNat 64 turn.1.2
  match p.getLogsBisect (scanFilter dex topic) turn.1.1 turn.1.2 with
  | .error _ => .error (.stopped s.2)
  | .ok logs =>
    match logs.mapM (decodePoolLog events dex) with
    | none => .error (.stopped s.2)
    | some found =>
      let t : ScanState := ⟨last + 1#64, ⟨last, s.1.cache.pools ++ found.reduceOption⟩⟩
      .ok (t, (scanLoop events dex cfg p topic head).next turn.2 t s.2)

/-- A scan that outlasts the clock is interrupted. -/
def scanEnd (left : Bool) :
    Except (Outcome ScanState DexCache) (ScanState × Option DexCache) → Outcome ScanState DexCache
  | .error out => out
  | .ok (s, disk) => if left then .stopped disk else .done s disk

end Scan

section Visits

variable {events : CreationEvents} {dex : DexConfig} {cfg : DiscoveryConfig} {p : LogProvider} {topic : B256}
  {head : U64}

theorem chunkEnd_toNat (hChunk : cfg.getlogsChunk ≠ 0#64) (hSum : head.toNat + cfg.getlogsChunk.toNat < 2 ^ 64)
    {start : U64} (hStart : start ≤ head) :
    (chunkEnd cfg head start).toNat = min (start.toNat + cfg.getlogsChunk.toNat - 1) head.toNat := by
  unfold chunkEnd
  split
  · bv_omega
  · bv_omega

theorem scanChunk_start {s t : ScanState} (hStep : scanChunk events dex cfg p topic head s = some t) :
    t.start = chunkEnd cfg head s.start + 1#64 := by
  unfold scanChunk at hStep
  dsimp only at hStep
  split at hStep
  · cases hStep
  · obtain ⟨found, -, h⟩ := Option.bind_eq_some_iff.mp hStep
    cases h
    rfl

theorem scanVisit_chunk (s : ScanState) (disk : Option DexCache) (clock : Bool) :
    scanVisit events dex cfg p topic head (s, disk) ((s.start.toNat, (chunkEnd cfg head s.start).toNat), clock) =
      match scanChunk events dex cfg p topic head s with
      | none => .error (.stopped disk)
      | some t => .ok (t, (scanLoop events dex cfg p topic head).next clock t disk) := by
  unfold scanVisit scanChunk
  dsimp only
  rw [BitVec.ofNat_toNat, BitVec.setWidth_eq]
  cases p.getLogsBisect (scanFilter dex topic) s.start.toNat (chunkEnd cfg head s.start).toNat with
  | error e => rfl
  | ok logs =>
    cases hFound : logs.mapM (decodePoolLog events dex) with
    | none => simp only [hFound]; rfl
    | some found => simp only [hFound]; rfl

/-- The scan takes the chunks of its range in order, one with each reading of the clock,
until one stops it. -/
theorem scanLoop_visits (hChunk : cfg.getlogsChunk ≠ 0#64)
    (hSum : head.toNat + cfg.getlogsChunk.toNat < 2 ^ 64) (clocks : List Bool) (s : ScanState)
    (disk : Option DexCache) :
    (scanLoop events dex cfg p topic head).run clocks s disk =
      scanEnd (decide (clocks.length < (chunks cfg.getlogsChunk.toNat s.start.toNat head.toNat).length))
        (((chunks cfg.getlogsChunk.toNat s.start.toNat head.toNat).zip clocks).foldlM
          (scanVisit events dex cfg p topic head) (s, disk)) := by
  have hPos : 0 < cfg.getlogsChunk.toNat := by bv_omega
  induction clocks generalizing s disk with
  | nil =>
    rw [List.zip_nil_right, List.length_nil]
    by_cases hGoing : s.start ≤ head
    · have hSome : 0 < (chunks cfg.getlogsChunk.toNat s.start.toNat head.toNat).length := by
        rw [chunks, if_pos ⟨hGoing, hPos⟩]
        exact Nat.zero_lt_succ _
      rw [decide_eq_true hSome]
      exact if_pos (decide_eq_true hGoing)
    · have hNone : chunks cfg.getlogsChunk.toNat s.start.toNat head.toNat = [] := by
        rw [chunks, if_neg fun h => hGoing h.1]
      rw [hNone]
      exact if_neg (by simpa [scanLoop] using hGoing)
  | cons clock rest ih =>
    rw [Loop.run]
    by_cases hGoing : s.start ≤ head
    · have hEnd := chunkEnd_toNat hChunk hSum hGoing
      have hNext : (chunkEnd cfg head s.start + 1#64).toNat =
          min (s.start.toNat + cfg.getlogsChunk.toNat - 1) head.toNat + 1 := by
        bv_omega
      have hTurn : (scanLoop events dex cfg p topic head).going s = true := decide_eq_true hGoing
      have hStep : (scanLoop events dex cfg p topic head).step s = scanChunk events dex cfg p topic head s := rfl
      rw [if_pos hTurn, hStep, chunks, if_pos ⟨hGoing, hPos⟩, ← hNext, ← hEnd, List.zip_cons_cons,
        List.foldlM_cons, scanVisit_chunk]
      cases hChunked : scanChunk events dex cfg p topic head s with
      | none => rfl
      | some t =>
        have hStart : t.start = chunkEnd cfg head s.start + 1#64 := scanChunk_start hChunked
        simp only [List.length_cons, Nat.succ_lt_succ_iff, ← hStart]
        exact ih t _
    · have hNone : chunks cfg.getlogsChunk.toNat s.start.toNat head.toNat = [] := by
        rw [chunks, if_neg fun h => hGoing h.1]
      rw [hNone]
      exact if_neg (by simpa [scanLoop] using hGoing)

end Visits

section Covered

variable {p : LogProvider} {first last : U64}

/-- For every range, bisection has exactly the logs of the range, or a block of it is lost
to every query around it; no bound it computes leaves the range. The backfill and the
factory scan take chunks that have every block of their range once and in order. -/
theorem chunked_fetch_covers_once (hSorted : p.mined.Pairwise fun a b => logBlock a ≤ logBlock b)
    (hRange : first ≤ last) :
    (∀ r, Bisects (first.toNat, last.toNat) r → first.toNat ≤ r.1 ∧ r.1 ≤ r.2 ∧ r.2 ≤ last.toNat) ∧
    (∀ flt : LogFilter,
      (∀ logs, p.getLogsBisect flt first.toNat last.toNat = .ok logs →
        logs = p.rangeLogs flt first.toNat last.toNat) ∧
      (p.getLogsBisect flt first.toNat last.toNat = .error () ↔
        ∃ block, first.toNat ≤ block ∧ block ≤ last.toNat ∧ p.Lost (first.toNat, last.toNat) block)) ∧
    (∀ (f : FilterSet) (d : LogDecoders) (accepts : List IngestEvent → Bool) (cursor : Cursor)
      (sent : List IngestEvent), last.toNat + backfillChunk < 2 ^ 64 →
      ∃ visits : List (Nat × Nat), visits.flatMap span = span (first.toNat, last.toNat) ∧
        (∀ r ∈ visits, r.1 + backfillChunk < 2 ^ 64 ∧ r.2 + 1 < 2 ^ 64) ∧
        backfillChunks p f d accepts cursor last.toNat first.toNat sent =
          backfillEnd last.toNat (visits.foldlM (backfillVisit p f d accepts cursor last.toNat) sent)) ∧
    (∀ (events : CreationEvents) (dex : DexConfig) (cfg : DiscoveryConfig) (topic : B256) (cache : DexCache)
      (disk : Option DexCache) (clocks : List Bool), cfg.getlogsChunk ≠ 0#64 →
      last.toNat + cfg.getlogsChunk.toNat < 2 ^ 64 →
      ∃ visits : List (Nat × Nat), visits.flatMap span = span (first.toNat, last.toNat) ∧
        visits.length ≤ last.toNat + 1 - first.toNat ∧
        (scanLoop events dex cfg p topic last).run clocks ⟨first, cache⟩ disk =
          scanEnd (decide (clocks.length < visits.length))
            ((visits.zip clocks).foldlM (scanVisit events dex cfg p topic last) (⟨first, cache⟩, disk))) := by
  refine ⟨?_, ?_, ?_, ?_⟩
  · intro r hBisects
    exact hBisects.within hRange
  · intro flt
    obtain ⟨hOk, hNone⟩ | ⟨hError, hSome⟩ := LogProvider.getLogsBisect_eq flt hSorted hRange
    · constructor
      · intro logs hLogs
        rw [hOk] at hLogs
        exact (Except.ok.inj hLogs).symm
      · rw [hOk]
        exact iff_of_false nofun hNone
    · constructor
      · intro logs hLogs
        rw [hError] at hLogs
        cases hLogs
      · exact iff_of_true hError hSome
  · intro f d accepts cursor sent hSum
    refine ⟨chunks backfillChunk first.toNat last.toNat, chunks_cover (by decide) _ _, ?_,
      backfillChunks_visits p f d accepts cursor _ _ sent⟩
    intro r hMem
    have hIn := chunks_within hMem
    unfold backfillChunk at hSum ⊢
    omega
  · intro events dex cfg topic cache disk clocks hChunk hSum
    have hPos : 0 < cfg.getlogsChunk.toNat := by bv_omega
    exact ⟨chunks cfg.getlogsChunk.toNat first.toNat last.toNat, chunks_cover hPos _ _, chunks_length_le _ _ _,
      scanLoop_visits hChunk hSum clocks ⟨first, cache⟩ disk⟩

def creationLog (block pair : Nat) : Log := ⟨5#160, [7#256, BitVec.ofNat 256 pair], [], some block, some 0⟩

/-- The node answers for single blocks only, and the scan takes one block at a time. In each
of two blocks a pair is created, and in the second another contract logs. -/
def singleBlocks : LogProvider :=
  ⟨[creationLog 1 11, ⟨6#160, [7#256], [], some 2, some 0⟩, creationLog 2 12], fun first last _ => decide (first < last)⟩

theorem singleBlocks_covered :
    singleBlocks.getLogsBisect ⟨[5#160], [7#256]⟩ 1 2 = .ok [creationLog 1 11, creationLog 2 12] ∧
    ∃ visits : List (Nat × Nat), visits.flatMap span = [1, 2] ∧ visits.length ≤ 2 ∧
      (scanLoop pairEvents pairFactory ⟨1#64, 0#64⟩ singleBlocks 7#256 2#64).run [false, true] ⟨1#64, ⟨0#64, []⟩⟩ none =
        scanEnd (decide (2 < visits.length)) ((visits.zip [false, true]).foldlM
          (scanVisit pairEvents pairFactory ⟨1#64, 0#64⟩ singleBlocks 7#256 2#64) (⟨1#64, ⟨0#64, []⟩⟩, none)) := by
  have hSorted : singleBlocks.mined.Pairwise fun a b => logBlock a ≤ logBlock b := by decide
  have hRange : (1#64 : U64) ≤ 2#64 := by decide
  obtain ⟨-, hBisect, -, hScan⟩ := chunked_fetch_covers_once hSorted hRange
  constructor
  · obtain ⟨hLogs, hError⟩ := hBisect ⟨[5#160], [7#256]⟩
    cases hFetch : singleBlocks.getLogsBisect ⟨[5#160], [7#256]⟩ 1 2 with
    | ok logs =>
      rw [hLogs logs hFetch]
      decide
    | error =>
      obtain ⟨block, hLow, hHigh, hLost⟩ := hError.mp hFetch
      have hCases : block = 1 ∨ block = 2 := by
        simp only [BitVec.toNat_ofNat] at hLow hHigh
        omega
      rcases hCases with rfl | rfl
      · exact absurd (hLost (1, 1) (.left (by decide) (.whole _)) (by decide) (by decide) 0 (by decide)) (by decide)
      · exact absurd (hLost (2, 2) (.right (by decide) (.whole _)) (by decide) (by decide) 0 (by decide)) (by decide)
  · exact hScan pairEvents pairFactory ⟨1#64, 0#64⟩ 7#256 ⟨0#64, []⟩ none [false, true] (by decide) (by decide)

end Covered

end Robinarb
