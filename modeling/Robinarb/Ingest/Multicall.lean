import Robinarb.Library.ChunkedQuery
import Robinarb.Library.ListFilters
import Robinarb.Ingest.RpcBackend

/-! # Multicalls, and chunked and bisected log queries

`eth_getLogs` over the mined logs, with retries, and the bisection of a range
whose query keeps failing. Block numbers are natural numbers. A multicall is asked
in batches, and what one contract call of it answers is a parameter.
-/

namespace Robinarb

open ListFilters

/-- Both fields with an empty list match every log. -/
structure LogFilter where
  addresses : List Address
  topics : List B256

def LogFilter.selects (flt : LogFilter) (log : Log) : Bool :=
  matchesAddress flt.addresses log && matchesTopics flt.topics log

def logBlock (log : Log) : Nat := (logPosition log).1

/-- A provider: the mined logs in chain order, and which attempts of a range fail. -/
structure LogProvider where
  mined : List Log
  fails : Nat → Nat → Nat → Bool

namespace LogProvider

def rangeLogs (p : LogProvider) (flt : LogFilter) (fromBlock toBlock : Nat) : List Log :=
  (p.mined.filter (inRange logBlock fromBlock toBlock)).filter flt.selects

def retryGetLogs (p : LogProvider) (flt : LogFilter) (fromBlock toBlock : Nat) : Except Unit (List Log) :=
  if (List.range 3).all (p.fails fromBlock toBlock) then .error () else .ok (p.rangeLogs flt fromBlock toBlock)

def getLogsBisect (p : LogProvider) (flt : LogFilter) (fromBlock toBlock : Nat) : Except Unit (List Log) :=
  match p.retryGetLogs flt fromBlock toBlock with
  | .ok logs => .ok logs
  | .error e =>
    if toBlock ≤ fromBlock then .error e
    else
      let mid := fromBlock + (toBlock - fromBlock) / 2
      match getLogsBisect p flt fromBlock mid with
      | .error e => .error e
      | .ok left =>
        match getLogsBisect p flt (mid + 1) toBlock with
        | .error e => .error e
        | .ok right => .ok (left ++ right)
termination_by toBlock - fromBlock

/-- Every single block answers within the retries. -/
def Answers (p : LogProvider) : Prop :=
  ∀ block, ∃ attempt < 3, p.fails block block attempt = false

theorem retryGetLogs_cases (p : LogProvider) (flt : LogFilter) (fromBlock toBlock : Nat) :
    p.retryGetLogs flt fromBlock toBlock = .ok (p.rangeLogs flt fromBlock toBlock) ∨
      p.retryGetLogs flt fromBlock toBlock = .error () ∧ ∀ attempt < 3, p.fails fromBlock toBlock attempt = true := by
  unfold retryGetLogs
  split
  · rename_i hAll
    exact .inr ⟨rfl, by simpa using hAll⟩
  · exact .inl rfl

/-- Bisection or not, what comes back was mined and selected. -/
theorem mem_of_getLogsBisect {p : LogProvider} {flt : LogFilter} {fromBlock toBlock : Nat} {logs : List Log}
    (h : p.getLogsBisect flt fromBlock toBlock = .ok logs) {log : Log} (hMem : log ∈ logs) :
    log ∈ p.mined ∧ flt.selects log = true := by
  have hRange : ∀ first last, log ∈ p.rangeLogs flt first last → log ∈ p.mined ∧ flt.selects log = true := by
    intro first last hMem
    obtain ⟨hMem, hSelects⟩ := List.mem_filter.mp hMem
    exact ⟨List.mem_of_mem_filter hMem, hSelects⟩
  fun_induction getLogsBisect p flt fromBlock toBlock generalizing logs with
  | case1 fromBlock toBlock found hOk =>
    cases h
    obtain hFound | ⟨hError, -⟩ := p.retryGetLogs_cases flt fromBlock toBlock
    · cases hFound.symm.trans hOk
      exact hRange _ _ hMem
    · cases hError.symm.trans hOk
  | case2 => cases h
  | case3 => cases h
  | case4 => cases h
  | case5 fromBlock toBlock _ _ _ mid left hLeft right hRight ihLeft =>
    rename_i ihRight
    cases h
    obtain hMem | hMem := List.mem_append.mp hMem
    · exact ihLeft hLeft hMem
    · exact ihRight hRight hMem

/-- Bisection loses and repeats nothing, or a single block has failed every attempt. -/
theorem getLogsBisect_cases {p : LogProvider} (hSorted : p.mined.Pairwise fun a b => logBlock a ≤ logBlock b)
    (flt : LogFilter) {fromBlock toBlock : Nat} (h : fromBlock ≤ toBlock) :
    p.getLogsBisect flt fromBlock toBlock = .ok (p.rangeLogs flt fromBlock toBlock) ∨
      p.getLogsBisect flt fromBlock toBlock = .error () ∧ ¬p.Answers := by
  induction hSize : toBlock - fromBlock using Nat.strong_induction_on generalizing fromBlock toBlock with
  | _ size ih =>
    rw [getLogsBisect]
    obtain hOk | ⟨hError, hFails⟩ := p.retryGetLogs_cases flt fromBlock toBlock
    · exact .inl (by simp only [hOk])
    · simp only [hError]
      split
      · obtain rfl : fromBlock = toBlock := by omega
        refine .inr ⟨rfl, fun hAnswers => ?_⟩
        obtain ⟨attempt, hLt, hAnswer⟩ := hAnswers fromBlock
        rw [hFails attempt hLt] at hAnswer
        cases hAnswer
      · generalize hMid : fromBlock + (toBlock - fromBlock) / 2 = mid
        obtain hLeft | ⟨hLeft, hNot⟩ := ih (mid - fromBlock) (by omega) (show fromBlock ≤ mid by omega) rfl
        · obtain hRight | ⟨hRight, hNot⟩ :=
            ih (toBlock - (mid + 1)) (by omega) (show mid + 1 ≤ toBlock by omega) rfl
          · refine .inl ?_
            simp only [hLeft, hRight, rangeLogs]
            rw [← List.filter_append, filter_inRange_append hSorted (by omega) (by omega)]
          · exact .inr ⟨by simp only [hLeft, hRight], hNot⟩
        · exact .inr ⟨by simp only [hLeft], hNot⟩

end LogProvider

/-- Each batch has five attempts; `none` is a batch that fails them all. -/
def aggregate3 {ρ σ : Type} (mc : Nat → Nat → List ρ → Option (List σ)) (calls : List ρ) (batch : Nat) : Option (List σ) :=
  ChunkedQuery.queried 5 batch mc calls

end Robinarb
