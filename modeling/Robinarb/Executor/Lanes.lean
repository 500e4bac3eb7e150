import Robinarb.Library.Mailbox
import Robinarb.Library.PartialMaps
import Robinarb.Library.Runs
import Robinarb.Library.TaskList
import Robinarb.Word

/-! # Submission lanes

The fan-out of `Sender::submit` over its lanes. Each lane runs on a thread of its own:
`IsolatedSenderLane::submit` posts the bytes to the thread and waits on a oneshot, the
thread spawns a send for each job. A step is one access of one party, so a list of steps
is an interleaving.
-/

namespace Robinarb

open Mailbox Runs

abbrev TxHash := B256

inductive LaneError where
  | rejected
  | senderThreadGone
  | droppedResponse
  deriving DecidableEq

/-- What `RpcLane::submit` gives; `none` is the error of the endpoint. -/
abbrev SendAnswer := Option TxHash

/-- One lane with its thread, the jobs and the oneshots. -/
abbrev SenderLane := State (List U8) SendAnswer

/-- `IsolatedSenderLane::submit`, from what has become of its oneshot. -/
def laneResult : Outcome SendAnswer → Except LaneError TxHash
  | .answered (some hash) => .ok hash
  | .answered none => .error .rejected
  | .dropped => .error .droppedResponse
  | .gone => .error .senderThreadGone

def joinResult (found : Option TxHash) : Except LaneError TxHash → Option TxHash
  | .ok hash => some hash
  | .error _ => found

/-- The hash of the last lane that accepted. -/
def anyOk (results : List (Except LaneError TxHash)) : Option TxHash := results.foldl joinResult none

/-- One call of `submit` from its signature on: what the task of each lane has posted, and
what the join has made of the results. -/
structure LaneSubmission where
  raw : List U8
  posts : List (Option Nat)
  joined : Option (Option TxHash)
  deriving DecidableEq

structure Fanout where
  lanes : List SenderLane
  submissions : List LaneSubmission
  deriving DecidableEq

inductive FanoutStep where
  | fire (raw : List U8)
  | post (submission lane : Nat)
  | inLane (lane : Nat) (step : Step (List U8) SendAnswer)
  | join (submission : Nat)

def FanoutStep.isFire : FanoutStep → Bool
  | .fire _ => true
  | _ => false

def LaneSubmission.work (submission : LaneSubmission) : Nat :=
  5 * submission.posts.countP Option.isNone + if submission.joined = none then 1 else 0

namespace Fanout

def start (lanes : Nat) : Fanout := ⟨List.replicate lanes .start, []⟩

def callerOf (lanes : List SenderLane) (l k : Nat) : Option (Caller (List U8) SendAnswer) :=
  lanes[l]?.bind fun lane => lane.callers[k]?

/-- What the task of a lane returns, once it does. -/
def postResult (lanes : List SenderLane) (post : Option Nat × Nat) : Option (Except LaneError TxHash) := do
  let caller ← callerOf lanes post.2 (← post.1)
  return laneResult (← caller.outcome)

def results (s : Fanout) (submission : LaneSubmission) : Option (List (Except LaneError TxHash)) :=
  submission.posts.zipIdx.mapM (postResult s.lanes)

def step (s : Fanout) : FanoutStep → Option Fanout
  | .fire raw => some { s with submissions := s.submissions ++ [⟨raw, List.replicate s.lanes.length none, none⟩] }
  | .post i l => do
    let submission ← s.submissions[i]?
    let lane ← s.lanes[l]?
    if submission.posts[l]? = some none then
      let posted ← lane.step (.submit submission.raw)
      return {
        lanes := s.lanes.set l posted
        submissions := s.submissions.set i { submission with posts := submission.posts.set l (some lane.callers.length) } }
    else none
  | .inLane l label => do
    let lane ← s.lanes[l]?
    if label.isSubmit then none
    else
      let moved ← lane.step label
      return { s with lanes := s.lanes.set l moved }
  | .join i => do
    let submission ← s.submissions[i]?
    if submission.joined = none then
      let results ← s.results submission
      return { s with submissions := s.submissions.set i { submission with joined := some (anyOk results) } }
    else none

end Fanout

namespace Fanout

section Steps

variable {s t : Fanout} {label : FanoutStep} {lanes : List SenderLane} {l k : Nat} {lane lane' : SenderLane}
  {c : Caller (List U8) SendAnswer} {submission : LaneSubmission}

theorem callerOf_eq_some : callerOf lanes l k = some c ↔ ∃ lane, lanes[l]? = some lane ∧ lane.callers[k]? = some c :=
  Option.bind_eq_some_iff

theorem callerOf_of_lane (hLane : lanes[l]? = some lane) : callerOf lanes l k = lane.callers[k]? := by
  rw [callerOf, hLane, Option.bind_some]

theorem callerOf_set (hLane : lanes[l]? = some lane) : callerOf (lanes.set l lane') l k = lane'.callers[k]? :=
  callerOf_of_lane (List.getElem?_set_self (List.getElem?_eq_some_iff.mp hLane).1)

theorem callerOf_set_ne {m : Nat} (h : l ≠ m) : callerOf (lanes.set l lane') m k = callerOf lanes m k := by
  rw [callerOf, List.getElem?_set_ne h, callerOf]

/-- Lanes later on: the callers are still there, with the outcomes they had. -/
def Extends (lanes later : List SenderLane) : Prop :=
  ∀ l k c, callerOf lanes l k = some c → ∃ c', callerOf later l k = some c' ∧ c'.request = c.request ∧
    ∀ o, c.outcome = some o → c'.outcome = some o

theorem extends_set {step : Step (List U8) SendAnswer} (hLane : lanes[l]? = some lane) (hStep : lane.step step = some lane') :
    Extends lanes (lanes.set l lane') := by
  intro m k c hc
  by_cases hSame : l = m
  · subst hSame
    rw [callerOf_of_lane hLane] at hc
    rw [callerOf_set hLane]
    exact caller_kept hStep hc
  · rw [callerOf_set_ne hSame]
    exact ⟨c, hc, rfl, fun _ => id⟩

/-- What the lanes and the submissions keep: each post is of its submission, and each
request of a lane is the post of one submission. -/
structure Fanned (s : Fanout) : Prop where
  sound : ∀ lane ∈ s.lanes, Sound lane
  posted : ∀ (i l k : Nat) (submission : LaneSubmission), s.submissions[i]? = some submission → submission.posts[l]? = some (some k) →
    ∃ c, callerOf s.lanes l k = some c ∧ c.request = submission.raw
  apart : ∀ (i j l k : Nat) (submission other : LaneSubmission), s.submissions[i]? = some submission → s.submissions[j]? = some other →
    submission.posts[l]? = some (some k) → other.posts[l]? = some (some k) → i = j
  covered : ∀ l k c, callerOf s.lanes l k = some c →
    ∃ (i : Nat) (submission : LaneSubmission), s.submissions[i]? = some submission ∧ submission.posts[l]? = some (some k)
  joined : ∀ (i : Nat) (submission : LaneSubmission) found, s.submissions[i]? = some submission → submission.joined = some found →
    ∃ results, s.results submission = some results ∧ found = anyOk results

theorem results_kept {results : List (Except LaneError TxHash)} (hExtends : Extends s.lanes t.lanes)
    (h : s.results submission = some results) : t.results submission = some results := by
  refine PartialMaps.mapM_of_forall h fun post _ result hResult => ?_
  obtain ⟨k, hk, hRest⟩ := Option.bind_eq_some_iff.mp hResult
  obtain ⟨c, hc, hRest⟩ := Option.bind_eq_some_iff.mp hRest
  obtain ⟨o, ho, hEnd⟩ := Option.bind_eq_some_iff.mp hRest
  obtain ⟨c', hc', -, hKept⟩ := hExtends _ k c hc
  refine Option.bind_eq_some_iff.mpr ⟨k, hk, ?_⟩
  refine Option.bind_eq_some_iff.mpr ⟨c', hc', ?_⟩
  exact Option.bind_eq_some_iff.mpr ⟨o, hKept o ho, hEnd⟩

theorem results_at {results : List (Except LaneError TxHash)} {post : Option Nat} (h : s.results submission = some results)
    (hPost : submission.posts[l]? = some post) : ∃ result, results[l]? = some result ∧ postResult s.lanes (post, l) = some result := by
  have hAt := PartialMaps.getElem?_of_mapM h l
  have hLt := (List.getElem?_eq_some_iff.mp hPost).1
  have hLength := PartialMaps.length_of_mapM h
  rw [List.length_zipIdx] at hLength
  rw [List.getElem?_zipIdx, hPost, Option.map_some, Option.bind_some, Nat.zero_add] at hAt
  refine ⟨_, List.getElem?_eq_getElem (hLength ▸ hLt), ?_⟩
  rw [← hAt, List.getElem?_eq_getElem]

theorem Fanned.posted_later (h : Fanned s) (hExtends : Extends s.lanes t.lanes) {i : Nat}
    (hSubmission : s.submissions[i]? = some submission) (hPost : submission.posts[l]? = some (some k)) :
    ∃ c, callerOf t.lanes l k = some c ∧ c.request = submission.raw := by
  obtain ⟨c, hc, hRequest⟩ := h.posted i l k submission hSubmission hPost
  obtain ⟨c', hc', hKept, -⟩ := hExtends l k c hc
  exact ⟨c', hc', hKept.trans hRequest⟩

theorem fanned_start (lanes : Nat) : Fanned (start lanes) where
  sound lane hLane := by
    rw [List.eq_of_mem_replicate hLane]
    exact sound_start
  posted := nofun
  apart := nofun
  covered l k c hc := by
    obtain ⟨lane, hLane, hk⟩ := callerOf_eq_some.mp hc
    rw [List.eq_of_mem_replicate (List.mem_of_getElem? hLane)] at hk
    cases hk
  joined := nofun

theorem Fanned.inLane (h : Fanned s) {step : Step (List U8) SendAnswer} (hLane : s.lanes[l]? = some lane)
    (hOld : step.isSubmit = false) (hStep : lane.step step = some lane') : Fanned { s with lanes := s.lanes.set l lane' } := by
  have hExtends := extends_set hLane hStep
  refine ⟨fun other hOther => ?_, fun i m k submission hi hPost =>
    h.posted_later (t := { s with lanes := s.lanes.set l lane' }) hExtends hi hPost, h.apart,
    fun m k c hc => ?_, fun i submission found hi hJoined => ?_⟩
  · obtain hBefore | rfl := List.mem_or_eq_of_mem_set hOther
    · exact h.sound other hBefore
    · exact (h.sound lane (List.mem_of_getElem? hLane)).step hStep
  · by_cases hSame : l = m
    · subst hSame
      rw [callerOf_set hLane] at hc
      have hLt : k < lane.callers.length := callers_length hStep hOld ▸ (List.getElem?_eq_some_iff.mp hc).1
      exact h.covered l k _ ((callerOf_of_lane hLane).trans (List.getElem?_eq_getElem hLt))
    · rw [callerOf_set_ne hSame] at hc
      exact h.covered m k c hc
  · obtain ⟨results, hResults, hFound⟩ := h.joined i submission found hi hJoined
    exact ⟨results, results_kept (t := { s with lanes := s.lanes.set l lane' }) hExtends hResults, hFound⟩

theorem Fanned.fire (h : Fanned s) (raw : List U8) :
    Fanned { s with submissions := s.submissions ++ [⟨raw, List.replicate s.lanes.length none, none⟩] } := by
  have hCases : ∀ {i : Nat} {submission : LaneSubmission},
      (s.submissions ++ [⟨raw, List.replicate s.lanes.length none, none⟩])[i]? = some submission →
      s.submissions[i]? = some submission ∨ submission.joined = none ∧ ∀ l k : Nat, submission.posts[l]? ≠ some (some k) := by
    intro i submission hi
    rw [List.getElem?_append] at hi
    split at hi
    · exact .inl hi
    · obtain rfl := List.mem_singleton.mp (List.mem_of_getElem? hi)
      exact .inr ⟨rfl, fun l k hPost => nomatch List.eq_of_mem_replicate (List.mem_of_getElem? hPost)⟩
  have hPosted : ∀ {i l k : Nat} {submission : LaneSubmission},
      (s.submissions ++ [⟨raw, List.replicate s.lanes.length none, none⟩])[i]? = some submission →
      submission.posts[l]? = some (some k) → s.submissions[i]? = some submission :=
    fun hi hPost => (hCases hi).resolve_right fun hNew => hNew.2 _ _ hPost
  refine ⟨h.sound, fun i l k submission hi hPost => h.posted i l k submission (hPosted hi hPost) hPost,
    fun i j l k submission other hi hj hPost hOther =>
      h.apart i j l k submission other (hPosted hi hPost) (hPosted hj hOther) hPost hOther, fun l k c hc => ?_,
    fun i submission found hi hJoined => ?_⟩
  · obtain ⟨i, submission, hi, hPost⟩ := h.covered l k c hc
    refine ⟨i, submission, ?_, hPost⟩
    rw [List.getElem?_append_left (List.getElem?_eq_some_iff.mp hi).1]
    exact hi
  · obtain hOld | ⟨hOpen, -⟩ := hCases hi
    · exact h.joined i submission found hOld hJoined
    · cases hOpen.symm.trans hJoined

theorem Fanned.join (h : Fanned s) {i : Nat} {results : List (Except LaneError TxHash)}
    (hSubmission : s.submissions[i]? = some submission) (hResults : s.results submission = some results) :
    Fanned { s with submissions := s.submissions.set i { submission with joined := some (anyOk results) } } := by
  -- a submission that is joined posts what it did
  have hCases : ∀ {j : Nat} {other : LaneSubmission},
      (s.submissions.set i { submission with joined := some (anyOk results) })[j]? = some other →
      ∃ before : LaneSubmission, s.submissions[j]? = some before ∧ other.posts = before.posts ∧ other.raw = before.raw ∧
        (other.joined = before.joined ∨ before = submission ∧ other.joined = some (anyOk results)) := by
    intro j other hj
    by_cases hSame : i = j
    · subst hSame
      rw [List.getElem?_set_self (List.getElem?_eq_some_iff.mp hSubmission).1] at hj
      cases hj
      exact ⟨submission, hSubmission, rfl, rfl, .inr ⟨rfl, rfl⟩⟩
    · rw [List.getElem?_set_ne hSame] at hj
      exact ⟨other, hj, rfl, rfl, .inl rfl⟩
  refine ⟨h.sound, fun j l k other hj hPost => ?_, fun j m l k other another hj hm hPost hAnother => ?_, fun l k c hc => ?_,
    fun j other found hj hJoined => ?_⟩
  · obtain ⟨before, hBefore, hPosts, hRaw, -⟩ := hCases hj
    rw [hRaw]
    exact h.posted j l k before hBefore (hPosts ▸ hPost)
  · obtain ⟨before, hBefore, hPosts, -, -⟩ := hCases hj
    obtain ⟨second, hSecond, hSecondPosts, -, -⟩ := hCases hm
    exact h.apart j m l k before second hBefore hSecond (hPosts ▸ hPost) (hSecondPosts ▸ hAnother)
  · obtain ⟨j, before, hj, hPost⟩ := h.covered l k c hc
    by_cases hSame : i = j
    · subst hSame
      obtain rfl := Option.some.inj (hSubmission.symm.trans hj)
      exact ⟨i, _, List.getElem?_set_self (List.getElem?_eq_some_iff.mp hj).1, hPost⟩
    · refine ⟨j, before, ?_, hPost⟩
      rw [List.getElem?_set_ne hSame]
      exact hj
  · obtain ⟨before, hBefore, hPosts, -, hJoin⟩ := hCases hj
    have hSameResults : ∀ found, Fanout.results s before = some found →
        Fanout.results { s with submissions := s.submissions.set i { submission with joined := some (anyOk results) } } other =
          some found := by
      intro found hFound
      rw [Fanout.results, hPosts]
      exact hFound
    obtain hSame | ⟨rfl, hNow⟩ := hJoin
    · obtain ⟨found', hFound', hEq⟩ := h.joined j before found hBefore (hSame ▸ hJoined)
      exact ⟨found', hSameResults found' hFound', hEq⟩
    · rw [hNow] at hJoined
      exact ⟨results, hSameResults results hResults, (Option.some.inj hJoined).symm⟩

theorem Fanned.post (h : Fanned s) {i : Nat} (hSubmission : s.submissions[i]? = some submission)
    (hLane : s.lanes[l]? = some lane) (hOpen : submission.posts[l]? = some none)
    (hStep : lane.step (.submit submission.raw) = some lane') : Fanned {
      lanes := s.lanes.set l lane'
      submissions := s.submissions.set i { submission with posts := submission.posts.set l (some lane.callers.length) } } := by
  have hExtends := extends_set hLane hStep
  obtain ⟨c, hCallers, hRequest⟩ := submit_callers hStep
  have hLt := (List.getElem?_eq_some_iff.mp hOpen).1
  have hCases : ∀ {j : Nat} {other : LaneSubmission},
      (s.submissions.set i { submission with posts := submission.posts.set l (some lane.callers.length) })[j]? = some other →
      ∃ before : LaneSubmission, s.submissions[j]? = some before ∧ other.raw = before.raw ∧ other.joined = before.joined ∧
        (other.posts = before.posts ∨ j = i ∧ before = submission ∧ other.posts = submission.posts.set l (some lane.callers.length)) := by
    intro j other hj
    by_cases hSame : i = j
    · subst hSame
      rw [List.getElem?_set_self (List.getElem?_eq_some_iff.mp hSubmission).1] at hj
      cases hj
      exact ⟨submission, hSubmission, rfl, rfl, .inr ⟨rfl, rfl, rfl⟩⟩
    · rw [List.getElem?_set_ne hSame] at hj
      exact ⟨other, hj, rfl, rfl, .inl rfl⟩
  have hPosts : ∀ {j m k : Nat} {other : LaneSubmission},
      (s.submissions.set i { submission with posts := submission.posts.set l (some lane.callers.length) })[j]? = some other →
      other.posts[m]? = some (some k) → ∃ before : LaneSubmission, s.submissions[j]? = some before ∧ other.raw = before.raw ∧
        (before.posts[m]? = some (some k) ∨ j = i ∧ before = submission ∧ m = l ∧ k = lane.callers.length) := by
    intro j m k other hj hPost
    obtain ⟨before, hBefore, hRaw, -, hSame | ⟨rfl, rfl, hSet⟩⟩ := hCases hj
    · exact ⟨before, hBefore, hRaw, .inl (hSame ▸ hPost)⟩
    · refine ⟨before, hBefore, hRaw, ?_⟩
      rw [hSet, List.getElem?_set] at hPost
      split at hPost
      · rename_i hHere
        exact .inr ⟨rfl, rfl, hHere.symm, (Option.some.inj (Option.some.inj hPost)).symm⟩
      · exact .inl hPost
  have hOld : ∀ {j k : Nat} {before : LaneSubmission}, s.submissions[j]? = some before → before.posts[l]? = some (some k) →
      k < lane.callers.length := by
    intro j k before hBefore hPost
    obtain ⟨d, hd, -⟩ := h.posted j l k before hBefore hPost
    rw [callerOf_of_lane hLane] at hd
    exact (List.getElem?_eq_some_iff.mp hd).1
  refine ⟨fun other hOther => ?_, fun j m k other hj hPost => ?_, fun j j' m k other another hj hj' hPost hAnother => ?_,
    fun m k d hd => ?_, fun j other found hj hJoined => ?_⟩
  · obtain hBefore | rfl := List.mem_or_eq_of_mem_set hOther
    · exact h.sound other hBefore
    · exact (h.sound lane (List.mem_of_getElem? hLane)).step hStep
  · obtain ⟨before, hBefore, hRaw, hKept | ⟨rfl, rfl, rfl, rfl⟩⟩ := hPosts hj hPost
    · obtain ⟨d, hd, hOwn⟩ := h.posted j m k before hBefore hKept
      obtain ⟨d', hd', hSame, -⟩ := hExtends m k d hd
      exact ⟨d', hd', hSame.trans (hOwn.trans hRaw.symm)⟩
    · refine ⟨c, ?_, hRequest.trans hRaw.symm⟩
      rw [callerOf_set hLane, hCallers, List.getElem?_concat_length]
  · obtain ⟨before, hBefore, -, hKept | ⟨rfl, -, rfl, rfl⟩⟩ := hPosts hj hPost
    · obtain ⟨second, hSecond, -, hSecondKept | ⟨rfl, -, rfl, rfl⟩⟩ := hPosts hj' hAnother
      · exact h.apart j j' m k before second hBefore hSecond hKept hSecondKept
      · exact absurd (hOld hBefore hKept) (Nat.lt_irrefl _)
    · obtain ⟨second, hSecond, -, hSecondKept | ⟨hi, -⟩⟩ := hPosts hj' hAnother
      · exact absurd (hOld hSecond hSecondKept) (Nat.lt_irrefl _)
      · exact hi.symm
  · have hLater : ∀ {j : Nat} {before : LaneSubmission}, s.submissions[j]? = some before → before.posts[m]? = some (some k) →
        ∃ (j : Nat) (other : LaneSubmission),
          (s.submissions.set i { submission with posts := submission.posts.set l (some lane.callers.length) })[j]? = some other ∧
            other.posts[m]? = some (some k) := by
      intro j before hBefore hPost
      by_cases hSame : i = j
      · subst hSame
        obtain rfl := Option.some.inj (hSubmission.symm.trans hBefore)
        refine ⟨i, _, List.getElem?_set_self (List.getElem?_eq_some_iff.mp hBefore).1, ?_⟩
        rw [List.getElem?_set_ne]
        · exact hPost
        · rintro rfl
          cases hOpen.symm.trans hPost
      · refine ⟨j, before, ?_, hPost⟩
        rw [List.getElem?_set_ne hSame]
        exact hBefore
    by_cases hSame : l = m
    · subst hSame
      rw [callerOf_set hLane, hCallers] at hd
      obtain hBefore | ⟨rfl, -⟩ := push_eq_some hd
      · obtain ⟨j, before, hj, hPost⟩ := h.covered l k d ((callerOf_of_lane hLane).trans hBefore)
        exact hLater hj hPost
      · refine ⟨i, _, List.getElem?_set_self (List.getElem?_eq_some_iff.mp hSubmission).1, ?_⟩
        exact List.getElem?_set_self hLt
    · rw [callerOf_set_ne hSame] at hd
      obtain ⟨j, before, hj, hPost⟩ := h.covered m k d hd
      exact hLater hj hPost
  · obtain ⟨before, hBefore, -, hJoin, hSame | ⟨rfl, rfl, -⟩⟩ := hCases hj
    · obtain ⟨results, hResults, hFound⟩ := h.joined j before found hBefore (hJoin ▸ hJoined)
      refine ⟨results, ?_, hFound⟩
      have hLaterResults := results_kept (t := ⟨s.lanes.set l lane', s.submissions⟩) hExtends hResults
      rw [Fanout.results, ← hSame] at hLaterResults
      exact hLaterResults
    · -- what is joined has posted everywhere
      obtain ⟨results, hResults, -⟩ := h.joined j before found hBefore (hJoin ▸ hJoined)
      obtain ⟨result, -, hNone⟩ := results_at hResults hOpen
      cases hNone

theorem Fanned.step (h : Fanned s) (hStep : s.step label = some t) : Fanned t := by
  cases label with
  | fire raw =>
    cases hStep
    exact h.fire raw
  | post i l =>
    obtain ⟨submission, hSubmission, hRest⟩ := Option.bind_eq_some_iff.mp hStep
    obtain ⟨lane, hLane, hRest⟩ := Option.bind_eq_some_iff.mp hRest
    obtain ⟨hOpen, hRest⟩ := Option.ite_none_right_eq_some.mp hRest
    obtain ⟨lane', hPosted, hEnd⟩ := Option.bind_eq_some_iff.mp hRest
    cases hEnd
    exact h.post hSubmission hLane hOpen hPosted
  | inLane l step =>
    obtain ⟨lane, hLane, hRest⟩ := Option.bind_eq_some_iff.mp hStep
    obtain ⟨hOld, hRest⟩ := Option.ite_none_left_eq_some.mp hRest
    obtain ⟨lane', hMoved, hEnd⟩ := Option.bind_eq_some_iff.mp hRest
    cases hEnd
    exact h.inLane hLane (Bool.eq_false_iff.mpr hOld) hMoved
  | join i =>
    obtain ⟨submission, hSubmission, hRest⟩ := Option.bind_eq_some_iff.mp hStep
    obtain ⟨-, hRest⟩ := Option.ite_none_right_eq_some.mp hRest
    obtain ⟨results, hResults, hEnd⟩ := Option.bind_eq_some_iff.mp hRest
    cases hEnd
    exact h.join hSubmission hResults

/-- A submission has one task for each lane. -/
structure Wide (lanes : Nat) (s : Fanout) : Prop where
  width : s.lanes.length = lanes
  posts : ∀ submission ∈ s.submissions, submission.posts.length = lanes

theorem Wide.step {lanes : Nat} (h : Wide lanes s) (hStep : s.step label = some t) : Wide lanes t := by
  cases label with
  | fire raw =>
    cases hStep
    refine ⟨h.width, fun submission hMem => ?_⟩
    obtain hOld | hNew := List.mem_append.mp hMem
    · exact h.posts submission hOld
    · obtain rfl := List.mem_singleton.mp hNew
      exact List.length_replicate.trans h.width
  | post i l =>
    obtain ⟨submission, hSubmission, hRest⟩ := Option.bind_eq_some_iff.mp hStep
    obtain ⟨lane, hLane, hRest⟩ := Option.bind_eq_some_iff.mp hRest
    obtain ⟨hOpen, hRest⟩ := Option.ite_none_right_eq_some.mp hRest
    obtain ⟨lane', hPosted, hEnd⟩ := Option.bind_eq_some_iff.mp hRest
    cases hEnd
    refine ⟨List.length_set.trans h.width, fun other hMem => ?_⟩
    obtain hOld | rfl := List.mem_or_eq_of_mem_set hMem
    · exact h.posts other hOld
    · exact List.length_set.trans (h.posts submission (List.mem_of_getElem? hSubmission))
  | inLane l step =>
    obtain ⟨lane, hLane, hRest⟩ := Option.bind_eq_some_iff.mp hStep
    obtain ⟨hOld, hRest⟩ := Option.ite_none_left_eq_some.mp hRest
    obtain ⟨lane', hMoved, hEnd⟩ := Option.bind_eq_some_iff.mp hRest
    cases hEnd
    exact ⟨List.length_set.trans h.width, h.posts⟩
  | join i =>
    obtain ⟨submission, hSubmission, hRest⟩ := Option.bind_eq_some_iff.mp hStep
    obtain ⟨-, hRest⟩ := Option.ite_none_right_eq_some.mp hRest
    obtain ⟨results, hResults, hEnd⟩ := Option.bind_eq_some_iff.mp hRest
    cases hEnd
    refine ⟨h.width, fun other hMem => ?_⟩
    obtain hOld | rfl := List.mem_or_eq_of_mem_set hMem
    · exact h.posts other hOld
    · exact h.posts submission (List.mem_of_getElem? hSubmission)

end Steps

section Results

variable {s t : Fanout} {label : FanoutStep} {found : Option TxHash} {hash : TxHash} {results : List (Except LaneError TxHash)}

theorem ok_of_joined (h : results.foldl joinResult found = some hash) : .ok hash ∈ results ∨ found = some hash := by
  induction results generalizing found with
  | nil => exact .inr h
  | cons result rest ih =>
    obtain hLater | hHere := ih h
    · exact .inl (List.mem_cons_of_mem _ hLater)
    · cases result with
      | ok here =>
        obtain rfl := Option.some.inj hHere
        exact .inl List.mem_cons_self
      | error e => exact .inr hHere

theorem errors_of_joined (h : results.foldl joinResult found = none) : found = none ∧ ∀ result ∈ results, ∃ e, result = .error e := by
  induction results generalizing found with
  | nil => exact ⟨h, nofun⟩
  | cons result rest ih =>
    obtain ⟨hHere, hRest⟩ := ih h
    cases result with
    | ok hash => cases hHere
    | error e => exact ⟨hHere, List.forall_mem_cons.mpr ⟨⟨e, rfl⟩, hRest⟩⟩

/-- Why a lane does not accept a request of its `k`-th caller: the endpoint refused it, the
response was lost, or nothing of it was sent. -/
def LaneFailed (lane : SenderLane) (raw : List U8) (k : Nat) : Prop :=
  (⟨raw, k⟩, none) ∈ lane.heard ∨
    ∃ c, lane.callers[k]? = some c ∧ (c.outcome = some .dropped ∨
      c.outcome = some .gone ∧ k ∉ lane.wire.map Message.caller)

theorem Fanned.run {lanes : Nat} {labels : List FanoutStep} (hRun : Runs.run Fanout.step (start lanes) labels = some s) :
    Fanned s ∧ Wide lanes s :=
  @run_invariant _ _ _ (fun s => Fanned s ∧ Wide lanes s) (fun _ _ _ h hStep => ⟨h.1.step hStep, h.2.step hStep⟩) _ _ _ hRun
    ⟨fanned_start lanes, List.length_replicate, nofun⟩

/-- The results that are joined are those of callers with the submission's own bytes. -/
theorem Fanned.result_at (h : Fanned s) {i l : Nat} {submission : LaneSubmission} {result : Except LaneError TxHash}
    (hSubmission : s.submissions[i]? = some submission) (hResults : s.results submission = some results)
    (hResult : results[l]? = some result) : ∃ lane k c o, s.lanes[l]? = some lane ∧ submission.posts[l]? = some (some k) ∧
      lane.callers[k]? = some c ∧ c.request = submission.raw ∧ c.outcome = some o ∧ result = laneResult o := by
  have hLt := (List.getElem?_eq_some_iff.mp hResult).1
  rw [PartialMaps.length_of_mapM hResults, List.length_zipIdx] at hLt
  obtain ⟨found, hFound, hPost⟩ := results_at hResults (List.getElem?_eq_getElem hLt)
  obtain rfl := Option.some.inj (hFound.symm.trans hResult)
  obtain ⟨k, hk, hRest⟩ := Option.bind_eq_some_iff.mp hPost
  obtain ⟨c, hc, hRest⟩ := Option.bind_eq_some_iff.mp hRest
  obtain ⟨o, ho, hEnd⟩ := Option.bind_eq_some_iff.mp hRest
  have hAt : submission.posts[l]? = some (some k) := by
    rw [List.getElem?_eq_getElem hLt]
    exact congrArg some hk
  obtain ⟨c', hc', hRequest⟩ := h.posted i l k submission hSubmission hAt
  obtain rfl := Option.some.inj (hc.symm.trans hc')
  obtain ⟨lane, hLane, hCaller⟩ := callerOf_eq_some.mp hc
  exact ⟨lane, k, c, o, hLane, hAt, hCaller, hRequest, ho, (Option.some.inj hEnd).symm⟩

/-- Over every interleaving of any number of submissions with their lanes: an endpoint is
given nothing but the bytes of submissions, those of one submission once at most; a hash
that is returned was answered to the submission's own bytes; and a submission without one
has failed on every lane. -/
theorem lanes_never_cross (lanes : Nat) {labels : List FanoutStep} (hRun : run step (start lanes) labels = some s) :
    (∀ (l : Nat) (lane : SenderLane), s.lanes[l]? = some lane → (lane.wire.map Message.caller).Nodup ∧
      ∀ m ∈ lane.wire, ∃ (i : Nat) (submission : LaneSubmission), s.submissions[i]? = some submission ∧
        submission.posts[l]? = some (some m.caller) ∧ m.request = submission.raw ∧
        ∀ (j : Nat) (other : LaneSubmission), s.submissions[j]? = some other → other.posts[l]? = some (some m.caller) → j = i) ∧
    ∀ (i : Nat) (submission : LaneSubmission), s.submissions[i]? = some submission →
      (∀ hash, submission.joined = some (some hash) → ∃ (l k : Nat) (lane : SenderLane), s.lanes[l]? = some lane ∧
        submission.posts[l]? = some (some k) ∧ (⟨submission.raw, k⟩, some hash) ∈ lane.heard) ∧
      (submission.joined = some none → ∀ l < lanes, ∃ (k : Nat) (lane : SenderLane), s.lanes[l]? = some lane ∧
        submission.posts[l]? = some (some k) ∧ LaneFailed lane submission.raw k) := by
  obtain ⟨hFanned, hWide⟩ := Fanned.run hRun
  refine ⟨fun l lane hLane => ?_, fun i submission hSubmission => ⟨fun hash hJoined => ?_, fun hJoined l hl => ?_⟩⟩
  · have hSound := hFanned.sound lane (List.mem_of_getElem? hLane)
    refine ⟨hSound.wired.once, fun m hm => ?_⟩
    obtain ⟨c, hc, hRequest⟩ := hSound.wired.own m hm
    have hCaller : callerOf s.lanes l m.caller = some c := (callerOf_of_lane hLane).trans hc
    obtain ⟨i, submission, hSubmission, hPost⟩ := hFanned.covered l m.caller c hCaller
    obtain ⟨c', hc', hRaw⟩ := hFanned.posted i l m.caller submission hSubmission hPost
    obtain rfl := Option.some.inj (hCaller.symm.trans hc')
    exact ⟨i, submission, hSubmission, hPost, hRequest.symm.trans hRaw, fun j other hj hOther =>
      hFanned.apart j i l m.caller other submission hj hSubmission hOther hPost⟩
  · obtain ⟨results, hResults, hFound⟩ := hFanned.joined i submission _ hSubmission hJoined
    obtain hOk | hNone := ok_of_joined hFound.symm
    · obtain ⟨l, hResult⟩ := List.mem_iff_getElem?.mp hOk
      obtain ⟨lane, k, c, o, hLane, hPost, hc, hRaw, ho, hAnswer⟩ := hFanned.result_at hSubmission hResults hResult
      have hSound := hFanned.sound lane (List.mem_of_getElem? hLane)
      refine ⟨l, k, lane, hLane, hPost, ?_⟩
      cases o with
      | gone => cases hAnswer
      | dropped => cases hAnswer
      | answered answer =>
        cases answer with
        | none => cases hAnswer
        | some here =>
          cases hAnswer
          exact hRaw ▸ hSound.heard_of_answered hc ho
    · cases hNone
  · obtain ⟨results, hResults, hFound⟩ := hFanned.joined i submission _ hSubmission hJoined
    have hLength : results.length = lanes := by
      rw [PartialMaps.length_of_mapM hResults, List.length_zipIdx, hWide.posts submission (List.mem_of_getElem? hSubmission)]
    obtain ⟨lane, k, c, o, hLane, hPost, hc, hRaw, ho, hAnswer⟩ :=
      hFanned.result_at hSubmission hResults (List.getElem?_eq_getElem (hLength ▸ hl))
    obtain ⟨e, hError⟩ := (errors_of_joined hFound.symm).2 _ (List.getElem_mem (hLength ▸ hl))
    have hSound := hFanned.sound lane (List.mem_of_getElem? hLane)
    refine ⟨k, lane, hLane, hPost, ?_⟩
    cases o with
    | gone => exact .inr ⟨c, hc, .inr ⟨ho, hSound.unsent_of_gone hc ho⟩⟩
    | dropped => exact .inr ⟨c, hc, .inl ho⟩
    | answered answer =>
      cases answer with
      | none => exact .inl (hRaw ▸ hSound.heard_of_answered hc ho)
      | some hash => cases hAnswer.symm.trans hError

end Results

section Progress

variable {s t : Fanout} {label : FanoutStep} {submission : LaneSubmission}

/-- A bound on the steps that can follow without another submission. -/
def work (s : Fanout) : Nat := (s.lanes.map State.work).sum + (s.submissions.map LaneSubmission.work).sum

theorem step_work (hOld : label.isFire = false) (hStep : s.step label = some t) : t.work < s.work := by
  cases label with
  | fire raw => cases hOld
  | post i l =>
    obtain ⟨submission, hSubmission, hRest⟩ := Option.bind_eq_some_iff.mp hStep
    obtain ⟨lane, hLane, hRest⟩ := Option.bind_eq_some_iff.mp hRest
    obtain ⟨hOpen, hRest⟩ := Option.ite_none_right_eq_some.mp hRest
    obtain ⟨lane', hPosted, hEnd⟩ := Option.bind_eq_some_iff.mp hRest
    cases hEnd
    obtain ⟨hLt, hAt⟩ := List.getElem?_eq_some_iff.mp hOpen
    have hLanes := TaskList.sum_map_set State.work hLane lane'
    have hSubmissions := TaskList.sum_map_set LaneSubmission.work hSubmission
      { submission with posts := submission.posts.set l (some lane.callers.length) }
    have hPositive : 0 < submission.posts.countP Option.isNone :=
      List.countP_pos_iff.mpr ⟨none, List.mem_of_getElem? hOpen, rfl⟩
    have hCount : (submission.posts.set l (some lane.callers.length)).countP Option.isNone + 1 =
        submission.posts.countP Option.isNone := by
      rw [List.countP_set hLt, hAt]
      simp only [Option.isNone_none, Option.isNone_some, if_true, Bool.false_eq_true, if_false]
      omega
    have hPost := work_submit hPosted
    simp only [work, LaneSubmission.work] at hLanes hSubmissions ⊢
    omega
  | inLane l step =>
    obtain ⟨lane, hLane, hRest⟩ := Option.bind_eq_some_iff.mp hStep
    obtain ⟨hNew, hRest⟩ := Option.ite_none_left_eq_some.mp hRest
    obtain ⟨lane', hMoved, hEnd⟩ := Option.bind_eq_some_iff.mp hRest
    cases hEnd
    have hLanes := TaskList.sum_map_set State.work hLane lane'
    have hLess := work_lt hMoved (Bool.eq_false_iff.mpr hNew)
    simp only [work]
    omega
  | join i =>
    obtain ⟨submission, hSubmission, hRest⟩ := Option.bind_eq_some_iff.mp hStep
    obtain ⟨hOpen, hRest⟩ := Option.ite_none_right_eq_some.mp hRest
    obtain ⟨results, hResults, hEnd⟩ := Option.bind_eq_some_iff.mp hRest
    cases hEnd
    have hSubmissions := TaskList.sum_map_set LaneSubmission.work hSubmission
      { submission with joined := some (anyOk results) }
    simp only [work, LaneSubmission.work, hOpen, if_true, reduceCtorEq, if_false] at hSubmissions ⊢
    omega

theorem inLane_eq_none {l : Nat} {lane : SenderLane} {step : Step (List U8) SendAnswer} (hLane : s.lanes[l]? = some lane)
    (hOld : step.isSubmit = false) (h : s.step (.inLane l step) = none) : lane.step step = none := by
  rw [Option.eq_none_iff_forall_ne_some]
  intro lane' hMoved
  simp [Fanout.step, hLane, hOld, hMoved] at h

/-- Whatever the interleaving, a submission is over after boundedly many steps, or it has
bytes at an endpoint that has not answered: nothing else can hold it up. -/
theorem submissions_come_back (lanes : Nat) {labels : List FanoutStep} (hRun : run step (start lanes) labels = some s) :
    (∀ (later : List FanoutStep) (t : Fanout), (∀ label ∈ later, label.isFire = false) → run step s later = some t →
      later.length ≤ s.work) ∧
    ((∀ i l, s.step (.post i l) = none) → (∀ l, s.step (.inLane l .take) = none) →
      (∀ l w, s.step (.inLane l (.send w)) = none) → (∀ l k, s.step (.inLane l (.collect k)) = none) →
      (∀ i, s.step (.join i) = none) →
      ∀ (i : Nat) (submission : LaneSubmission), s.submissions[i]? = some submission → submission.joined = none →
        ∃ (l k : Nat) (lane : SenderLane), s.lanes[l]? = some lane ∧ submission.posts[l]? = some (some k) ∧
          ⟨⟨submission.raw, k⟩, true⟩ ∈ lane.workers) := by
  obtain ⟨hFanned, hWide⟩ := Fanned.run hRun
  refine ⟨fun later t hLater hAfter => ?_, fun hPost hTake hSend hCollect hJoin i submission hSubmission hOpen => ?_⟩
  · have hBound := length_add_le (fun _ _ _ => step_work) hLater hAfter
    omega
  · have hResults : s.results submission = none := by
      rw [Option.eq_none_iff_forall_ne_some]
      intro results hResults
      have hStuck := hJoin i
      simp [Fanout.step, hSubmission, hOpen, hResults] at hStuck
    obtain ⟨⟨post, l⟩, hMem, hNone⟩ : ∃ post ∈ submission.posts.zipIdx, postResult s.lanes post = none := by
      by_contra hAll
      push Not at hAll
      obtain ⟨results, hSome⟩ := PartialMaps.mapM_isSome fun post hMem => Option.isSome_iff_ne_none.mpr (hAll post hMem)
      cases hResults.symm.trans hSome
    have hAt : submission.posts[l]? = some post := List.mem_zipIdx_iff_getElem?.mp hMem
    have hLt : l < s.lanes.length := by
      rw [hWide.width, ← hWide.posts submission (List.mem_of_getElem? hSubmission)]
      exact (List.getElem?_eq_some_iff.mp hAt).1
    have hLane := List.getElem?_eq_getElem hLt
    cases post with
    | none =>
      have hStuck := hPost i l
      simp [Fanout.step, hSubmission, hLane, hAt, State.step] at hStuck
    | some k =>
      obtain ⟨c, hc, hRaw⟩ := hFanned.posted i l k submission hSubmission hAt
      have hWaits : c.outcome = none := by
        cases hOutcome : c.outcome with
        | none => rfl
        | some o =>
          simp [postResult, hc, hOutcome] at hNone
      rw [callerOf_of_lane hLane] at hc
      refine ⟨l, k, s.lanes[l], hLane, hAt, ?_⟩
      rw [← hRaw]
      exact (hFanned.sound _ (List.getElem_mem hLt)).waits_for_endpoint (inLane_eq_none hLane rfl (hTake l))
        (fun w => inLane_eq_none hLane rfl (hSend l w)) (fun k => inLane_eq_none hLane rfl (hCollect l k)) hc hWaits

end Progress

section Sample

/-- Two submissions reach two lanes in opposite orders. The first lane answers both of them,
the last one first; the second refuses one and loses the other. -/
def racedSteps : List FanoutStep :=
  [.fire [1#8], .fire [2#8], .post 0 0, .post 1 1, .post 1 0, .post 0 1, .inLane 0 .take, .inLane 1 .take, .inLane 0 .take,
    .inLane 1 .take, .inLane 0 (.send 1), .inLane 1 (.send 1), .inLane 0 (.send 0), .inLane 0 (.answer 1 (some 9#256)),
    .inLane 1 (.crash 0), .inLane 0 (.answer 0 (some 7#256)), .inLane 1 (.answer 0 none), .inLane 0 (.collect 0),
    .inLane 1 (.collect 0), .inLane 1 (.collect 1), .inLane 0 (.collect 1), .join 1, .join 0]

def raced : Fanout := (run step (start 2) racedSteps).getD ⟨[], []⟩

theorem raced_run : run step (start 2) racedSteps = some raced := by decide +kernel

/-- Each of them has the hash of its own bytes. -/
theorem raced_hash_heard : (∃ (l k : Nat) (lane : SenderLane), raced.lanes[l]? = some lane ∧
      [some 0, some 1][l]? = some (some k) ∧ (⟨[1#8], k⟩, some 7#256) ∈ lane.heard) ∧
    ∃ (l k : Nat) (lane : SenderLane), raced.lanes[l]? = some lane ∧ [some 1, some 0][l]? = some (some k) ∧
      (⟨[2#8], k⟩, some 9#256) ∈ lane.heard := by
  obtain ⟨-, hHashes⟩ := lanes_never_cross 2 raced_run
  exact ⟨(hHashes 0 ⟨[1#8], [some 0, some 1], some (some 7#256)⟩ (by decide +kernel)).1 7#256 rfl,
    (hHashes 1 ⟨[2#8], [some 1, some 0], some (some 9#256)⟩ (by decide +kernel)).1 9#256 rfl⟩

/-- The endpoint of the only lane answers the second of two submissions, not the first. -/
def hangingSteps : List FanoutStep :=
  [.fire [1#8], .fire [2#8], .post 0 0, .post 1 0, .inLane 0 .take, .inLane 0 .take, .inLane 0 (.send 0), .inLane 0 (.send 1),
    .inLane 0 (.answer 1 (some 9#256)), .inLane 0 (.collect 1), .join 1]

def hanging : Fanout :=
  ⟨[⟨true, [], [⟨⟨[1#8], 0⟩, true⟩],
      [⟨[1#8], .waiting, none⟩, ⟨[2#8], .filled (some 9#256), some (.answered (some 9#256))⟩],
      [⟨[1#8], 0⟩, ⟨[2#8], 1⟩], [(⟨[2#8], 1⟩, some 9#256)]⟩],
    [⟨[1#8], [some 0], none⟩, ⟨[2#8], [some 1], some (some 9#256)⟩]⟩

theorem hanging_run : run step (start 1) hangingSteps = some hanging := by decide +kernel

theorem hanging_waits : ∃ (l k : Nat) (lane : SenderLane), hanging.lanes[l]? = some lane ∧ [some 0][l]? = some (some k) ∧
    ⟨⟨[1#8], k⟩, true⟩ ∈ lane.workers := by
  refine (submissions_come_back 1 hanging_run).2 (fun i l => ?_) (fun l => ?_) (fun l w => ?_) (fun l k => ?_) (fun i => ?_) 0
    ⟨[1#8], [some 0], none⟩ rfl rfl
  · match i with
    | 0 | 1 => cases l <;> rfl
    | i + 2 => rfl
  · cases l <;> rfl
  · cases l with
    | zero => cases w <;> rfl
    | succ l => rfl
  · cases l with
    | zero =>
      match k with
      | 0 | 1 | k + 2 => rfl
    | succ l => rfl
  · match i with
    | 0 | 1 | i + 2 => rfl

end Sample

end Fanout

end Robinarb
