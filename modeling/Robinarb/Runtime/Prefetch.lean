import Robinarb.Library.InFlight
import Robinarb.Library.Runs
import Robinarb.State.ChainState

/-! # The blocks of one prefetch

The reads of one `prefetch` call are answered one by one, each at the block the node is
at, while further blocks are mined. The values it inserts are those of one block exactly
when all of its answers are.
-/

namespace Robinarb

open InFlight InFlight.Net Runs

/-- A running `prefetch`. `written` are its insertions so far, each with the block its
value is of. -/
structure PrefetchCall where
  net : Net SlotKey Unit
  written : List (SlotKey × Nat)

namespace PrefetchCall

def start (now : Nat) (stamps : SlotKey → Option Nat) (slots : List SlotKey) : PrefetchCall :=
  ⟨Net.issue ⟨now, stamps, []⟩ () slots, []⟩

def insertion (net : Net SlotKey Unit) : Move → List (SlotKey × Nat)
  | .land i =>
    match net.flights[i]? with
    | some ⟨_, key, some block⟩ => [(key, block)]
    | _ => []
  | _ => []

def losesAnswer (net : Net SlotKey Unit) : Move → Bool
  | .fail i => (net.flights[i]?.bind Flight.served).isSome
  | _ => false

def step (call : PrefetchCall) (m : Move) : Option PrefetchCall :=
  if losesAnswer call.net m then none
  else (call.net.move m).map fun net => ⟨net, call.written ++ insertion call.net m⟩

/-- The blocks of the answers so far, inserted or not. -/
def answered (call : PrefetchCall) : List Nat := call.written.map Prod.snd ++ call.net.flights.filterMap Flight.served

/-- A read is answered at the block the answers before it are of. -/
def AnswersTogether (call : PrefetchCall) (m : Move) : Prop :=
  m.isServe = true → ∀ n ∈ call.answered, n = call.net.now

instance (call : PrefetchCall) (m : Move) : Decidable (call.AnswersTogether m) :=
  inferInstanceAs (Decidable (m.isServe = true → _))

def view (call : PrefetchCall) (chain : Nat → Storage) (before : ChainState) : ChainState :=
  { before with memo := fun key => (call.net.stamps key).map fun n => chain n key }

/-- The inserted values, and so the base slots read from them, are those of one block. -/
def OneBlock (call : PrefetchCall) (chain : Nat → Storage) : Prop :=
  ∃ n, (∀ entry ∈ call.written, chain entry.2 entry.1 = chain n entry.1) ∧
    ∀ (before : ChainState) (plan : SlotPlan), ∀ key ∈ ChainState.planSlots plan, key ∈ call.written.map Prod.fst →
      (call.view chain before).read key.1 key.2 = chain n key

def Agrees (call : PrefetchCall) : Prop := ∀ a ∈ call.answered, ∀ b ∈ call.answered, a = b

/-- An inserted slot holds one of the values inserted for it. -/
def Recorded (call : PrefetchCall) : Prop :=
  ∀ key ∈ call.written.map Prod.fst, ∃ n, call.net.stamps key = some n ∧ (key, n) ∈ call.written

section Steps

variable {call next : PrefetchCall} {m : Move}

inductive Stepped : PrefetchCall → Move → PrefetchCall → Prop where
  | mine (net : Net SlotKey Unit) (written : List (SlotKey × Nat)) :
      Stepped ⟨net, written⟩ .mine ⟨{ net with now := net.now + 1 }, written⟩
  | serve (now : Nat) (stamps : SlotKey → Option Nat) (before after : List (Flight SlotKey Unit)) (owner : Unit)
      (key : SlotKey) (written : List (SlotKey × Nat)) :
      Stepped ⟨⟨now, stamps, before ++ ⟨owner, key, none⟩ :: after⟩, written⟩ (.serve before.length)
        ⟨⟨now, stamps, before ++ ⟨owner, key, some now⟩ :: after⟩, written⟩
  | land (now : Nat) (stamps : SlotKey → Option Nat) (before after : List (Flight SlotKey Unit)) (owner : Unit)
      (key : SlotKey) (block : Nat) (written : List (SlotKey × Nat)) :
      Stepped ⟨⟨now, stamps, before ++ ⟨owner, key, some block⟩ :: after⟩, written⟩ (.land before.length)
        ⟨⟨now, Function.update stamps key (some block), before ++ after⟩, written ++ [(key, block)]⟩
  | fail (now : Nat) (stamps : SlotKey → Option Nat) (before after : List (Flight SlotKey Unit)) (owner : Unit)
      (key : SlotKey) (written : List (SlotKey × Nat)) :
      Stepped ⟨⟨now, stamps, before ++ ⟨owner, key, none⟩ :: after⟩, written⟩ (.fail before.length)
        ⟨⟨now, stamps, before ++ after⟩, written⟩

theorem step_cases (h : step call m = some next) : Stepped call m next := by
  obtain ⟨net, written⟩ := call
  simp only [step] at h
  split at h
  · cases h
  · rename_i hKept
    obtain ⟨moved, hMove, rfl⟩ := Option.map_eq_some_iff.mp h
    cases moved_of_move hMove with
    | mine =>
      simp only [insertion, List.append_nil]
      exact .mine net written
    | serve now stamps before after owner key =>
      simp only [insertion, List.append_nil]
      exact .serve now stamps before after owner key written
    | land now stamps before after owner key block =>
      simp only [insertion, List.getElem?_append_right (Nat.le_refl _), Nat.sub_self, List.getElem?_cons_zero]
      exact .land now stamps before after owner key block written
    | fail now stamps before after f =>
      obtain ⟨owner, key, served⟩ := f
      simp only [insertion, List.append_nil]
      cases served with
      | none => exact .fail now stamps before after owner key written
      | some block => simp [losesAnswer] at hKept

/-- Answers are never lost, and only a served read adds one, of the current block. -/
theorem Stepped.mem_answered (h : Stepped call m next) (n : Nat) :
    n ∈ next.answered ↔ n ∈ call.answered ∨ m.isServe = true ∧ n = call.net.now := by
  cases h with
  | mine => simp [answered, Move.isServe]
  | serve =>
    simp only [answered, Move.isServe, List.filterMap_append, List.filterMap_cons_none, List.mem_append, true_and]
    grind
  | land =>
    simp only [answered, Move.isServe, List.filterMap_append, List.map_append, List.map_singleton, List.mem_append,
      List.mem_cons, Bool.false_eq_true, false_and, or_false]
    grind
  | fail => simp [answered, Move.isServe]

theorem Stepped.agrees (h : Stepped call m next) (hTogether : call.AnswersTogether m) (hAgrees : call.Agrees) :
    next.Agrees := by
  intro a ha b hb
  obtain ha | ⟨hServe, rfl⟩ := (h.mem_answered a).mp ha
  · obtain hb | ⟨hServe, rfl⟩ := (h.mem_answered b).mp hb
    · exact hAgrees a ha b hb
    · exact hTogether hServe a ha
  · obtain hb | ⟨-, rfl⟩ := (h.mem_answered b).mp hb
    · exact (hTogether hServe b hb).symm
    · rfl

/-- Backwards: a step between answers of one block is itself together with them. -/
theorem Stepped.agrees_back (h : Stepped call m next) (hAgrees : next.Agrees) :
    call.AnswersTogether m ∧ call.Agrees := by
  have hOld : ∀ n ∈ call.answered, n ∈ next.answered := fun n hn => (h.mem_answered n).mpr (.inl hn)
  constructor
  · intro hServe n hn
    exact hAgrees n (hOld n hn) _ ((h.mem_answered _).mpr (.inr ⟨hServe, rfl⟩))
  · exact fun a ha b hb => hAgrees a (hOld a ha) b (hOld b hb)

theorem Stepped.recorded (h : Stepped call m next) (hRecorded : call.Recorded) : next.Recorded := by
  cases h with
  | land now stamps before after owner key block written =>
    intro other hOther
    by_cases hSame : other = key
    · subst hSame
      exact ⟨block, Function.update_self .., List.mem_append_right _ List.mem_cons_self⟩
    · rw [List.map_append, List.map_singleton, List.mem_append, List.mem_singleton, or_iff_left hSame] at hOther
      obtain ⟨n, hStamp, hMem⟩ := hRecorded other hOther
      exact ⟨n, (Function.update_of_ne hSame ..).trans hStamp, List.mem_append_left _ hMem⟩
  | _ => exact hRecorded

end Steps

section Runs

variable {now : Nat} {stamps : SlotKey → Option Nat} {slots : List SlotKey} {moves : List Move} {call : PrefetchCall}

theorem start_answered : (start now stamps slots).answered = [] := by
  simp [start, answered, Net.issue]

theorem run_recorded (hRun : run step (start now stamps slots) moves = some call) : call.Recorded :=
  run_invariant (fun _ _ _ hInv hStep => (step_cases hStep).recorded hInv) hRun fun _ hMem => by cases hMem

theorem Agrees.oneBlock (hAgrees : call.Agrees) (hRecorded : call.Recorded) (chain : Nat → Storage) :
    call.OneBlock chain := by
  have hWritten : ∀ entry ∈ call.written, entry.2 ∈ call.answered :=
    fun entry hEntry => List.mem_append_left _ (List.mem_map_of_mem hEntry)
  obtain ⟨n, hBlock⟩ : ∃ n, ∀ entry ∈ call.written, entry.2 = n := by
    cases hList : call.written with
    | nil => exact ⟨0, nofun⟩
    | cons first rest =>
      rw [← hList]
      have hFirst := hWritten first (hList ▸ List.mem_cons_self)
      exact ⟨first.2, fun entry hEntry => hAgrees _ (hWritten entry hEntry) _ hFirst⟩
  refine ⟨n, fun entry hEntry => by rw [hBlock entry hEntry], ?_⟩
  intro before plan key _ hKey
  obtain ⟨stamp, hStamp, hMem⟩ := hRecorded key hKey
  obtain rfl : stamp = n := hBlock _ hMem
  apply ChainState.read_of_memo
  change (call.net.stamps key).map _ = _
  rw [hStamp, Option.map_some]

/-- A chain that tells two blocks apart tells the answers of them apart. -/
theorem agrees_of_oneBlock (hDone : call.net.flights = []) (h : ∀ chain, call.OneBlock chain) : call.Agrees := by
  have hAnswered : call.answered = call.written.map Prod.snd := by
    rw [answered, hDone, List.filterMap_nil, List.append_nil]
  rw [Agrees, hAnswered]
  intro a ha b hb
  obtain ⟨first, hFirst, rfl⟩ := List.mem_map.mp ha
  obtain ⟨second, hSecond, rfl⟩ := List.mem_map.mp hb
  obtain ⟨n, hBlock, -⟩ := h fun n _ => if n = first.2 then 1#256 else 0#256
  have hAt : 1#256 = if n = first.2 then 1#256 else 0#256 := (if_pos rfl).symm.trans (hBlock first hFirst)
  have hOther := (hBlock second hSecond).trans hAt.symm
  by_contra hNe
  exact absurd ((if_neg (Ne.symm hNe)).symm.trans hOther) (by decide)

/-- Whatever the chain stores, the insertions of a completed call and the base slots a
later quote reads from them are of one block, if and only if every read was answered at
the block the answers before it are of. -/
theorem one_block_iff (hRun : run step (start now stamps slots) moves = some call) (hDone : call.net.flights = []) :
    (∀ chain, call.OneBlock chain) ↔ Each step AnswersTogether (start now stamps slots) moves := by
  constructor
  · intro h
    have hAgrees := agrees_of_oneBlock hDone h
    exact (Each.of_backward (fun _ _ _ hStep => (step_cases hStep).agrees_back) hRun hAgrees).1
  · intro hEach chain
    have hStart : (start now stamps slots).Agrees := by
      rw [Agrees, start_answered]
      exact nofun
    have hAgrees := hEach.invariant (fun _ _ _ hInv hTogether hStep => (step_cases hStep).agrees hTogether hInv)
      hRun hStart
    exact hAgrees.oneBlock (run_recorded hRun) chain

/-- A pool of two reserve slots, the second answered a block later than the first. -/
theorem reserves_of_two_blocks :
    ¬∀ (now : Nat) (stamps : SlotKey → Option Nat) (plan : SlotPlan) (moves : List Move) (call : PrefetchCall),
      run step (start now stamps (ChainState.planSlots plan)) moves = some call → call.net.flights = [] →
      ∀ chain, call.OneBlock chain := by
  intro hAll
  have hEnd : (run step (start 10 (fun _ => none) (ChainState.planSlots (.v2TwoSlot 7#160 8#256)))
      [.serve 0, .land 0, .mine, .serve 0, .land 0]).any
      (fun call => call.net.flights = [] ∧ call.answered = [10, 11]) = true := by decide +kernel
  obtain ⟨call, hRun, hEnd⟩ := (Option.any_eq_true _ _).mp hEnd
  obtain ⟨hDone, hAnswered⟩ := of_decide_eq_true hEnd
  have hAgrees := agrees_of_oneBlock hDone (hAll _ _ _ _ call hRun hDone)
  rw [Agrees, hAnswered] at hAgrees
  exact absurd (hAgrees 10 List.mem_cons_self 11 (by decide)) (by decide)

/-- Both slots answered in block 10, with a block mined before they are inserted. -/
theorem reserves_of_one_block :
    ∃ call, run step (start 10 (fun _ => none) (ChainState.planSlots (.v2TwoSlot 7#160 8#256)))
        [.serve 1, .serve 0, .mine, .land 0, .land 0] = some call ∧
      ((∀ chain, call.OneBlock chain) ↔
        Each step AnswersTogether (start 10 (fun _ => none) (ChainState.planSlots (.v2TwoSlot 7#160 8#256)))
          [.serve 1, .serve 0, .mine, .land 0, .land 0]) := by
  have hEnd : (run step (start 10 (fun _ => none) (ChainState.planSlots (.v2TwoSlot 7#160 8#256)))
      [.serve 1, .serve 0, .mine, .land 0, .land 0]).any (fun call => call.net.flights = []) = true := by
    decide +kernel
  obtain ⟨call, hRun, hDone⟩ := (Option.any_eq_true _ _).mp hEnd
  exact ⟨call, hRun, one_block_iff hRun (of_decide_eq_true hDone)⟩

end Runs

end PrefetchCall

end Robinarb
