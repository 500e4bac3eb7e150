import Mathlib.Data.List.Basic
import Mathlib.Logic.Function.Basic

/-! # Reads in flight against a versioned source

A source advances through versions. Readers issue reads of cells; each read is served
at the version current at that moment and lands later, when its answer overwrites the
entry of the cell. An entry is known by the version it was served at, its stamp. The
rules say what the stamps and the answers still in flight can be.
-/

namespace InFlight

universe u v

variable {κ : Type u} {ω : Type v}

/-- A read. `served` is the version of its answer, absent until it is served. -/
structure Flight (κ : Type u) (ω : Type v) where
  owner : ω
  cell : κ
  served : Option Nat
  deriving DecidableEq

structure Net (κ : Type u) (ω : Type v) where
  now : Nat
  stamps : κ → Option Nat
  flights : List (Flight κ ω)

inductive Move where
  | mine
  | serve (i : Nat)
  | land (i : Nat)
  | fail (i : Nat)
  deriving DecidableEq

def Move.isServe : Move → Bool
  | .serve _ => true
  | _ => false

def Move.isFail : Move → Bool
  | .fail _ => true
  | _ => false

namespace Net

def issue (net : Net κ ω) (owner : ω) (cells : List κ) : Net κ ω :=
  { net with flights := net.flights ++ cells.map fun cell => ⟨owner, cell, none⟩ }

def clear (net : Net κ ω) (p : κ → Bool) : Net κ ω :=
  { net with stamps := fun cell => if p cell then none else net.stamps cell }

def idle [DecidableEq ω] (net : Net κ ω) (owner : ω) : Bool := net.flights.all fun f => f.owner ≠ owner

theorem split_at {flights : List (Flight κ ω)} {i : Nat} {f : Flight κ ω} (h : flights[i]? = some f) :
    ∃ before after, flights = before ++ f :: after ∧ before.length = i := by
  obtain ⟨hLt, rfl⟩ := List.getElem?_eq_some_iff.mp h
  refine ⟨flights.take i, flights.drop (i + 1), ?_, List.length_take_of_le (Nat.le_of_lt hLt)⟩
  rw [List.getElem_cons_drop, List.take_append_drop]

theorem mem_split_of_mem {before after : List (Flight κ ω)} {f g : Flight κ ω} (h : f ∈ before ++ after) :
    f ∈ before ++ g :: after := by
  obtain hMem | hMem := List.mem_append.mp h
  · exact List.mem_append_left _ hMem
  · exact List.mem_append_right _ (List.mem_cons_of_mem _ hMem)

variable [DecidableEq κ]

def move (net : Net κ ω) : Move → Option (Net κ ω)
  | .mine => some { net with now := net.now + 1 }
  | .serve i =>
    match net.flights[i]? with
    | some ⟨owner, cell, none⟩ => some { net with flights := net.flights.set i ⟨owner, cell, some net.now⟩ }
    | _ => none
  | .land i =>
    match net.flights[i]? with
    | some ⟨_, cell, some version⟩ =>
      some { net with stamps := Function.update net.stamps cell (some version), flights := net.flights.eraseIdx i }
    | _ => none
  | .fail i => if i < net.flights.length then some { net with flights := net.flights.eraseIdx i } else none

/-- The moves with the flights split at the read they are about. -/
inductive Moved : Net κ ω → Move → Net κ ω → Prop where
  | mine (net : Net κ ω) : Moved net .mine { net with now := net.now + 1 }
  | serve (now : Nat) (stamps : κ → Option Nat) (before after : List (Flight κ ω)) (owner : ω) (cell : κ) :
      Moved ⟨now, stamps, before ++ ⟨owner, cell, none⟩ :: after⟩ (.serve before.length)
        ⟨now, stamps, before ++ ⟨owner, cell, some now⟩ :: after⟩
  | land (now : Nat) (stamps : κ → Option Nat) (before after : List (Flight κ ω)) (owner : ω) (cell : κ)
      (version : Nat) : Moved ⟨now, stamps, before ++ ⟨owner, cell, some version⟩ :: after⟩ (.land before.length)
        ⟨now, Function.update stamps cell (some version), before ++ after⟩
  | fail (now : Nat) (stamps : κ → Option Nat) (before after : List (Flight κ ω)) (f : Flight κ ω) :
      Moved ⟨now, stamps, before ++ f :: after⟩ (.fail before.length) ⟨now, stamps, before ++ after⟩

theorem moved_of_move {net next : Net κ ω} {m : Move} (h : net.move m = some next) : Moved net m next := by
  obtain ⟨now, stamps, flights⟩ := net
  cases m with
  | mine =>
    cases h
    exact .mine _
  | serve i =>
    simp only [move] at h
    split at h
    · rename_i owner cell hFlight
      obtain ⟨before, after, rfl, rfl⟩ := split_at hFlight
      cases h
      rw [List.set_append_right _ _ (Nat.le_refl _), Nat.sub_self, List.set_cons_zero]
      exact .serve now stamps before after owner cell
    · cases h
  | land i =>
    simp only [move] at h
    split at h
    · rename_i owner cell version hFlight
      obtain ⟨before, after, rfl, rfl⟩ := split_at hFlight
      cases h
      rw [List.eraseIdx_append_of_length_le (Nat.le_refl _), Nat.sub_self, List.eraseIdx_cons_zero]
      exact .land now stamps before after owner cell version
    · cases h
  | fail i =>
    simp only [move] at h
    split at h
    · rename_i hLt
      obtain ⟨f, hFlight⟩ : ∃ f, flights[i]? = some f := ⟨_, List.getElem?_eq_getElem hLt⟩
      obtain ⟨before, after, rfl, rfl⟩ := split_at hFlight
      cases h
      rw [List.eraseIdx_append_of_length_le (Nat.le_refl _), Nat.sub_self, List.eraseIdx_cons_zero]
      exact .fail now stamps before after f
    · cases h

def reading (net : Net κ ω) (cell : κ) : Nat := net.flights.countP fun f => f.cell = cell

end Net

open Net

/-- Every answer in flight for these cells is of this version or a later one. -/
def ServedFrom (P : κ → Prop) (version : Nat) (net : Net κ ω) : Prop :=
  ∀ f ∈ net.flights, P f.cell → ∀ n, f.served = some n → version ≤ n

instance {P : κ → Prop} [DecidablePred P] (version : Nat) (net : Net κ ω) : Decidable (ServedFrom P version net) :=
  inferInstanceAs (Decidable (∀ f ∈ net.flights, P f.cell → ∀ n ∈ f.served, version ≤ n))

def StampedFrom (P : κ → Prop) (version : Nat) (net : Net κ ω) : Prop :=
  ∀ cell, P cell → ∀ n, net.stamps cell = some n → version ≤ n

/-- Nothing in the net is of a version that has not been reached. -/
structure UpToNow (net : Net κ ω) : Prop where
  served : ∀ f ∈ net.flights, ∀ n, f.served = some n → n ≤ net.now
  stamped : ∀ cell n, net.stamps cell = some n → n ≤ net.now

/-- The cell has an entry of this version or a later one, or a read of the owner will
give it one. -/
def Secured (owner : ω) (version : Nat) (cell : κ) (net : Net κ ω) : Prop :=
  (∃ n, net.stamps cell = some n ∧ version ≤ n) ∨
    ∃ f ∈ net.flights, f.owner = owner ∧ f.cell = cell ∧ ∀ n, f.served = some n → version ≤ n

/-- Of the reads asked for, no more are in flight than that, and a cell has an entry exactly
when one of them is back. -/
def Accounted [DecidableEq κ] (P : κ → Prop) (asked : κ → Nat) (net : Net κ ω) : Prop :=
  ∀ cell, P cell → net.reading cell ≤ asked cell ∧ ((net.stamps cell).isSome = true ↔ net.reading cell < asked cell)

/-- A read lands only where no later answer has landed before it, and no read fails. -/
def LandsInOrder (P : κ → Prop) (net : Net κ ω) : Move → Prop
  | .land i => ∀ f, net.flights[i]? = some f → P f.cell → ∀ n, f.served = some n →
      ∀ old, net.stamps f.cell = some old → old ≤ n
  | .fail _ => False
  | _ => True

instance {P : κ → Prop} [DecidablePred P] (net : Net κ ω) : ∀ m, Decidable (LandsInOrder P net m)
  | .land i => inferInstanceAs (Decidable (∀ f ∈ net.flights[i]?, P f.cell → ∀ n ∈ f.served,
      ∀ old ∈ net.stamps f.cell, old ≤ n))
  | .fail _ => .isFalse id
  | .mine => .isTrue trivial
  | .serve _ => .isTrue trivial

section Rules

variable {P : κ → Prop} {version : Nat} {net next : Net κ ω} {m : Move} {owner : ω} {cell : κ}

theorem ServedFrom.issue (h : ServedFrom P version net) (owner : ω) (cells : List κ) :
    ServedFrom P version (net.issue owner cells) := by
  intro f hMem hCell n hn
  obtain hMem | hMem := List.mem_append.mp hMem
  · exact h f hMem hCell n hn
  · obtain ⟨other, -, rfl⟩ := List.mem_map.mp hMem
    cases hn

theorem StampedFrom.clear (h : StampedFrom P version net) (p : κ → Bool) : StampedFrom P version (net.clear p) := by
  intro other hOther n hn
  simp only [Net.clear] at hn
  split at hn
  · cases hn
  · exact h other hOther n hn

theorem ServedFrom.mono {Q : κ → Prop} (h : ServedFrom P version net) (hQP : ∀ cell, Q cell → P cell) :
    ServedFrom Q version net :=
  fun f hMem hCell => h f hMem (hQP f.cell hCell)

theorem UpToNow.issue (h : UpToNow net) (owner : ω) (cells : List κ) : UpToNow (net.issue owner cells) := by
  constructor
  · intro f hMem n hn
    obtain hMem | hMem := List.mem_append.mp hMem
    · exact h.served f hMem n hn
    · obtain ⟨other, -, rfl⟩ := List.mem_map.mp hMem
      cases hn
  · exact h.stamped

theorem UpToNow.clear (h : UpToNow net) (p : κ → Bool) : UpToNow (net.clear p) := by
  constructor
  · exact h.served
  · intro other n hn
    simp only [Net.clear] at hn
    split at hn
    · cases hn
    · exact h.stamped other n hn

theorem Secured.issue (h : Secured owner version cell net) (other : ω) (cells : List κ) :
    Secured owner version cell (net.issue other cells) := by
  refine h.imp_right ?_
  rintro ⟨f, hMem, hFlight⟩
  exact ⟨f, List.mem_append_left _ hMem, hFlight⟩

theorem secured_of_issue {cells : List κ} (h : cell ∈ cells) (owner : ω) (net : Net κ ω) :
    Secured owner version cell (net.issue owner cells) :=
  .inr ⟨⟨owner, cell, none⟩, List.mem_append_right _ (List.mem_map_of_mem h), rfl, rfl, nofun⟩

theorem Secured.clear {p : κ → Bool} (hCell : p cell = false) (h : Secured owner version cell net) :
    Secured owner version cell (net.clear p) := by
  refine h.imp_left ?_
  rintro ⟨n, hStamp, hLe⟩
  exact ⟨n, by simp [Net.clear, hCell, hStamp], hLe⟩

/-- With none of the owner's reads in flight, a secured cell has its entry. -/
theorem Secured.stamped [DecidableEq ω] (h : Secured owner version cell net) (hIdle : net.idle owner = true) :
    ∃ n, net.stamps cell = some n ∧ version ≤ n := by
  refine h.resolve_right ?_
  rintro ⟨f, hMem, hOwner, -⟩
  simp only [idle, List.all_eq_true, decide_eq_true_eq] at hIdle
  exact hIdle f hMem hOwner

variable [DecidableEq κ]

theorem Net.Moved.now_le (h : Moved net m next) : net.now ≤ next.now := by
  cases h with
  | mine => exact Nat.le_succ _
  | _ => exact Nat.le_refl _

theorem Net.Moved.flight_of_mem (h : Moved net m next) {f : Flight κ ω} (hMem : f ∈ next.flights) :
    ∃ g ∈ net.flights, f.owner = g.owner ∧ f.cell = g.cell := by
  cases h with
  | mine => exact ⟨f, hMem, rfl, rfl⟩
  | serve now stamps before after owner cell =>
    obtain hMem | hMem := List.mem_append.mp hMem
    · exact ⟨f, List.mem_append_left _ hMem, rfl, rfl⟩
    · obtain rfl | hMem := List.mem_cons.mp hMem
      · exact ⟨_, List.mem_append_right _ List.mem_cons_self, rfl, rfl⟩
      · exact ⟨f, List.mem_append_right _ (List.mem_cons_of_mem _ hMem), rfl, rfl⟩
  | land => exact ⟨f, mem_split_of_mem hMem, rfl, rfl⟩
  | fail => exact ⟨f, mem_split_of_mem hMem, rfl, rfl⟩

theorem Net.Moved.stamps_isSome (h : Moved net m next) (hStamp : (net.stamps cell).isSome = true) :
    (next.stamps cell).isSome = true := by
  cases h with
  | land now stamps before after owner other version =>
    simp only [Function.update_apply]
    split
    · rfl
    · exact hStamp
  | _ => exact hStamp

/-- A cell that nobody reads keeps its entry. -/
theorem Net.Moved.stamps_eq (h : Moved net m next) (hUnread : ∀ f ∈ net.flights, f.cell ≠ cell) :
    next.stamps cell = net.stamps cell := by
  cases h with
  | land now stamps before after owner other version =>
    have hOther : other ≠ cell := hUnread ⟨owner, other, some version⟩ (List.mem_append_right _ List.mem_cons_self)
    exact Function.update_of_ne hOther.symm _ _
  | _ => rfl

theorem Net.Moved.servedFrom (h : Moved net m next) (hNow : version ≤ net.now) (hServed : ServedFrom P version net) :
    ServedFrom P version next := by
  cases h with
  | mine => exact hServed
  | serve now stamps before after owner cell =>
    intro f hMem hCell n hn
    obtain hMem | hMem := List.mem_append.mp hMem
    · exact hServed f (List.mem_append_left _ hMem) hCell n hn
    · obtain rfl | hMem := List.mem_cons.mp hMem
      · cases hn
        exact hNow
      · exact hServed f (List.mem_append_right _ (List.mem_cons_of_mem _ hMem)) hCell n hn
  | land now stamps before after owner cell version' =>
    intro f hMem
    exact hServed f (mem_split_of_mem hMem)
  | fail now stamps before after g =>
    intro f hMem
    exact hServed f (mem_split_of_mem hMem)

theorem Net.Moved.stampedFrom (h : Moved net m next) (hServed : ServedFrom P version net)
    (hStamped : StampedFrom P version net) : StampedFrom P version next := by
  cases h with
  | land now stamps before after owner cell landed =>
    intro other hOther n hn
    simp only [Function.update_apply] at hn
    split at hn
    · rename_i hSame
      rw [← Option.some.inj hn]
      exact hServed ⟨owner, cell, some landed⟩ (List.mem_append_right _ List.mem_cons_self) (hSame ▸ hOther) landed rfl
    · exact hStamped other hOther n hn
  | _ => exact hStamped

theorem Net.Moved.upToNow (h : Moved net m next) (hNow : UpToNow net) : UpToNow next := by
  cases h with
  | mine =>
    constructor
    · intro f hMem n hn
      exact Nat.le_succ_of_le (hNow.served f hMem n hn)
    · intro cell n hn
      exact Nat.le_succ_of_le (hNow.stamped cell n hn)
  | serve now stamps before after owner cell =>
    constructor
    · intro f hMem n hn
      obtain hMem | hMem := List.mem_append.mp hMem
      · exact hNow.served f (List.mem_append_left _ hMem) n hn
      · obtain rfl | hMem := List.mem_cons.mp hMem
        · cases hn
          exact Nat.le_refl _
        · exact hNow.served f (List.mem_append_right _ (List.mem_cons_of_mem _ hMem)) n hn
    · exact hNow.stamped
  | land now stamps before after owner cell landed =>
    have hLanded := hNow.served ⟨owner, cell, some landed⟩ (List.mem_append_right _ List.mem_cons_self) landed rfl
    constructor
    · intro f hMem
      exact hNow.served f (mem_split_of_mem hMem)
    · intro other n hn
      simp only [Function.update_apply] at hn
      split at hn
      · rw [← Option.some.inj hn]
        exact hLanded
      · exact hNow.stamped other n hn
  | fail now stamps before after g =>
    constructor
    · intro f hMem
      exact hNow.served f (mem_split_of_mem hMem)
    · exact hNow.stamped

/-- Reads that land in the order they were served lose no entry. -/
theorem Net.Moved.secured (h : Moved net m next) (hNow : version ≤ net.now) (hCell : P cell)
    (hOrder : LandsInOrder P net m) (hSecured : Secured owner version cell net) :
    Secured owner version cell next := by
  cases h with
  | mine => exact hSecured
  | serve now stamps before after reader asked =>
    refine hSecured.imp_right ?_
    rintro ⟨f, hMem, hOwner, hFor, hVersion⟩
    obtain hMem | hMem := List.mem_append.mp hMem
    · exact ⟨f, List.mem_append_left _ hMem, hOwner, hFor, hVersion⟩
    · obtain rfl | hMem := List.mem_cons.mp hMem
      · refine ⟨_, List.mem_append_right _ List.mem_cons_self, hOwner, hFor, ?_⟩
        rintro n ⟨⟩
        exact hNow
      · exact ⟨f, List.mem_append_right _ (List.mem_cons_of_mem _ hMem), hOwner, hFor, hVersion⟩
  | land now stamps before after reader asked landed =>
    have hFlight : (before ++ ⟨reader, asked, some landed⟩ :: after)[before.length]? =
        some (⟨reader, asked, some landed⟩ : Flight κ ω) := by simp
    have hLater := hOrder _ hFlight
    obtain ⟨n, hStamp, hLe⟩ | ⟨f, hMem, hOwner, hFor, hVersion⟩ := hSecured
    · refine .inl ?_
      by_cases hSame : cell = asked
      · subst hSame
        exact ⟨landed, Function.update_self .., Nat.le_trans hLe (hLater hCell landed rfl n hStamp)⟩
      · exact ⟨n, (Function.update_of_ne hSame ..).trans hStamp, hLe⟩
    · obtain hMem | hMem := List.mem_append.mp hMem
      · exact .inr ⟨f, List.mem_append_left _ hMem, hOwner, hFor, hVersion⟩
      · obtain rfl | hMem := List.mem_cons.mp hMem
        · subst hFor
          exact .inl ⟨landed, Function.update_self .., hVersion landed rfl⟩
        · exact .inr ⟨f, List.mem_append_right _ hMem, hOwner, hFor, hVersion⟩
  | fail => exact hOrder.elim

theorem reading_issue (net : Net κ ω) (owner : ω) (cells : List κ) (cell : κ) :
    (net.issue owner cells).reading cell = net.reading cell + cells.countP fun other => other = cell := by
  rw [reading, Net.issue, List.countP_append, List.countP_map]
  rfl

theorem reading_split (now : Nat) (stamps : κ → Option Nat) (before after : List (Flight κ ω)) (f : Flight κ ω)
    (cell : κ) : reading ⟨now, stamps, before ++ f :: after⟩ cell =
      reading ⟨now, stamps, before ++ after⟩ cell + if f.cell = cell then 1 else 0 := by
  simp only [reading, List.countP_append, List.countP_cons, decide_eq_true_eq]
  omega

theorem reading_eq_zero (h : ∀ f ∈ net.flights, P f.cell → False) (hCell : P cell) : net.reading cell = 0 := by
  rw [reading, List.countP_eq_zero]
  intro f hMem hSame
  rw [decide_eq_true_eq] at hSame
  exact h f hMem (hSame ▸ hCell)

variable {asked : κ → Nat}

theorem Accounted.issue (h : Accounted P asked net) (owner : ω) (cells : List κ) :
    Accounted P (fun cell => asked cell + cells.countP fun other => other = cell) (net.issue owner cells) := by
  intro cell hCell
  obtain ⟨hLe, hSome⟩ := h cell hCell
  rw [reading_issue]
  exact ⟨Nat.add_le_add_right hLe _, hSome.trans (Nat.add_lt_add_iff_right).symm⟩

theorem Accounted.clear (h : Accounted P asked net) {p : κ → Bool}
    (hNone : ∀ f ∈ net.flights, P f.cell → False) :
    Accounted P (fun cell => if p cell then 0 else asked cell) (net.clear p) := by
  intro cell hCell
  have hReading : (net.clear p).reading cell = 0 := by
    change net.reading cell = 0
    exact reading_eq_zero hNone hCell
  have hSome := (h cell hCell).2
  rw [reading_eq_zero hNone hCell] at hSome
  rw [hReading]
  cases hClear : p cell with
  | true => simp [Net.clear, hClear]
  | false => simpa [Net.clear, hClear] using hSome

theorem Net.Moved.accounted (h : Moved net m next) (hOk : m.isFail = false) (hAccounted : Accounted P asked net) :
    Accounted P asked next := by
  intro other hOther
  obtain ⟨hLe, hSome⟩ := hAccounted other hOther
  cases h with
  | mine => exact ⟨hLe, hSome⟩
  | serve now stamps before after owner cell =>
    rw [reading_split] at hLe hSome
    rw [reading_split]
    exact ⟨hLe, hSome⟩
  | land now stamps before after owner cell landed =>
    rw [reading_split] at hLe hSome
    change reading ⟨now, stamps, before ++ after⟩ other ≤ asked other ∧
      ((Function.update stamps cell (some landed) other).isSome = true ↔
        reading ⟨now, stamps, before ++ after⟩ other < asked other)
    by_cases hCell : cell = other
    · subst hCell
      rw [if_pos rfl] at hLe
      rw [Function.update_self, Option.isSome_some]
      exact ⟨by omega, fun _ => by omega, fun _ => rfl⟩
    · rw [if_neg hCell] at hLe hSome
      rw [Function.update_of_ne (Ne.symm hCell)]
      exact ⟨hLe, hSome⟩
  | fail => cases hOk

end Rules

end InFlight
