import Robinarb.Ingest.Pipeline

/-! # Labels of sealed batches

A sealed batch carries the open block as its label, and `advance_to` publishes it.
Heads set the open block unconditionally, so the label may lie below a log of the
batch or below the label before. Beside the variables of the loop this keeps the
blocks of the logs folded since the last sealed batch and the label of that batch.
-/

namespace Robinarb

def Effect.label? : Effect → Option Nat
  | .sealBatch block _ => some block
  | _ => none

def Effect.tip? : Effect → Option Nat
  | .sealBatch block _ => some block
  | .resyncAll block => some block
  | _ => none

def PipelineInput.logBlock? : PipelineInput → Option Nat
  | .event (.poolLog block _ _) => some block
  | _ => none

/-- `folded` are the blocks of the logs in the open batch, `last` the last label. -/
structure Labelling where
  state : PipelineState
  folded : List Nat
  last : Nat

namespace Labelling

def initial : Labelling := ⟨.initial, [], 0⟩

section Trace

variable (plans : List (Option SlotPlan)) (tickSpacing : Nat → Int)

def label? (l : Labelling) (input : PipelineInput) : Option Nat :=
  (l.state.handle plans tickSpacing input).2.findSome? Effect.label?

def next (l : Labelling) (input : PipelineInput) : Labelling where
  state := (l.state.handle plans tickSpacing input).1
  folded := ((l.label? plans tickSpacing input).elim l.folded fun _ => []) ++ input.logBlock?.toList
  last := (l.label? plans tickSpacing input).getD l.last

/-- The sealed batches up to the close: their labels, with the blocks of their logs. -/
def batches (l : Labelling) : List PipelineInput → List (Nat × List Nat)
  | [] => (l.state.close.findSome? Effect.label?).toList.map fun label => (label, l.folded)
  | input :: rest =>
    ((l.label? plans tickSpacing input).toList.map fun label => (label, l.folded)) ++
      batches (l.next plans tickSpacing input) rest

/-- What an input must not undercut: a head the logs of a batch it does not seal and
the last label, a log the last label. A late log stays parked and has no label yet. -/
def InOrder (l : Labelling) : PipelineInput → Prop
  | .event (.newHead number _ _) =>
    (l.state.haveOpen = true ∧ l.state.openBlock < number) ∨ l.state.dirty = [] ∨
      ((∀ block ∈ l.folded, block ≤ number) ∧ l.last ≤ number)
  | .event (.poolLog block _ _) =>
    (l.state.haveOpen = false ∧ block ≤ l.state.openBlock) ∨ l.last ≤ max block l.state.openBlock
  | _ => True

def AllInOrder (l : Labelling) : List PipelineInput → Prop
  | [] => True
  | input :: rest => l.InOrder input ∧ AllInOrder (l.next plans tickSpacing input) rest

end Trace

/-- Labels from a last one on: none below a log of its batch, none below the one before. -/
def SoundFrom : Nat → List (Nat × List Nat) → Prop
  | _, [] => True
  | last, (label, blocks) :: rest => (∀ block ∈ blocks, block ≤ label) ∧ last ≤ label ∧ SoundFrom label rest

/-- The open batch would be sealed with a sound label. -/
structure Sealable (l : Labelling) : Prop where
  empty : l.state.dirty = [] → l.folded = []
  covers : l.state.dirty ≠ [] → ∀ block ∈ l.folded, block ≤ l.state.openBlock
  ascends : l.state.dirty ≠ [] → l.state.haveOpen = true → l.last ≤ l.state.openBlock

/-- The open batch will be sealed, and not with a sound label. -/
structure Doomed (l : Labelling) : Prop where
  haveOpen : l.state.haveOpen = true
  dirty : l.state.dirty ≠ []
  undercut : (∃ block ∈ l.folded, l.state.openBlock < block) ∨ l.state.openBlock < l.last

section Turns

variable {plans : List (Option SlotPlan)} {tickSpacing : Nat → Int}

theorem tickEffects_label {block idx : Nat} {ticks : Option (Int × Int)} {effect : Effect}
    (h : effect ∈ PipelineState.tickEffects plans tickSpacing block idx ticks) : effect.tip? = none := by
  obtain hPatch | hQueue := List.mem_append.mp h
  · split at hPatch
    · obtain rfl := List.mem_singleton.mp hPatch
      rfl
    · cases hPatch
  · split at hQueue
    · obtain rfl := List.mem_singleton.mp hQueue
      rfl
    · cases hQueue

theorem label?_of_tip? {effect : Effect} (h : effect.tip? = none) : effect.label? = none := by
  cases effect with
  | sealBatch block pools => cases h
  | _ => rfl

theorem findSome_tickEffects (block idx : Nat) (ticks : Option (Int × Int)) :
    (PipelineState.tickEffects plans tickSpacing block idx ticks).findSome? Effect.label? = none := by
  rw [List.findSome?_eq_none_iff]
  intro effect hMem
  exact label?_of_tip? (tickEffects_label hMem)

theorem insert_ne_nil (idx : Nat) (dirty : List Nat) : dirty.insert idx ≠ [] :=
  List.ne_nil_of_mem List.mem_insert_self

theorem next_of_none {l : Labelling} {input : PipelineInput} {state : PipelineState}
    (hState : (l.state.handle plans tickSpacing input).1 = state)
    (hLabel : l.label? plans tickSpacing input = none) :
    l.next plans tickSpacing input = ⟨state, l.folded ++ input.logBlock?.toList, l.last⟩ := by
  rw [next, hState, hLabel]
  rfl

theorem next_of_some {l : Labelling} {input : PipelineInput} {state : PipelineState} {label : Nat}
    (hState : (l.state.handle plans tickSpacing input).1 = state)
    (hLabel : l.label? plans tickSpacing input = some label) :
    l.next plans tickSpacing input = ⟨state, input.logBlock?.toList, label⟩ := by
  rw [next, hState, hLabel]
  rfl

theorem turn_newHead (l : Labelling) (number timestamp fee : Nat) :
    (l.state.haveOpen = true ∧ l.state.openBlock < number ∧ l.state.dirty ≠ [] ∧
      l.label? plans tickSpacing (.event (.newHead number timestamp fee)) = some l.state.openBlock ∧
      l.next plans tickSpacing (.event (.newHead number timestamp fee)) =
        ⟨⟨number, [], true, number⟩, [], l.state.openBlock⟩) ∨
    (¬(l.state.haveOpen = true ∧ l.state.openBlock < number ∧ l.state.dirty ≠ []) ∧
      l.label? plans tickSpacing (.event (.newHead number timestamp fee)) = none ∧
      l.next plans tickSpacing (.event (.newHead number timestamp fee)) =
        ⟨⟨number, l.state.dirty, true, number⟩, l.folded, l.last⟩) := by
  by_cases hSeals : l.state.haveOpen = true ∧ l.state.openBlock < number
  · have hHandle : l.state.handle plans tickSpacing (.event (.newHead number timestamp fee)) =
        ({ l.state.sealBatch.1 with openBlock := number, haveOpen := true, head := number },
          l.state.sealBatch.2 ++ [.onNewHead fee, .setHead number]) := by
      simp only [PipelineState.handle, if_pos hSeals]
    obtain ⟨hDirty, hSeal⟩ | ⟨hDirty, hSeal⟩ := l.state.sealBatch_cases
    · right
      have hLabel : l.label? plans tickSpacing (.event (.newHead number timestamp fee)) = none := by
        rw [label?, hHandle, hSeal]
        rfl
      refine ⟨fun h => h.2.2 hDirty, hLabel, ?_⟩
      rw [next_of_none (by rw [hHandle, hSeal]) hLabel]
      simp [PipelineInput.logBlock?]
    · left
      have hLabel : l.label? plans tickSpacing (.event (.newHead number timestamp fee)) =
          some l.state.openBlock := by
        rw [label?, hHandle, hSeal]
        rfl
      refine ⟨hSeals.1, hSeals.2, hDirty, hLabel, ?_⟩
      rw [next_of_some (by rw [hHandle, hSeal]) hLabel]
      rfl
  · right
    have hHandle : l.state.handle plans tickSpacing (.event (.newHead number timestamp fee)) =
        ({ l.state with openBlock := number, haveOpen := true, head := number },
          [.onNewHead fee, .setHead number]) := by
      simp only [PipelineState.handle, if_neg hSeals, List.nil_append]
    have hLabel : l.label? plans tickSpacing (.event (.newHead number timestamp fee)) = none := by
      rw [label?, hHandle]
      rfl
    refine ⟨fun h => hSeals ⟨h.1, h.2.1⟩, hLabel, ?_⟩
    rw [next_of_none (by rw [hHandle]) hLabel]
    simp [PipelineInput.logBlock?]

theorem turn_poolLog (l : Labelling) (block idx : Nat) (ticks : Option (Int × Int)) :
    (l.state.haveOpen = true ∧ l.state.openBlock < block ∧ l.state.dirty ≠ [] ∧
      l.label? plans tickSpacing (.event (.poolLog block idx ticks)) = some l.state.openBlock ∧
      l.next plans tickSpacing (.event (.poolLog block idx ticks)) =
        ⟨⟨block, [idx], true, l.state.head⟩, [block], l.state.openBlock⟩) ∨
    ((l.state.openBlock < block ∧ (l.state.haveOpen = true → l.state.dirty = [])) ∧
      l.label? plans tickSpacing (.event (.poolLog block idx ticks)) = none ∧
      l.next plans tickSpacing (.event (.poolLog block idx ticks)) =
        ⟨⟨block, l.state.dirty.insert idx, true, l.state.head⟩, l.folded ++ [block], l.last⟩) ∨
    (block ≤ l.state.openBlock ∧
      l.label? plans tickSpacing (.event (.poolLog block idx ticks)) = none ∧
      l.next plans tickSpacing (.event (.poolLog block idx ticks)) =
        ⟨{ l.state with dirty := l.state.dirty.insert idx }, l.folded ++ [block], l.last⟩) := by
  have hHandle : l.state.handle plans tickSpacing (.event (.poolLog block idx ticks)) =
      ({ (l.state.openFor block).1 with dirty := (l.state.openFor block).1.dirty.insert idx },
        (l.state.openFor block).2 ++ PipelineState.tickEffects plans tickSpacing block idx ticks) := rfl
  have hLabelEq : l.label? plans tickSpacing (.event (.poolLog block idx ticks)) =
      (l.state.openFor block).2.findSome? Effect.label? := by
    rw [label?, hHandle, List.findSome?_append, findSome_tickEffects, Option.or_none]
  obtain ⟨hLt, hOpen, hFor⟩ | ⟨hLt, hClosed, hFor⟩ | ⟨hLe, hFor⟩ := l.state.openFor_cases block
  · obtain ⟨hDirty, hSeal⟩ | ⟨hDirty, hSeal⟩ := l.state.sealBatch_cases
    · have hLabel : l.label? plans tickSpacing (.event (.poolLog block idx ticks)) = none := by
        rw [hLabelEq, hFor, hSeal]
        rfl
      refine .inr (.inl ⟨⟨hLt, fun _ => hDirty⟩, hLabel, ?_⟩)
      rw [next_of_none (by rw [hHandle, hFor, hSeal]) hLabel]
      rfl
    · have hLabel : l.label? plans tickSpacing (.event (.poolLog block idx ticks)) = some l.state.openBlock := by
        rw [hLabelEq, hFor, hSeal]
        rfl
      refine .inl ⟨hOpen, hLt, hDirty, hLabel, ?_⟩
      rw [next_of_some (by rw [hHandle, hFor, hSeal]) hLabel]
      rfl
  · have hLabel : l.label? plans tickSpacing (.event (.poolLog block idx ticks)) = none := by
      rw [hLabelEq, hFor]
      rfl
    refine .inr (.inl ⟨⟨hLt, fun hOpen => absurd hOpen (by simp [hClosed])⟩, hLabel, ?_⟩)
    rw [next_of_none (by rw [hHandle, hFor]) hLabel]
    rfl
  · have hLabel : l.label? plans tickSpacing (.event (.poolLog block idx ticks)) = none := by
      rw [hLabelEq, hFor]
      rfl
    refine .inr (.inr ⟨hLe, hLabel, ?_⟩)
    rw [next_of_none (by rw [hHandle, hFor]) hLabel]
    rfl

variable (plans tickSpacing) in
theorem turn_resync (l : Labelling) :
    l.label? plans tickSpacing (.event .resync) = none ∧ l.next plans tickSpacing (.event .resync) = l := by
  have hState : (l.state.handle plans tickSpacing (.event .resync)).1 = l.state := rfl
  have hLabel : l.label? plans tickSpacing (.event .resync) = none := rfl
  refine ⟨hLabel, ?_⟩
  rw [next_of_none hState hLabel]
  simp [PipelineInput.logBlock?]

variable (plans tickSpacing) in
theorem turn_quiet (l : Labelling) :
    (l.state.haveOpen = true ∧ l.state.dirty ≠ [] ∧
      l.label? plans tickSpacing .quiet = some l.state.openBlock ∧
      l.next plans tickSpacing .quiet =
        ⟨⟨l.state.openBlock, [], false, l.state.head⟩, [], l.state.openBlock⟩) ∨
    (¬(l.state.haveOpen = true ∧ l.state.dirty ≠ []) ∧ l.label? plans tickSpacing .quiet = none ∧
      l.next plans tickSpacing .quiet = ⟨{ l.state with haveOpen := false }, l.folded, l.last⟩) := by
  cases hOpen : l.state.haveOpen with
  | true =>
    have hHandle : l.state.handle plans tickSpacing .quiet =
        ({ l.state.sealBatch.1 with haveOpen := false }, l.state.sealBatch.2) := by
      simp only [PipelineState.handle, hOpen, if_true]
    obtain ⟨hDirty, hSeal⟩ | ⟨hDirty, hSeal⟩ := l.state.sealBatch_cases
    · right
      have hLabel : l.label? plans tickSpacing .quiet = none := by
        rw [label?, hHandle, hSeal]
        rfl
      refine ⟨fun h => h.2 hDirty, hLabel, ?_⟩
      rw [next_of_none (by rw [hHandle, hSeal]) hLabel]
      simp [PipelineInput.logBlock?]
    · left
      have hLabel : l.label? plans tickSpacing .quiet = some l.state.openBlock := by
        rw [label?, hHandle, hSeal]
        rfl
      refine ⟨rfl, hDirty, hLabel, ?_⟩
      rw [next_of_some (by rw [hHandle, hSeal]) hLabel]
      rfl
  | false =>
    right
    have hHandle : l.state.handle plans tickSpacing .quiet = (l.state, []) := by
      simp [PipelineState.handle, hOpen]
    have hLabel : l.label? plans tickSpacing .quiet = none := by
      rw [label?, hHandle]
      rfl
    refine ⟨fun h => absurd h.1 (by simp), hLabel, ?_⟩
    rw [next_of_none (by rw [hHandle]) hLabel, ← hOpen]
    simp [PipelineInput.logBlock?]

variable (plans tickSpacing) in
/-- The open batch would be sealed with a sound label: then a turn either seals it so,
or leaves an open batch that is sealable or doomed, as the input is in order or not. -/
theorem Sealable.turn {l : Labelling} (h : l.Sealable) (input : PipelineInput) :
    (l.label? plans tickSpacing input = some l.state.openBlock ∧ l.InOrder input ∧
      (∀ block ∈ l.folded, block ≤ l.state.openBlock) ∧ l.last ≤ l.state.openBlock ∧
      (l.next plans tickSpacing input).last = l.state.openBlock ∧ (l.next plans tickSpacing input).Sealable) ∨
    (l.label? plans tickSpacing input = none ∧ (l.next plans tickSpacing input).last = l.last ∧
      (l.InOrder input → (l.next plans tickSpacing input).Sealable) ∧
      (¬l.InOrder input → (l.next plans tickSpacing input).Doomed)) := by
  obtain (⟨number, timestamp, fee⟩ | ⟨block, idx, ticks⟩ | _) | _ := input
  · obtain ⟨hOpen, hLt, hDirty, hLabel, hNext⟩ | ⟨hNot, hLabel, hNext⟩ := l.turn_newHead number timestamp fee
    · left
      rw [hNext]
      exact ⟨hLabel, .inl ⟨hOpen, hLt⟩, h.covers hDirty, h.ascends hDirty hOpen, rfl,
        ⟨fun _ => rfl, fun hNe => absurd rfl hNe, fun hNe => absurd rfl hNe⟩⟩
    · right
      rw [hNext]
      refine ⟨hLabel, rfl, ?_, ?_⟩
      · rintro (⟨hOpen, hLt⟩ | hDirty | ⟨hCovers, hAscends⟩)
        · have hDirty : l.state.dirty = [] := by
            by_contra hNe
            exact hNot ⟨hOpen, hLt, hNe⟩
          exact ⟨h.empty, fun hNe => absurd hDirty hNe, fun hNe => absurd hDirty hNe⟩
        · exact ⟨h.empty, fun hNe => absurd hDirty hNe, fun hNe => absurd hDirty hNe⟩
        · exact ⟨h.empty, fun _ => hCovers, fun _ _ => hAscends⟩
      · intro hOut
        simp only [InOrder, not_or, not_and, Nat.not_le] at hOut
        refine ⟨rfl, hOut.2.1, ?_⟩
        by_cases hCovers : ∀ block ∈ l.folded, block ≤ number
        · exact .inr (hOut.2.2 hCovers)
        · left
          push Not at hCovers
          exact hCovers
  · obtain ⟨hOpen, hLt, hDirty, hLabel, hNext⟩ | ⟨⟨hLt, hClosed⟩, hLabel, hNext⟩ | ⟨hLe, hLabel, hNext⟩ :=
      l.turn_poolLog block idx ticks
    · left
      rw [hNext]
      have hAscends := h.ascends hDirty hOpen
      have hInOrder : l.last ≤ max block l.state.openBlock := by omega
      refine ⟨hLabel, .inr hInOrder, h.covers hDirty, hAscends, rfl, ⟨nofun, fun _ => ?_, fun _ _ => ?_⟩⟩
      · simp
      · exact Nat.le_of_lt hLt
    · right
      rw [hNext]
      refine ⟨hLabel, rfl, fun hInOrder => ⟨fun hNil => ?_, fun _ => ?_, fun _ _ => ?_⟩, fun hOut => ?_⟩
      · exact absurd hNil (insert_ne_nil idx _)
      · intro old hMem
        obtain hOld | hNew := List.mem_append.mp hMem
        · by_cases hDirty : l.state.dirty = []
          · rw [h.empty hDirty] at hOld
            cases hOld
          · have hBelow := h.covers hDirty old hOld
            exact hBelow.trans (Nat.le_of_lt hLt)
        · rw [List.mem_singleton.mp hNew]
      · obtain ⟨-, hLe⟩ | hAscends := hInOrder
        · omega
        · simp only
          omega
      · simp only [InOrder, not_or, not_and, Nat.not_le] at hOut
        refine ⟨rfl, insert_ne_nil idx _, .inr ?_⟩
        simp only
        omega
    · right
      rw [hNext]
      refine ⟨hLabel, rfl, fun hInOrder => ⟨fun hNil => ?_, fun _ => ?_, fun _ hOpen => ?_⟩, fun hOut => ?_⟩
      · exact absurd hNil (insert_ne_nil idx _)
      · intro old hMem
        obtain hOld | hNew := List.mem_append.mp hMem
        · by_cases hDirty : l.state.dirty = []
          · rw [h.empty hDirty] at hOld
            cases hOld
          · exact h.covers hDirty old hOld
        · rw [List.mem_singleton.mp hNew]
          exact hLe
      · obtain ⟨hClosed, -⟩ | hAscends := hInOrder
        · exact absurd hOpen (by simp [hClosed])
        · simp only
          omega
      · simp only [InOrder, not_or, not_and, Nat.not_le] at hOut
        have hOpen : l.state.haveOpen = true := by
          by_contra hClosed
          have hAbove := hOut.1 (by simpa using hClosed)
          omega
        refine ⟨hOpen, insert_ne_nil idx _, .inr ?_⟩
        simp only
        omega
  · obtain ⟨hLabel, hNext⟩ := turn_resync plans tickSpacing l
    right
    rw [hNext]
    exact ⟨hLabel, rfl, fun _ => h, fun hOut => absurd trivial hOut⟩
  · obtain ⟨hOpen, hDirty, hLabel, hNext⟩ | ⟨hNot, hLabel, hNext⟩ := turn_quiet plans tickSpacing l
    · left
      rw [hNext]
      exact ⟨hLabel, trivial, h.covers hDirty, h.ascends hDirty hOpen, rfl,
        ⟨fun _ => rfl, fun hNe => absurd rfl hNe, fun hNe => absurd rfl hNe⟩⟩
    · right
      rw [hNext]
      exact ⟨hLabel, rfl, fun _ => ⟨h.empty, h.covers, nofun⟩, fun hOut => absurd trivial hOut⟩

variable (plans tickSpacing) in
theorem Doomed.turn {l : Labelling} (h : l.Doomed) (input : PipelineInput) :
    l.label? plans tickSpacing input = some l.state.openBlock ∨
      (l.label? plans tickSpacing input = none ∧ (l.next plans tickSpacing input).last = l.last ∧
        (l.next plans tickSpacing input).Doomed) := by
  obtain (⟨number, timestamp, fee⟩ | ⟨block, idx, ticks⟩ | _) | _ := input
  · obtain ⟨-, -, -, hLabel, -⟩ | ⟨hNot, hLabel, hNext⟩ := l.turn_newHead number timestamp fee
    · exact .inl hLabel
    · have hLe : number ≤ l.state.openBlock := by
        by_contra hLt
        exact hNot ⟨h.haveOpen, by omega, h.dirty⟩
      right
      rw [hNext]
      refine ⟨hLabel, rfl, rfl, h.dirty, ?_⟩
      obtain ⟨block, hMem, hAbove⟩ | hLast := h.undercut
      · exact .inl ⟨block, hMem, by simp only; omega⟩
      · exact .inr (by simp only; omega)
  · obtain ⟨-, -, -, hLabel, -⟩ | ⟨⟨-, hClosed⟩, -, -⟩ | ⟨hLe, hLabel, hNext⟩ := l.turn_poolLog block idx ticks
    · exact .inl hLabel
    · exact absurd (hClosed h.haveOpen) h.dirty
    · right
      rw [hNext]
      refine ⟨hLabel, rfl, h.haveOpen, insert_ne_nil idx _, ?_⟩
      obtain ⟨old, hMem, hAbove⟩ | hLast := h.undercut
      · exact .inl ⟨old, List.mem_append_left _ hMem, hAbove⟩
      · exact .inr hLast
  · obtain ⟨hLabel, hNext⟩ := turn_resync plans tickSpacing l
    right
    rw [hNext]
    exact ⟨hLabel, rfl, h⟩
  · obtain ⟨-, -, hLabel, -⟩ | ⟨hNot, -, -⟩ := turn_quiet plans tickSpacing l
    · exact .inl hLabel
    · exact absurd ⟨h.haveOpen, h.dirty⟩ hNot

theorem Doomed.not_sound {l : Labelling} (h : l.Doomed) (inputs : List PipelineInput) :
    ¬SoundFrom l.last (l.batches plans tickSpacing inputs) := by
  induction inputs generalizing l with
  | nil =>
    rintro hSound
    have hClose : l.state.close.findSome? Effect.label? = some l.state.openBlock := by
      simp [PipelineState.close, h.haveOpen, PipelineState.sealBatch, h.dirty, Effect.label?]
    rw [batches, hClose] at hSound
    obtain ⟨hCovers, hAscends, -⟩ := hSound
    obtain ⟨block, hMem, hAbove⟩ | hLast := h.undercut
    · have hBelow := hCovers block hMem
      omega
    · omega
  | cons input rest ih =>
    rw [batches]
    obtain hLabel | ⟨hLabel, hLast, hNext⟩ := h.turn plans tickSpacing input
    · rw [hLabel]
      rintro ⟨hCovers, hAscends, -⟩
      obtain ⟨block, hMem, hAbove⟩ | hUnder := h.undercut
      · have hBelow := hCovers block hMem
        omega
      · omega
    · rw [hLabel, ← hLast]
      exact ih hNext

variable (plans tickSpacing) in
theorem Sealable.sound_iff {l : Labelling} (h : l.Sealable) (inputs : List PipelineInput) :
    SoundFrom l.last (l.batches plans tickSpacing inputs) ↔ l.AllInOrder plans tickSpacing inputs := by
  induction inputs generalizing l with
  | nil =>
    rw [batches, PipelineState.close]
    refine iff_of_true ?_ trivial
    split
    · rename_i hOpen
      obtain ⟨-, hSeal⟩ | ⟨hDirty, hSeal⟩ := l.state.sealBatch_cases
      · rw [hSeal]
        trivial
      · rw [hSeal]
        exact ⟨h.covers hDirty, h.ascends hDirty hOpen, trivial⟩
    · trivial
  | cons input rest ih =>
    rw [batches, AllInOrder]
    obtain ⟨hLabel, hInOrder, hCovers, hAscends, hLast, hNext⟩ | ⟨hLabel, hLast, hKeeps, hDooms⟩ :=
      h.turn plans tickSpacing input
    · rw [hLabel, and_iff_right hInOrder, ← ih hNext, hLast]
      constructor
      · rintro ⟨-, -, hRest⟩
        exact hRest
      · intro hRest
        exact ⟨hCovers, hAscends, hRest⟩
    · rw [hLabel, ← hLast]
      by_cases hInOrder : l.InOrder input
      · rw [and_iff_right hInOrder]
        exact ih (hKeeps hInOrder)
      · refine iff_of_false ?_ fun hAll => hInOrder hAll.1
        exact (hDooms hInOrder).not_sound rest

end Turns

section Labels

variable {plans : List (Option SlotPlan)} {tickSpacing : Nat → Int}

variable (plans tickSpacing) in
/-- The effects of a turn: at most one seal, then effects that publish no tip. -/
theorem handle_effects (s : PipelineState) {input : PipelineInput} (hInput : input ≠ .event .resync) :
    ∃ rest, (s.handle plans tickSpacing input).2 =
        (((s.handle plans tickSpacing input).2.findSome? Effect.label?).toList.map fun label =>
          .sealBatch label s.dirty) ++ rest ∧
      ∀ effect ∈ rest, effect.tip? = none := by
  have hSealed : ∀ rest : List Effect, (∀ effect ∈ rest, effect.tip? = none) →
      ∀ sealed, (sealed = [] ∨ sealed = [.sealBatch s.openBlock s.dirty]) →
      sealed ++ rest = (((sealed ++ rest).findSome? Effect.label?).toList.map fun label =>
        .sealBatch label s.dirty) ++ rest := by
    intro rest hRest sealed hSealed
    have hNone : rest.findSome? Effect.label? = none := by
      rw [List.findSome?_eq_none_iff]
      intro effect hMem
      exact label?_of_tip? (hRest effect hMem)
    obtain rfl | rfl := hSealed
    · rw [List.nil_append, hNone]
      rfl
    · rfl
  have hSeal : s.sealBatch.2 = [] ∨ s.sealBatch.2 = [.sealBatch s.openBlock s.dirty] := by
    obtain ⟨-, h⟩ | ⟨-, h⟩ := s.sealBatch_cases
    · exact .inl (by rw [h])
    · exact .inr (by rw [h])
  obtain (⟨number, timestamp, fee⟩ | ⟨block, idx, ticks⟩ | _) | _ := input
  · have hRest : ∀ effect ∈ [Effect.onNewHead fee, .setHead number], effect.tip? = none := by
      intro effect hMem
      obtain rfl | hMem := List.mem_cons.mp hMem
      · rfl
      · obtain rfl := List.mem_singleton.mp hMem
        rfl
    refine ⟨_, ?_, hRest⟩
    simp only [PipelineState.handle]
    split
    · exact hSealed _ hRest _ hSeal
    · exact hSealed _ hRest [] (.inl rfl)
  · have hRest : ∀ effect ∈ PipelineState.tickEffects plans tickSpacing block idx ticks,
        effect.tip? = none := fun effect hMem => tickEffects_label hMem
    refine ⟨_, ?_, hRest⟩
    simp only [PipelineState.handle]
    obtain ⟨-, -, hFor⟩ | ⟨-, -, hFor⟩ | ⟨-, hFor⟩ := s.openFor_cases block
    · rw [hFor]
      exact hSealed _ hRest _ hSeal
    · rw [hFor]
      exact hSealed _ hRest [] (.inl rfl)
    · rw [hFor]
      exact hSealed _ hRest [] (.inl rfl)
  · exact absurd rfl hInput
  · have hRest : ∀ effect ∈ ([] : List Effect), effect.tip? = none := by simp
    refine ⟨[], ?_, hRest⟩
    simp only [PipelineState.handle]
    split
    · simpa using hSealed [] hRest _ hSeal
    · rfl

theorem tips_eq_labels (l : Labelling) {inputs : List PipelineInput}
    (hInputs : ∀ input ∈ inputs, input ≠ .event .resync) :
    (l.state.effects plans tickSpacing inputs).filterMap Effect.tip? =
      (l.batches plans tickSpacing inputs).map Prod.fst := by
  induction inputs generalizing l with
  | nil =>
    rw [PipelineState.effects, batches, PipelineState.close]
    split
    · obtain ⟨-, hSeal⟩ | ⟨-, hSeal⟩ := l.state.sealBatch_cases
      · rw [hSeal]
        rfl
      · rw [hSeal]
        rfl
    · rfl
  | cons input rest ih =>
    obtain ⟨others, hEffects, hOthers⟩ := handle_effects plans tickSpacing l.state
      (hInputs input List.mem_cons_self)
    have hNone : others.filterMap Effect.tip? = [] := by
      rw [List.filterMap_eq_nil_iff]
      exact hOthers
    rw [PipelineState.effects, batches, List.filterMap_append, List.map_append, ← label?] at *
    rw [hEffects, List.filterMap_append, hNone, List.append_nil]
    congr 1
    · cases l.label? plans tickSpacing input with
      | none => rfl
      | some label => rfl
    · exact ih (l.next plans tickSpacing input) fun input hMem => hInputs input (List.mem_cons_of_mem _ hMem)

variable (plans tickSpacing)

/-- No label lies below a log of its batch, and neither the labels nor, where no
resync publishes one of its own, the tips run backwards. -/
structure LabelsSound (inputs : List PipelineInput) : Prop where
  covers : ∀ batch ∈ initial.batches plans tickSpacing inputs, ∀ block ∈ batch.2, block ≤ batch.1
  ascending : ((initial.batches plans tickSpacing inputs).map Prod.fst).Pairwise (· ≤ ·)
  tips : (∀ input ∈ inputs, input ≠ .event .resync) →
    ((PipelineState.initial.effects plans tickSpacing inputs).filterMap Effect.tip?).Pairwise (· ≤ ·)

theorem soundFrom_iff (last : Nat) (found : List (Nat × List Nat)) :
    SoundFrom last found ↔ (∀ batch ∈ found, ∀ block ∈ batch.2, block ≤ batch.1) ∧
      (last :: found.map Prod.fst).Pairwise (· ≤ ·) := by
  induction found generalizing last with
  | nil => simp [SoundFrom]
  | cons batch rest ih =>
    obtain ⟨label, blocks⟩ := batch
    simp only [SoundFrom, ih label, List.forall_mem_cons, List.map_cons, List.pairwise_cons]
    constructor
    · rintro ⟨hBlocks, hLast, hRest, hSorted⟩
      refine ⟨⟨hBlocks, hRest⟩, ⟨hLast, fun later hLater => ?_⟩, hSorted⟩
      exact hLast.trans (hSorted.1 later hLater)
    · rintro ⟨⟨hBlocks, hRest⟩, ⟨hLast, -⟩, hSorted⟩
      exact ⟨hBlocks, hLast, hRest, hSorted⟩

/-- Over any inputs up to the close, the labels are sound if and only if every head
and every log that is not parked arrives in order. -/
theorem labelsSound_iff (inputs : List PipelineInput) :
    LabelsSound plans tickSpacing inputs ↔ initial.AllInOrder plans tickSpacing inputs := by
  have hStart : initial.Sealable := ⟨fun _ => rfl, nofun, nofun⟩
  have hIff := (soundFrom_iff 0 (initial.batches plans tickSpacing inputs)).symm.trans
    (hStart.sound_iff plans tickSpacing inputs)
  rw [← hIff]
  constructor
  · rintro ⟨hCovers, hAscending, -⟩
    exact ⟨hCovers, List.pairwise_cons.mpr ⟨fun _ _ => Nat.zero_le _, hAscending⟩⟩
  · rintro ⟨hCovers, hSorted⟩
    have hAscending := (List.pairwise_cons.mp hSorted).2
    exact ⟨hCovers, hAscending, fun hInputs => (tips_eq_labels initial hInputs).symm ▸ hAscending⟩

/-- Two logs of block 11 with a quiet interval between them, then head 10: the second
batch, a log of block 11, is labelled 10 after a batch labelled 11. -/
theorem late_head_undercuts :
    initial.batches [] (fun _ => 0) [.event (.poolLog 11 0 none), .quiet, .event (.poolLog 11 1 none),
      .event (.newHead 10 0 0)] = [(11, [11]), (10, [11])] ∧
    ¬LabelsSound [] (fun _ => 0) [.event (.poolLog 11 0 none), .quiet, .event (.poolLog 11 1 none),
      .event (.newHead 10 0 0)] := by
  have hBatches : initial.batches [] (fun _ => 0) [.event (.poolLog 11 0 none), .quiet,
      .event (.poolLog 11 1 none), .event (.newHead 10 0 0)] = [(11, [11]), (10, [11])] := by decide
  refine ⟨hBatches, ?_⟩
  rintro ⟨hCovers, -, -⟩
  rw [hBatches] at hCovers
  exact absurd (hCovers (10, [11]) (by decide) 11 (by decide)) (by decide)

end Labels

end Labelling

end Robinarb
