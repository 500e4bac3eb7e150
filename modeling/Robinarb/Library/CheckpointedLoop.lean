import Mathlib.Data.List.Basic

/-! # Loops that save their progress now and then

After a turn the loop saves when the turn makes it due or when the clock says so. It may
be interrupted before any turn, and then only the last save is left.
-/

namespace CheckpointedLoop

universe u v

structure Loop (σ : Type u) (δ : Type v) where
  going : σ → Bool
  step : σ → Option σ
  due : σ → Bool
  saved : σ → δ

inductive Outcome (σ : Type u) (δ : Type v) where
  | done (s : σ) (disk : Option δ)
  | stopped (disk : Option δ)

def Outcome.disk {σ : Type u} {δ : Type v} : Outcome σ δ → Option δ
  | .done _ disk => disk
  | .stopped disk => disk

variable {σ : Type u} {δ : Type v}

def Loop.next (loop : Loop σ δ) (clock : Bool) (t : σ) (disk : Option δ) : Option δ :=
  if clock || loop.due t then some (loop.saved t) else disk

/-- One turn for each entry of the clock; a loop that outlasts it is interrupted. -/
def Loop.run (loop : Loop σ δ) : List Bool → σ → Option δ → Outcome σ δ
  | [], s, disk => if loop.going s then .stopped disk else .done s disk
  | clock :: rest, s, disk =>
    if loop.going s then
      match loop.step s with
      | none => .stopped disk
      | some t => loop.run rest t (loop.next clock t disk)
    else .done s disk

/-- What every turn preserves, whether it saves or not, holds wherever the loop ends. -/
theorem Loop.run_keeps {loop : Loop σ δ} {I : σ → Option δ → Prop}
    (hStep : ∀ s t disk clock, I s disk → loop.going s = true → loop.step s = some t →
      I t (loop.next clock t disk))
    (clocks : List Bool) {s : σ} {disk : Option δ} (hStart : I s disk) :
    (∃ t, I t (loop.run clocks s disk).disk) ∧
      ∀ t left, loop.run clocks s disk = .done t left → I t left ∧ loop.going t = false := by
  induction clocks generalizing s disk with
  | nil =>
    unfold run
    split
    · exact ⟨⟨s, hStart⟩, nofun⟩
    · rename_i hStop
      refine ⟨⟨s, hStart⟩, ?_⟩
      rintro _ _ ⟨⟩
      exact ⟨hStart, Bool.eq_false_iff.mpr hStop⟩
  | cons clock rest ih =>
    unfold run
    split
    · rename_i hGoing
      cases hNext : loop.step s with
      | none => exact ⟨⟨s, hStart⟩, nofun⟩
      | some t => exact ih (hStep s t disk clock hStart hGoing hNext)
    · rename_i hStop
      refine ⟨⟨s, hStart⟩, ?_⟩
      rintro _ _ ⟨⟩
      exact ⟨hStart, Bool.eq_false_iff.mpr hStop⟩

end CheckpointedLoop
