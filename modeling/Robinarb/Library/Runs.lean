import Mathlib.Data.List.Basic

/-! # Runs of a labelled step function

A step takes a state and a label and may be refused. A run is the steps of a list of
labels; a condition on steps is one on the state before each of them.
-/

namespace Runs

universe u v

variable {σ : Type u} {α : Type v} (step : σ → α → Option σ)

def run (s : σ) (labels : List α) : Option σ := labels.foldlM step s

def Each (P : σ → α → Prop) : σ → List α → Prop
  | _, [] => True
  | s, label :: rest => P s label ∧ ∀ t, step s label = some t → Each P t rest

def Sometime (P : σ → α → Prop) : σ → List α → Prop
  | _, [] => False
  | s, label :: rest => P s label ∨ ∃ t, step s label = some t ∧ Sometime P t rest

instance Each.decidable {P : σ → α → Prop} [∀ s label, Decidable (P s label)] :
    ∀ s labels, Decidable (Each step P s labels)
  | _, [] => .isTrue trivial
  | s, label :: rest =>
    have : DecidablePred fun t => Each step P t rest := fun t => Each.decidable t rest
    inferInstanceAs (Decidable (P s label ∧ ∀ t ∈ step s label, Each step P t rest))

variable {step}

theorem run_cons {s t : σ} {label : α} {rest : List α} :
    run step s (label :: rest) = some t ↔ ∃ u, step s label = some u ∧ run step u rest = some t := by
  rw [run, List.foldlM_cons]
  exact Option.bind_eq_some_iff

theorem run_append {s t : σ} {before after : List α} :
    run step s (before ++ after) = some t ↔ ∃ u, run step s before = some u ∧ run step u after = some t := by
  rw [run, List.foldlM_append]
  exact Option.bind_eq_some_iff

/-- What every admitted step preserves holds at the end of every admitted run. -/
theorem Each.invariant {P : σ → α → Prop} {Inv : σ → Prop}
    (hStep : ∀ s label t, Inv s → P s label → step s label = some t → Inv t) {s t : σ} {labels : List α}
    (hEach : Each step P s labels) (hRun : run step s labels = some t) (hStart : Inv s) : Inv t := by
  induction labels generalizing s with
  | nil =>
    cases hRun
    exact hStart
  | cons label rest ih =>
    obtain ⟨u, hNext, hRest⟩ := run_cons.mp hRun
    exact ih (hEach.2 u hNext) hRest (hStep s label u hStart hEach.1 hNext)

theorem run_invariant {Inv : σ → Prop} (hStep : ∀ s label t, Inv s → step s label = some t → Inv t) {s t : σ}
    {labels : List α} (hRun : run step s labels = some t) (hStart : Inv s) : Inv t := by
  induction labels generalizing s with
  | nil =>
    cases hRun
    exact hStart
  | cons label rest ih =>
    obtain ⟨u, hNext, hRest⟩ := run_cons.mp hRun
    exact ih hRest (hStep s label u hStart hNext)

/-- What every step carries back from its end to its start, with the condition on the step. -/
theorem Each.of_backward {P : σ → α → Prop} {Inv : σ → Prop}
    (hBack : ∀ s label t, step s label = some t → Inv t → P s label ∧ Inv s) {s t : σ} {labels : List α}
    (hRun : run step s labels = some t) (hEnd : Inv t) : Each step P s labels ∧ Inv s := by
  induction labels generalizing s with
  | nil =>
    cases hRun
    exact ⟨trivial, hEnd⟩
  | cons label rest ih =>
    obtain ⟨u, hNext, hRest⟩ := run_cons.mp hRun
    obtain ⟨hEach, hInv⟩ := ih hRest
    obtain ⟨hStep, hStart⟩ := hBack s label u hNext hInv
    refine ⟨⟨hStep, fun v hv => ?_⟩, hStart⟩
    rw [hNext] at hv
    cases hv
    exact hEach

/-- Conditions that agree wherever an invariant of the admitted steps holds. -/
theorem Each.congr {C P Q : σ → α → Prop} {Inv : σ → Prop}
    (hStep : ∀ s label t, Inv s → C s label → step s label = some t → Inv t)
    (hPQ : ∀ s label, Inv s → (P s label ↔ Q s label)) {s : σ} {labels : List α} (hStart : Inv s)
    (hEach : Each step C s labels) : Each step P s labels ↔ Each step Q s labels := by
  induction labels generalizing s with
  | nil => exact Iff.rfl
  | cons label rest ih =>
    exact and_congr (hPQ s label hStart) (forall_congr' fun t => imp_congr_right fun hNext =>
      ih (hStep s label t hStart hEach.1 hNext) (hEach.2 t hNext))

theorem Each.of_forall {P : α → Prop} {labels : List α} (h : ∀ label ∈ labels, P label) (s : σ) :
    Each step (fun _ label => P label) s labels := by
  induction labels generalizing s with
  | nil => trivial
  | cons label rest ih =>
    exact ⟨h label List.mem_cons_self, fun t _ => ih (fun other hMem => h other (List.mem_cons_of_mem _ hMem)) t⟩

theorem Each.mono {P Q : σ → α → Prop} (hPQ : ∀ s label, P s label → Q s label) {s : σ} {labels : List α}
    (h : Each step P s labels) : Each step Q s labels := by
  induction labels generalizing s with
  | nil => trivial
  | cons label rest ih => exact ⟨hPQ s label h.1, fun t hNext => ih (h.2 t hNext)⟩

theorem Each.and {P Q : σ → α → Prop} {s : σ} {labels : List α} (hP : Each step P s labels) (hQ : Each step Q s labels) :
    Each step (fun s label => P s label ∧ Q s label) s labels := by
  induction labels generalizing s with
  | nil => trivial
  | cons label rest ih => exact ⟨⟨hP.1, hQ.1⟩, fun t hNext => ih (hP.2 t hNext) (hQ.2 t hNext)⟩

/-- What an admitted step gives where an invariant of the admitted steps holds. -/
theorem Each.imp {C P : σ → α → Prop} {Inv : σ → Prop}
    (hStep : ∀ s label t, Inv s → C s label → step s label = some t → Inv t)
    (hP : ∀ s label, Inv s → C s label → P s label) {s : σ} {labels : List α} (hStart : Inv s)
    (hEach : Each step C s labels) : Each step P s labels := by
  induction labels generalizing s with
  | nil => trivial
  | cons label rest ih =>
    exact ⟨hP s label hStart hEach.1, fun t hNext => ih (hStep s label t hStart hEach.1 hNext) (hEach.2 t hNext)⟩

/-- A run of steps that each use some of a measure up is no longer than the measure. -/
theorem length_add_le {P : α → Prop} {μ : σ → Nat} (hStep : ∀ s label t, P label → step s label = some t → μ t < μ s) {s t : σ}
    {labels : List α} (hLabels : ∀ label ∈ labels, P label) (hRun : run step s labels = some t) :
    labels.length + μ t ≤ μ s := by
  induction labels generalizing s with
  | nil =>
    cases hRun
    exact Nat.le_of_eq (Nat.zero_add _)
  | cons label rest ih =>
    obtain ⟨u, hNext, hRest⟩ := run_cons.mp hRun
    obtain ⟨hFirst, hOthers⟩ := List.forall_mem_cons.mp hLabels
    have hLess := hStep s label u hFirst hNext
    have hLater := ih hOthers hRest
    rw [List.length_cons]
    omega

/-- What is held at the end or was taken on the way is what was held at the start or
put there on the way. -/
theorem held_or_taken_iff {Held : σ → Prop} {Take Put : σ → α → Prop}
    (hStep : ∀ s label t, step s label = some t → (Held t ∨ Take s label ↔ Held s ∨ Put s label)) {s t : σ}
    {labels : List α} (hRun : run step s labels = some t) :
    Held t ∨ Sometime step Take s labels ↔ Held s ∨ Sometime step Put s labels := by
  induction labels generalizing s with
  | nil =>
    cases hRun
    exact Iff.rfl
  | cons label rest ih =>
    obtain ⟨u, hNext, hRest⟩ := run_cons.mp hRun
    have hOnly : ∀ P : σ → α → Prop, Sometime step P s (label :: rest) ↔ P s label ∨ Sometime step P u rest := by
      intro P
      simp [Sometime, hNext]
    have hFirst := hStep s label u hNext
    have hLater := ih hRest
    rw [hOnly, hOnly, or_left_comm, hLater, ← or_assoc, ← or_assoc, or_comm (a := Take s label), hFirst]

end Runs
