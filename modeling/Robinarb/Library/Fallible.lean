import Mathlib.Control.Basic

/-! # Runs that fail or end in a state

A program over `StateT σ (Except ε)` gives a result and a last state, or fails and
gives neither. A successful run splits into successful runs of its parts.
-/

namespace Fallible

universe u

variable {σ ε : Type u} {α β : Type u}

theorem pure_eq_ok {a : α} {s : σ} {r : α × σ} :
    (pure a : StateT σ (Except ε) α) s = .ok r ↔ (a, s) = r := by
  constructor
  · rintro ⟨⟩
    rfl
  · rintro rfl
    rfl

theorem bind_eq_ok {x : StateT σ (Except ε) α} {f : α → StateT σ (Except ε) β} {s : σ} {r : β × σ} :
    (x >>= f) s = .ok r ↔ ∃ a s', x s = .ok (a, s') ∧ f a s' = .ok r := by
  change (x s >>= fun p => f p.1 p.2) = .ok r ↔ _
  cases hx : x s with
  | error e =>
    constructor
    · rintro ⟨⟩
    · rintro ⟨a, s', ⟨⟩, _⟩
  | ok p =>
    constructor
    · intro h
      exact ⟨p.1, p.2, rfl, h⟩
    · rintro ⟨a, s', ⟨⟩, h⟩
      exact h

theorem bind_of_ok {x : StateT σ (Except ε) α} {s s' : σ} {a : α} (hx : x s = .ok (a, s'))
    (f : α → StateT σ (Except ε) β) : (x >>= f) s = f a s' := by
  change (x s >>= fun p => f p.1 p.2) = _
  rw [hx]
  rfl

/-- A program that leaves the state and answers what the state says. -/
def Reads (x : StateT σ (Except ε) α) (f : σ → α) : Prop := ∀ s, x s = .ok (f s, s)

theorem Reads.bind {x : StateT σ (Except ε) α} {f : σ → α} (hRead : Reads x f)
    (g : α → StateT σ (Except ε) β) (s : σ) : (x >>= g) s = g (f s) s := by
  change (x s >>= fun p => g p.1 p.2) = _
  rw [hRead s]
  rfl

def Keeps (x : StateT σ (Except ε) α) : Prop := ∀ s r, x s = .ok r → r.2 = s

theorem Reads.keeps {x : StateT σ (Except ε) α} {f : σ → α} (hRead : Reads x f) : Keeps x := by
  intro s r hRun
  rw [hRead s] at hRun
  cases hRun
  rfl

/-- A body between two readings, checked after the second: the readings are of the
first and the last state of the run. -/
theorem bracket_ok {γ : Type u} {read : StateT σ (Except ε) α} {f : σ → α}
    {body : StateT σ (Except ε) β} {check : α → α → StateT σ (Except ε) γ} {s : σ} {r : γ × σ}
    (hRead : Reads read f) (hCheck : ∀ a b, Keeps (check a b))
    (hRun : (do
      let a ← read
      let _ ← body
      let b ← read
      check a b) s = .ok r) :
    check (f s) (f r.2) r.2 = .ok r := by
  rw [hRead.bind] at hRun
  obtain ⟨c, s', -, hRest⟩ := bind_eq_ok.mp hRun
  rw [hRead.bind] at hRest
  have hState := hCheck _ _ s' r hRest
  rw [hState]
  exact hRest

end Fallible
