/-! # Lookups of a computation

A computation over a fixed state, with the keys it looks up on its way.
-/

namespace Lookups

def Logged (σ κ α : Type) := σ → α × List κ

instance (σ κ : Type) : Monad (Logged σ κ) where
  pure a := fun _ => (a, [])
  bind m f := fun s => ((f (m s).1 s).1, (m s).2 ++ (f (m s).1 s).2)

namespace Logged

variable {σ κ α β : Type} {m : Logged σ κ α} {f : α → Logged σ κ β} {s : σ} {P : κ → Prop}

/-- A part of the state that takes no lookup. -/
def peek (g : σ → α) : Logged σ κ α := fun s => (g s, [])

def lookup (read : σ → κ → α) (key : κ) : Logged σ κ α := fun s => (read s key, [key])

def value (m : Logged σ κ α) (s : σ) : α := (m s).1

def keys (m : Logged σ κ α) (s : σ) : List κ := (m s).2

@[simp] theorem value_pure (a : α) (s : σ) : (pure a : Logged σ κ α).value s = a := rfl

@[simp] theorem value_bind (m : Logged σ κ α) (f : α → Logged σ κ β) (s : σ) :
    (m >>= f).value s = (f (m.value s)).value s := rfl

@[simp] theorem value_peek (g : σ → α) (s : σ) : (peek g : Logged σ κ α).value s = g s := rfl

@[simp] theorem value_lookup (read : σ → κ → α) (key : κ) (s : σ) : (lookup read key).value s = read s key := rfl

@[simp] theorem value_ite (c : Prop) [Decidable c] (m n : Logged σ κ α) (s : σ) :
    (if c then m else n).value s = if c then m.value s else n.value s := by
  split <;> rfl

/-- Every lookup is of a key with the property. -/
structure Within (m : Logged σ κ α) (s : σ) (P : κ → Prop) : Prop where
  holds : ∀ key ∈ m.keys s, P key

theorem Within.pure (a : α) : (pure a : Logged σ κ α).Within s P := ⟨nofun⟩

theorem Within.peek (g : σ → α) : (peek g : Logged σ κ α).Within s P := ⟨nofun⟩

theorem Within.lookup {read : σ → κ → α} {key : κ} (h : P key) : (lookup read key).Within s P := by
  constructor
  rintro other (_ | ⟨_, ⟨⟩⟩)
  exact h

theorem Within.bind (hm : m.Within s P) (hf : (f (m.value s)).Within s P) : (m >>= f).Within s P := by
  constructor
  intro key hKey
  rcases List.mem_append.mp hKey with hKey | hKey
  · exact hm.holds key hKey
  · exact hf.holds key hKey

theorem Within.ite {c : Prop} [Decidable c] {m n : Logged σ κ α} (hm : c → m.Within s P) (hn : ¬c → n.Within s P) :
    (if c then m else n).Within s P := by
  split
  · exact hm ‹_›
  · exact hn ‹_›

end Logged

end Lookups
