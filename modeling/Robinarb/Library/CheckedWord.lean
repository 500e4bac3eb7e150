import Mathlib.Algebra.Group.Nat.Defs

/-! # Word arithmetic with its faults named

The operations of wrapping words, each checked first: a product that does not fit, a
divisor that is zero, a difference below zero. What a checked run ends in is what the
wrapping run computes.
-/

namespace CheckedWord

inductive Fault
  | product
  | divisor
  | below
  deriving DecidableEq

variable {w : Nat}

def mul (a b : BitVec w) : Except Fault (BitVec w) :=
  if a.toNat * b.toNat < 2 ^ w then .ok (a * b) else .error .product

def div (a b : BitVec w) : Except Fault (BitVec w) := if b = 0#w then .error .divisor else .ok (a / b)

def sub (a b : BitVec w) : Except Fault (BitVec w) := if a < b then .error .below else .ok (a - b)

universe u

section Ends

variable {α β : Type u}

/-- The run ends in a value with the property, unless a product does not fit. -/
def Ends (p : α → Prop) : Except Fault α → Prop
  | .ok a => p a
  | .error e => e = .product

theorem Ends.exists_ok {p : α → Prop} {x : Except Fault α} (h : Ends p x) (hFits : x ≠ .error .product) :
    ∃ a, x = .ok a ∧ p a := by
  cases x with
  | ok a => exact ⟨a, rfl, h⟩
  | error e => exact absurd (congrArg Except.error h) hFits

theorem Ends.imp {p q : α → Prop} {x : Except Fault α} (h : Ends p x) (hImp : ∀ a, p a → q a) : Ends q x := by
  cases x with
  | ok a => exact hImp a h
  | error e => exact h

theorem Ends.bind {p : α → Prop} {q : β → Prop} {x : Except Fault α} {f : α → Except Fault β}
    (hx : Ends p x) (hf : ∀ a, p a → Ends q (f a)) : Ends q (x >>= f) := by
  cases x with
  | ok a => exact hf a hx
  | error e => exact hx

theorem ends_mul (a b : BitVec w) : Ends (fun c => c = a * b ∧ c.toNat = a.toNat * b.toNat) (mul a b) := by
  unfold mul
  split
  · rename_i hFits
    refine ⟨rfl, ?_⟩
    rw [BitVec.toNat_mul, Nat.mod_eq_of_lt hFits]
  · rfl

theorem ends_div {a b : BitVec w} (hb : b ≠ 0#w) : Ends (fun c => c = a / b) (div a b) := by
  unfold div
  rw [if_neg hb]
  rfl

theorem ends_sub {a b : BitVec w} (h : b.toNat ≤ a.toNat) :
    Ends (fun c => c = a - b ∧ c.toNat = a.toNat - b.toNat) (sub a b) := by
  unfold sub
  rw [if_neg (by rw [BitVec.lt_def]; omega)]
  exact ⟨rfl, BitVec.toNat_sub_of_le (BitVec.le_def.mpr h)⟩

end Ends

section Follows

variable {α β : Type u}

/-- The wrapping run, with `none` for a panic, that a checked run stands for. -/
def Follows : Except Fault α → Option α → Prop
  | .ok a, o => o = some a
  | .error .divisor, o => o = none
  | .error _, _ => True

theorem Ends.follows {a : α} {x : Except Fault α} (h : Ends (fun b => b = a) x) : Follows x (some a) := by
  cases x with
  | ok b => exact congrArg some h.symm
  | error e =>
    cases h
    trivial

/-- What a checked run ends in, the wrapping run computes. -/
theorem Ends.and_follows {p : α → Prop} {x : Except Fault α} {o : Option α} (h : Ends p x) (hFollows : Follows x o) :
    Ends (fun a => p a ∧ o = some a) x := by
  cases x with
  | ok a => exact ⟨h, hFollows⟩
  | error e => exact h

theorem Follows.bind {x : Except Fault α} {o : Option α} {f : α → Except Fault β} {g : α → Option β}
    (hx : Follows x o) (hf : ∀ a, Follows (f a) (g a)) : Follows (x >>= f) (o >>= g) := by
  cases x with
  | ok a =>
    rw [show o = some a from hx]
    exact hf a
  | error e =>
    cases e with
    | divisor =>
      rw [show o = none from hx]
      rfl
    | product => trivial
    | below => trivial

/-- A checked value that the wrapping run does not compute apart. -/
theorem Follows.bind_some {x : Except Fault α} {a : α} {f : α → Except Fault β} {o : Option β}
    (hx : Follows x (some a)) (hf : Follows (f a) o) : Follows (x >>= f) o := by
  cases x with
  | ok b =>
    cases Option.some.inj hx
    exact hf
  | error e =>
    cases e with
    | divisor => cases hx
    | product => trivial
    | below => trivial

theorem follows_mul (a b : BitVec w) : Follows (mul a b) (some (a * b)) :=
  ((ends_mul a b).imp fun _ h => h.1).follows

theorem follows_sub (a b : BitVec w) : Follows (sub a b) (some (a - b)) := by
  unfold sub
  split
  · trivial
  · rfl

end Follows

end CheckedWord
