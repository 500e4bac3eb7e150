import Mathlib.Algebra.Order.Ring.Nat
import Mathlib.Data.List.Basic
import Mathlib.Tactic.Ring

/-! # Numbers as texts of digits

Digits of any radix over any symbols, the highest first. A number that is written in some
width is read back, as long as it is below the limit of the reader, and texts of one width
are equal when their numbers are.
-/

namespace RadixText

universe u

variable {γ : Type u} (radix : Nat) (glyph : Nat → γ) (value : γ → Option Nat)

/-- The last `width` digits. -/
def write : Nat → Nat → List γ
  | 0, _ => []
  | width + 1, n => write width (n / radix) ++ [glyph (n % radix)]

/-- One more digit; no number reaches the limit. -/
def push (limit n : Nat) (c : γ) : Option Nat := do
  let d ← value c
  if n * radix + d < limit then some (n * radix + d) else none

def read (limit : Nat) (text : List γ) : Option Nat := text.foldlM (push radix value limit) 0

variable {radix glyph value}

theorem length_write (width n : Nat) : (write radix glyph width n).length = width := by
  induction width generalizing n with
  | zero => rfl
  | succ width ih => rw [write, List.length_append, ih, List.length_singleton]

/-- A wider text starts with zeros. -/
theorem write_add {width n : Nat} (hRadix : 0 < radix) (hn : n < radix ^ width) (more : Nat) :
    write radix glyph (more + width) n = List.replicate more (glyph 0) ++ write radix glyph width n := by
  induction width generalizing n with
  | zero =>
    obtain rfl : n = 0 := by simpa using hn
    rw [write, List.append_nil]
    induction more with
    | zero => rfl
    | succ more ih =>
      rw [Nat.add_zero] at ih ⊢
      rw [write, Nat.zero_div, Nat.zero_mod, ih, List.replicate_succ']
  | succ width ih =>
    have hHigh : n / radix < radix ^ width := (Nat.div_lt_iff_lt_mul hRadix).mpr (by rwa [pow_succ] at hn)
    rw [← Nat.add_assoc, write, write, ih hHigh, List.append_assoc]

theorem foldlM_push {limit width n : Nat} (hRadix : 0 < radix) (hValue : ∀ d < radix, value (glyph d) = some d)
    (hn : n < radix ^ width) (acc : Nat) (hLimit : acc * radix ^ width + n < limit) :
    (write radix glyph width n).foldlM (push radix value limit) acc = some (acc * radix ^ width + n) := by
  induction width generalizing n with
  | zero =>
    obtain rfl : n = 0 := by simpa using hn
    rw [write, List.foldlM_nil, pow_zero, Nat.mul_one, Nat.add_zero]
    rfl
  | succ width ih =>
    have hHigh : n / radix < radix ^ width := (Nat.div_lt_iff_lt_mul hRadix).mpr (by rwa [pow_succ] at hn)
    have hSplit : (acc * radix ^ width + n / radix) * radix + n % radix = acc * radix ^ (width + 1) + n := by
      calc (acc * radix ^ width + n / radix) * radix + n % radix
          = acc * radix ^ (width + 1) + (radix * (n / radix) + n % radix) := by ring
        _ = acc * radix ^ (width + 1) + n := by rw [Nat.div_add_mod]
    have hFirst : acc * radix ^ width + n / radix < limit := by
      have hLe : acc * radix ^ width + n / radix ≤ (acc * radix ^ width + n / radix) * radix := Nat.le_mul_of_pos_right _ hRadix
      omega
    rw [write, List.foldlM_append, ih hHigh hFirst]
    change [glyph (n % radix)].foldlM (push radix value limit) (acc * radix ^ width + n / radix) = _
    rw [List.foldlM_cons, push, hValue _ (Nat.mod_lt n hRadix)]
    simp only [Option.bind_eq_bind, Option.bind_some, hSplit, hLimit, if_true, List.foldlM_nil]
    rfl

theorem read_write {limit width n : Nat} (hRadix : 0 < radix) (hValue : ∀ d < radix, value (glyph d) = some d)
    (hn : n < radix ^ width) (hLimit : n < limit) : read radix value limit (write radix glyph width n) = some n := by
  have hRead := foldlM_push hRadix hValue hn 0 (show 0 * radix ^ width + n < limit by omega)
  rwa [Nat.zero_mul, Nat.zero_add] at hRead

theorem mem_write {width n : Nat} (hRadix : 0 < radix) {c : γ} (h : c ∈ write radix glyph width n) :
    ∃ d < radix, c = glyph d := by
  induction width generalizing n with
  | zero => cases h
  | succ width ih =>
    obtain hHigh | hLast := List.mem_append.mp h
    · exact ih hHigh
    · exact ⟨n % radix, Nat.mod_lt n hRadix, List.mem_singleton.mp hLast⟩

/-- A change of the symbols that no value depends on. -/
theorem read_map {f : γ → γ} (hf : ∀ c, value (f c) = value c) (limit : Nat) (text : List γ) :
    read radix value limit (text.map f) = read radix value limit text := by
  have hPush : (fun n c => push radix value limit n (f c)) = push radix value limit := by
    funext n c
    rw [push, push, hf]
  rw [read, read, List.foldlM_map, hPush]

theorem write_inj {width n m : Nat} (hRadix : 0 < radix) (hValue : ∀ d < radix, value (glyph d) = some d)
    (hn : n < radix ^ width) (hm : m < radix ^ width) (h : write radix glyph width n = write radix glyph width m) : n = m := by
  have hRead := read_write hRadix hValue hn hn
  rw [h, read_write hRadix hValue hm hm] at hRead
  exact (Option.some.inj hRead).symm

end RadixText
