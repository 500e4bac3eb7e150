import Mathlib.Data.List.Basic
import Mathlib.Tactic.Common

/-! # Arrays filled behind a cursor

An array of blanks and a cursor: each entry is put where the cursor stands, and an entry past
the end fails. With room for every item, what is filled is the list of the items' entries.
-/

namespace CursorFill

universe u v

variable {α : Type u} {β : Type v}

def put (s : List α × Nat) (x : α) : Option (List α × Nat) :=
  if s.2 < s.1.length then some (s.1.set s.2 x, s.2 + 1) else none

/-- What has been put, and room for so much more. -/
def filled (done : List α) (blank : α) (room : Nat) : List α × Nat := (done ++ List.replicate room blank, done.length)

variable {done : List α} {blank : α}

theorem put_filled (x : α) (room : Nat) : put (filled done blank (room + 1)) x = some (filled (done ++ [x]) blank room) := by
  have hRoom : done.length < (done ++ List.replicate (room + 1) blank).length := by
    rw [List.length_append, List.length_replicate]
    omega
  have hSet : (done ++ List.replicate (room + 1) blank).set done.length x = done ++ [x] ++ List.replicate room blank := by
    rw [List.set_append_right _ _ (Nat.le_refl _), Nat.sub_self, List.replicate_succ, List.set_cons_zero, List.append_assoc]
    rfl
  rw [put, filled, if_pos hRoom, filled, hSet, List.length_append]
  rfl

theorem foldlM_put {produce : β → Option α} (items : List β) (room : Nat) :
    items.foldlM (fun s i => (produce i).bind (put s)) (filled done blank (items.length + room)) =
      (items.mapM produce).map fun xs => filled (done ++ xs) blank room := by
  induction items generalizing done with
  | nil => simp
  | cons i rest ih =>
    rw [List.foldlM_cons, List.mapM_cons, List.length_cons, Nat.add_right_comm]
    cases produce i with
    | none => rfl
    | some x =>
      rw [Option.bind_some, put_filled]
      change rest.foldlM (fun s i => (produce i).bind (put s)) (filled (done ++ [x]) blank (rest.length + room)) = _
      rw [ih]
      cases rest.mapM produce with
      | none => rfl
      | some xs =>
        change some (filled (done ++ [x] ++ xs) blank room) = some (filled (done ++ x :: xs) blank room)
        rw [List.append_assoc]
        rfl

end CursorFill
