import Mathlib.Data.List.Basic

/-! # Searches with a limit that is not checked everywhere

A search that should stop after `limit` results may still pick up a few later
ones. Its output is the first `limit` results and a sublist of the others, and it
keeps the limit exactly when the result that reached it is not an overrunning
one. The rules follow the search through single results and through subsearches.
-/

namespace Overrun

universe u v

variable {α : Type u} {β : Type v}

/-- `out` is the output for the results `all`; `late` are the results that overrun
when they reach the limit. -/
def Limited (late : α → Prop) (limit : Nat) (all out : List α) : Prop :=
  ∃ extras, out = all.take limit ++ extras ∧ extras.Sublist (all.drop limit) ∧
    (extras = [] ↔ ∀ last, all[limit - 1]? = some last → ¬late last)

variable {late late' : α → Prop} {limit : Nat} {all out rest extras : List α}

theorem Limited.nil : Limited late limit [] [] :=
  ⟨[], by simp, by simp, by simp⟩

theorem Limited.sublist (h : Limited late limit all out) : out.Sublist all := by
  obtain ⟨extras, rfl, hExtras, _⟩ := h
  have hAppend := (List.Sublist.refl (all.take limit)).append hExtras
  rwa [List.take_append_drop] at hAppend

theorem Limited.eq_of_lt (h : Limited late limit all out) (hShort : out.length < limit) : out = all := by
  obtain ⟨extras, rfl, hExtras, _⟩ := h
  rw [List.length_append, List.length_take] at hShort
  have hAll : all.length ≤ limit := by omega
  rw [List.drop_eq_nil_of_le hAll, List.sublist_nil] at hExtras
  rw [hExtras, List.take_of_length_le hAll, List.append_nil]

/-- The limit is kept exactly when the result that reached it does not overrun. -/
theorem Limited.length_le_iff (h : Limited late limit all out) :
    out.length ≤ limit ↔ ∀ last, all[limit - 1]? = some last → ¬late last := by
  obtain ⟨extras, rfl, hExtras, hIff⟩ := h
  rw [← hIff, List.length_append, List.length_take]
  constructor
  · intro hLe
    obtain hLong | hShort := Nat.lt_or_ge limit all.length
    · exact List.eq_nil_of_length_eq_zero (by omega)
    · rwa [List.drop_eq_nil_of_le hShort, List.sublist_nil] at hExtras
  · rintro rfl
    exact Nat.min_le_left _ _

/-- A single result that reaches the limit and ends the search. -/
theorem Limited.last {x : α} (hx : ¬late x) : Limited late 1 (x :: rest) [x] := by
  refine ⟨[], by simp, List.nil_sublist _, iff_of_true rfl ?_⟩
  rintro last hLast
  cases hLast
  exact hx

/-- A search that starts with a subsearch below the limit. -/
theorem Limited.append (hShort : all.length < limit) (h : Limited late (limit - all.length) rest out) :
    Limited late limit (all ++ rest) (all ++ out) := by
  obtain ⟨extras, rfl, hExtras, hIff⟩ := h
  refine ⟨extras, ?_, ?_, ?_⟩
  · rw [List.take_append, List.take_of_length_le (Nat.le_of_lt hShort), List.append_assoc]
  · rw [List.drop_append, List.drop_eq_nil_of_le (Nat.le_of_lt hShort), List.nil_append]
    exact hExtras
  · rw [hIff, List.getElem?_append_right (by omega)]
    rw [show limit - 1 - all.length = limit - all.length - 1 by omega]

theorem Limited.cons {x : α} (hMore : 1 < limit) (h : Limited late (limit - 1) rest out) :
    Limited late limit (x :: rest) (x :: out) :=
  show Limited late limit ([x] ++ rest) ([x] ++ out) from Limited.append hMore h

/-- A subsearch that reaches the limit, then a rest that is not searched but may
still add results. -/
theorem Limited.append_full {overrun : Prop} (hReached : limit ≤ all.length) (hPos : 0 < limit)
    (h : Limited late' limit all out) (hExtras : extras.Sublist rest) (hOverrun : extras = [] ↔ ¬overrun)
    (hLate : ∀ last ∈ all, late last ↔ late' last ∨ overrun) :
    Limited late limit (all ++ rest) (out ++ extras) := by
  obtain ⟨first, rfl, hFirst, hIff⟩ := h
  refine ⟨first ++ extras, ?_, ?_, ?_⟩
  · rw [List.take_append_of_le_length hReached, List.append_assoc]
  · rw [List.drop_append_of_le_length hReached]
    exact hFirst.append hExtras
  · rw [List.append_eq_nil_iff, hIff, hOverrun, List.getElem?_append_left (by omega)]
    obtain ⟨last, hLast⟩ : ∃ last, all[limit - 1]? = some last :=
      ⟨_, List.getElem?_eq_getElem (by omega)⟩
    have hBoth := hLate last (List.mem_of_getElem? hLast)
    simp only [hLast, Option.some.injEq, forall_eq', hBoth, not_or]

/-- Results of a subsearch under a change of their form. -/
theorem Limited.map {late' : β → Prop} (f : α → β) (hLate : ∀ last ∈ all, late' (f last) ↔ late last)
    (h : Limited late limit all out) : Limited late' limit (all.map f) (out.map f) := by
  obtain ⟨extras, rfl, hExtras, hIff⟩ := h
  refine ⟨extras.map f, by rw [List.map_append, List.map_take], ?_, ?_⟩
  · rw [← List.map_drop]
    exact hExtras.map f
  · rw [List.map_eq_nil_iff, hIff, List.getElem?_map]
    cases hLast : all[limit - 1]? with
    | none => simp
    | some last =>
      simp only [Option.map_some, Option.some.injEq, forall_eq', hLate last (List.mem_of_getElem? hLast)]

end Overrun
