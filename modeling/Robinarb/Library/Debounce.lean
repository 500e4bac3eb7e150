import Mathlib.Data.List.Basic

/-! # Batches under a timeout that every arrival re-arms

Items arrive at their times. A batch takes the items that come no later than a window after
the item before them, and is handed on when the window has passed or the source closes.
-/

namespace Debounce

universe u

variable {α : Type u} (time : α → Nat) (window : Nat) (closed : Option Nat)

/-- A batch whose last item came at the given time, with no other to come. -/
def handOn (armed : Nat) : Nat := closed.elim (armed + window) (min (armed + window))

/-- The batches of what is still to come, each with the time it is handed on. -/
def debounce : List α → Nat → List α → List (Nat × List α)
  | batch, armed, x :: rest =>
    if batch = [] ∨ time x ≤ armed + window then debounce (batch ++ [x]) (time x) rest
    else (armed + window, batch) :: debounce [x] (time x) rest
  | batch, armed, [] => if batch = [] then [] else [(handOn window closed armed, batch)]

variable {time window closed}

/-- Every item is in one batch, in the order of arrival. -/
theorem debounce_flatMap (batch : List α) (armed : Nat) (items : List α) :
    (debounce time window closed batch armed items).flatMap Prod.snd = batch ++ items := by
  induction items generalizing batch armed with
  | nil =>
    rw [debounce]
    split
    · simp [*]
    · simp
  | cons x rest ih =>
    rw [debounce]
    split
    · rw [ih, List.append_assoc, List.singleton_append]
    · rw [List.flatMap_cons, ih, List.singleton_append]

/-- While no item is later than a window after the one before, nothing is handed on. -/
theorem debounce_steady {batch items : List α} {armed : Nat} (hBatch : batch ≠ [])
    (hSteady : (armed :: items.map time).IsChain fun s t => t ≤ s + window) :
    debounce time window closed batch armed items =
      [(handOn window closed ((items.map time).getLastD armed), batch ++ items)] := by
  induction items generalizing batch armed with
  | nil => simp [debounce, hBatch]
  | cons x rest ih =>
    rw [List.map_cons, List.isChain_cons_cons] at hSteady
    rw [debounce, if_pos (.inr hSteady.1), ih (by simp) hSteady.2, List.append_assoc, List.singleton_append,
      List.map_cons, List.getLastD_cons]

/-- The times of a batch: every one but the first is at most a window after another. -/
structure Burst (time : α → Nat) (window : Nat) (batch : List α) (first last : Nat) : Prop where
  begins : ∃ x, batch.head? = some x ∧ time x = first
  ends : ∃ x ∈ batch, time x = last
  low : ∀ x ∈ batch, first ≤ time x
  high : ∀ x ∈ batch, time x ≤ last
  linked : ∀ x ∈ batch, first < time x → ∃ y ∈ batch, time y < time x ∧ time x ≤ time y + window
  second : first < last → ∃ x ∈ batch, first < time x ∧ time x ≤ first + window

theorem Burst.single (x : α) : Burst time window [x] (time x) (time x) where
  begins := ⟨x, rfl, rfl⟩
  ends := ⟨x, List.mem_singleton_self x, rfl⟩
  low := by simp
  high := by simp
  linked := by simp
  second h := absurd h (Nat.lt_irrefl _)

theorem Burst.snoc {batch : List α} {first last : Nat} (h : Burst time window batch first last) {x : α}
    (hLast : last ≤ time x) (hJoins : time x ≤ last + window) :
    Burst time window (batch ++ [x]) first (time x) := by
  have hSelf : x ∈ batch ++ [x] := List.mem_append_right _ (List.mem_singleton_self x)
  obtain ⟨z, hz, hzLast⟩ := h.ends
  have hFirst : first ≤ last := hzLast ▸ h.low z hz
  constructor
  · obtain ⟨y, hy, hTime⟩ := h.begins
    exact ⟨y, by rw [List.head?_append, hy, Option.some_or], hTime⟩
  · exact ⟨x, hSelf, rfl⟩
  · intro y hy
    rcases List.mem_append.mp hy with hy | hy
    · exact h.low y hy
    · rw [List.mem_singleton.mp hy]
      omega
  · intro y hy
    rcases List.mem_append.mp hy with hy | hy
    · exact Nat.le_trans (h.high y hy) hLast
    · exact Nat.le_of_eq (by rw [List.mem_singleton.mp hy])
  · intro y hy hLater
    rcases List.mem_append.mp hy with hy | hy
    · obtain ⟨w, hw, hBefore⟩ := h.linked y hy hLater
      exact ⟨w, List.mem_append_left _ hw, hBefore⟩
    · rw [List.mem_singleton.mp hy] at hLater ⊢
      by_cases hSame : last = time x
      · -- an item at the time of the last one is linked as that one is
        obtain ⟨w, hw, hBefore⟩ := h.linked z hz (by omega)
        exact ⟨w, List.mem_append_left _ hw, by omega⟩
      · exact ⟨z, List.mem_append_left _ hz, by omega⟩
  · intro hLater
    by_cases hOne : first < last
    · obtain ⟨w, hw, hNear⟩ := h.second hOne
      exact ⟨w, List.mem_append_left _ hw, hNear⟩
    · exact ⟨x, hSelf, by omega⟩

/-- A batch among all arrivals: no other comes within a window of it on either side. -/
structure Handed (time : α → Nat) (window : Nat) (closed : Option Nat) (items : List α) (out : Nat × List α)
    (first last : Nat) : Prop where
  burst : Burst time window out.2 first last
  alone_before : ∀ x ∈ items, time x < first → time x + window < first
  alone_after : ∀ x ∈ items, last < time x → last + window < time x
  by_window : out.1 ≤ last + window
  by_close : ∀ c ∈ closed, out.1 ≤ c
  cause : out.1 = last + window ∨ out.1 ∈ closed

theorem Burst.first_le_last {batch : List α} {first last : Nat} (h : Burst time window batch first last) :
    first ≤ last := by
  obtain ⟨x, hx, hLast⟩ := h.ends
  exact hLast ▸ h.low x hx

theorem debounce_handed (earlier : List α) {batch items : List α} {first armed : Nat}
    (hBurst : Burst time window batch first armed) (hEarlier : ∀ x ∈ earlier, time x + window < first)
    (hItems : ∀ x ∈ items, armed ≤ time x) (hSorted : items.Pairwise fun x y => time x ≤ time y)
    (hClosed : ∀ c ∈ closed, armed ≤ c ∧ ∀ x ∈ items, time x ≤ c) :
    ∀ out ∈ debounce time window closed batch armed items,
      ∃ first last, Handed time window closed (earlier ++ batch ++ items) out first last := by
  have hNonempty : batch ≠ [] := by
    rintro rfl
    obtain ⟨x, hx, -⟩ := hBurst.begins
    cases hx
  have hOrder := hBurst.first_le_last
  induction items generalizing earlier batch first armed with
  | nil =>
    intro out hOut
    rw [debounce, if_neg hNonempty] at hOut
    obtain rfl := List.mem_singleton.mp hOut
    refine ⟨first, armed, hBurst, ?_, ?_, ?_, ?_, ?_⟩
    · intro x hx hBefore
      rcases List.mem_append.mp (List.append_nil (earlier ++ batch) ▸ hx) with hx | hx
      · exact hEarlier x hx
      · exact absurd (hBurst.low x hx) (Nat.not_le_of_lt hBefore)
    · intro x hx hAfter
      rcases List.mem_append.mp (List.append_nil (earlier ++ batch) ▸ hx) with hx | hx
      · have := hEarlier x hx
        omega
      · exact absurd (hBurst.high x hx) (Nat.not_le_of_lt hAfter)
    · cases closed with
      | none => exact Nat.le_refl _
      | some c => exact Nat.min_le_left _ _
    · rintro c ⟨⟩
      exact Nat.min_le_right _ _
    · cases closed with
      | none => exact .inl rfl
      | some c =>
        rcases Nat.le_total (armed + window) c with h | h
        · exact .inl (Nat.min_eq_left h)
        · exact .inr (congrArg some (Nat.min_eq_right h).symm)
  | cons x rest ih =>
    obtain ⟨hArmed, hRest⟩ := List.forall_mem_cons.mp hItems
    obtain ⟨hFirst, hLater⟩ := List.pairwise_cons.mp hSorted
    have hClose : ∀ c ∈ closed, time x ≤ c ∧ ∀ y ∈ rest, time y ≤ c := fun c hc =>
      List.forall_mem_cons.mp (hClosed c hc).2
    rw [debounce]
    split
    · rename_i hJoins
      have hJoins := hJoins.resolve_left hNonempty
      have hAll : earlier ++ batch ++ x :: rest = earlier ++ (batch ++ [x]) ++ rest := by simp
      rw [hAll]
      exact ih earlier (hBurst.snoc hArmed hJoins) hEarlier hFirst hLater hClose (by simp) (Nat.le_trans hOrder hArmed)
    · rename_i hSplit
      have hGap : armed + window < time x := by omega
      intro out hOut
      rcases List.mem_cons.mp hOut with rfl | hOut
      · refine ⟨first, armed, hBurst, ?_, ?_, Nat.le_refl _, ?_, .inl rfl⟩
        · intro y hy hBefore
          rcases List.mem_append.mp hy with hy | hy
          · rcases List.mem_append.mp hy with hy | hy
            · exact hEarlier y hy
            · exact absurd (hBurst.low y hy) (Nat.not_le_of_lt hBefore)
          · have := hItems y hy
            omega
        · intro y hy hAfter
          rcases List.mem_append.mp hy with hy | hy
          · rcases List.mem_append.mp hy with hy | hy
            · have := hEarlier y hy
              omega
            · exact absurd (hBurst.high y hy) (Nat.not_le_of_lt hAfter)
          · rcases List.mem_cons.mp hy with rfl | hy
            · exact hGap
            · exact Nat.lt_of_lt_of_le hGap (hFirst y hy)
        · intro c hc
          have := (hClose c hc).1
          exact Nat.le_of_lt (Nat.lt_of_lt_of_le hGap this)
      · have hAll : earlier ++ batch ++ x :: rest = earlier ++ batch ++ [x] ++ rest := by simp
        rw [hAll]
        refine ih (earlier ++ batch) (Burst.single x) ?_ hFirst hLater hClose (by simp) (Nat.le_refl _) out hOut
        intro y hy
        rcases List.mem_append.mp hy with hy | hy
        · have := hEarlier y hy
          omega
        · have := hBurst.high y hy
          omega

/-- Each batch is handed on within a window of its first item if and only if nothing comes
later within a window of an item that had nothing in the window before it, unless the
source closes within that window. -/
theorem debounce_prompt_iff {items : List α} (hSorted : items.Pairwise fun x y => time x ≤ time y)
    (hClosed : ∀ c ∈ closed, ∀ x ∈ items, time x ≤ c) :
    (∀ out ∈ debounce time window closed [] 0 items, ∀ x ∈ out.2.head?, out.1 ≤ time x + window) ↔
      ∀ x ∈ items, (∀ y ∈ items, time y < time x → time y + window < time x) →
        (∃ c ∈ closed, c ≤ time x + window) ∨ ∀ y ∈ items, time x < time y → time x + window < time y := by
  have hHanded : ∀ out ∈ debounce time window closed [] 0 items,
      ∃ first last, Handed time window closed items out first last := by
    cases items with
    | nil => simp [debounce]
    | cons x rest =>
      obtain ⟨hFirst, hLater⟩ := List.pairwise_cons.mp hSorted
      rw [debounce, if_pos (.inl rfl)]
      exact debounce_handed [] (Burst.single x) nofun hFirst hLater fun c hc =>
        List.forall_mem_cons.mp (hClosed c hc)
  have hMem : ∀ y, y ∈ items ↔ ∃ out ∈ debounce time window closed [] 0 items, y ∈ out.2 := fun y => by
    rw [← List.mem_flatMap, debounce_flatMap, List.nil_append]
  constructor
  · intro hPrompt x hx hOpens
    obtain ⟨out, hOut, hIn⟩ := (hMem x).mp hx
    obtain ⟨first, last, h⟩ := hHanded out hOut
    obtain ⟨begin, hBegin, hFirst⟩ := h.burst.begins
    have hTime : out.1 ≤ first + window := hFirst ▸ hPrompt out hOut begin hBegin
    have hSame : time x = first := by
      by_contra hNe
      have hLow := h.burst.low x hIn
      obtain ⟨y, hy, hBefore, hNear⟩ := h.burst.linked x hIn (by omega)
      have := hOpens y ((hMem y).mpr ⟨out, hOut, hy⟩) hBefore
      omega
    by_cases hLater : ∃ y ∈ items, time x < time y ∧ time y ≤ time x + window
    · left
      obtain ⟨y, hy, hAfter, hNear⟩ := hLater
      have hLast : time y ≤ last := by
        by_contra hPast
        have hGap := h.alone_after y hy (by omega)
        have := h.burst.first_le_last
        omega
      rcases h.cause with hWindow | hClose
      · omega
      · exact ⟨out.1, hClose, by omega⟩
    · right
      intro y hy hAfter
      by_contra hNear
      exact hLater ⟨y, hy, hAfter, by omega⟩
  · intro hQuiet out hOut x hx
    obtain ⟨first, last, h⟩ := hHanded out hOut
    obtain ⟨begin, hBegin, hFirst⟩ := h.burst.begins
    obtain rfl : begin = x := Option.some.inj (hBegin.symm.trans hx)
    have hOpens : ∀ y ∈ items, time y < time begin → time y + window < time begin := by
      rw [hFirst]
      exact h.alone_before
    rcases hQuiet begin ((hMem begin).mpr ⟨out, hOut, List.mem_of_mem_head? hx⟩) hOpens with ⟨c, hc, hClose⟩ | hAlone
    · exact Nat.le_trans (h.by_close c hc) hClose
    · have hOne : ¬first < last := by
        intro hTwo
        obtain ⟨y, hy, hAfter, hNear⟩ := h.burst.second hTwo
        have := hAlone y ((hMem y).mpr ⟨out, hOut, hy⟩) (by omega)
        omega
      have := h.by_window
      omega

end Debounce
