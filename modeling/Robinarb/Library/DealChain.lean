import Mathlib.Data.List.Chain

/-! # Chains of deals

An amount goes through a list of venues; each takes what the venue before it gave. What
a dealer holds moves at every venue, by the amount that goes in and the one that comes
out. Where the venues join, only the two ends of a chain are left to see.
-/

namespace DealChain

universe u v w x y z

variable {τ : Type u} {α : Type v} {V : Type w} {M : Type x} {F : Type y} {F' : Type z}

/-- The amount on its way, what the venues remember, and the dealer's funds. -/
structure Deal (α : Type v) (M : Type x) (F : Type y) where
  amount : α
  venues : M
  funds : F

variable (swap : M → V → α → Option (α × M)) (ends : V → τ × τ) (move : F → τ → α → τ → α → F)

def deal (d : Deal α M F) (v : V) : Option (Deal α M F) :=
  (swap d.venues v d.amount).map fun r => ⟨r.1, r.2, move d.funds (ends v).1 d.amount (ends v).2 r.1⟩

def run (d : Deal α M F) (vs : List V) : Option (Deal α M F) := vs.foldlM (deal swap ends move) d

/-- Each venue takes in the kind that the one before it gives. -/
def Joins (vs : List V) : Prop := vs.IsChain fun v v' => (ends v).2 = (ends v').1

/-- What comes in at a joint goes out there again. -/
def Telescopes : Prop :=
  ∀ f i a j b k c, move (move f i a j b) j b k c = move f i a k c

variable {swap ends move}

theorem run_cons {d d' : Deal α M F} {v : V} {vs : List V} :
    run swap ends move d (v :: vs) = some d' ↔
      ∃ d₁, deal swap ends move d v = some d₁ ∧ run swap ends move d₁ vs = some d' := by
  rw [run, List.foldlM_cons]
  exact Option.bind_eq_some_iff

theorem run_append {d d' : Deal α M F} {vs ws : List V} :
    run swap ends move d (vs ++ ws) = some d' ↔
      ∃ d₁, run swap ends move d vs = some d₁ ∧ run swap ends move d₁ ws = some d' := by
  rw [run, List.foldlM_append]
  exact Option.bind_eq_some_iff

theorem deal_eq_some {d d' : Deal α M F} {v : V} :
    deal swap ends move d v = some d' ↔
      swap d.venues v d.amount = some (d'.amount, d'.venues) ∧
        d'.funds = move d.funds (ends v).1 d.amount (ends v).2 d'.amount := by
  unfold deal
  rw [Option.map_eq_some_iff]
  constructor
  · rintro ⟨r, hSwap, rfl⟩
    exact ⟨hSwap, rfl⟩
  · rintro ⟨hSwap, hFunds⟩
    refine ⟨_, hSwap, ?_⟩
    rw [← hFunds]

/-- A chain moves the funds as one deal from its first venue to its last. -/
theorem run_funds (hMove : Telescopes move) {d d' : Deal α M F} {v : V} {vs : List V}
    (hJoins : Joins ends (v :: vs)) (hRun : run swap ends move d (v :: vs) = some d') :
    d'.funds = move d.funds (ends v).1 d.amount
      (ends ((v :: vs).getLast (List.cons_ne_nil v vs))).2 d'.amount := by
  obtain ⟨d₁, hFirst, hRest⟩ := run_cons.mp hRun
  obtain ⟨-, hFunds⟩ := deal_eq_some.mp hFirst
  induction vs generalizing v d d₁ with
  | nil =>
    cases hRest
    exact hFunds
  | cons v' vs ih =>
    obtain ⟨hHere, hLater⟩ := List.isChain_cons_cons.mp hJoins
    obtain ⟨d₂, hNext, hTail⟩ := run_cons.mp hRest
    obtain ⟨-, hNextFunds⟩ := deal_eq_some.mp hNext
    rw [ih hLater hRest d₂ hNext hTail hNextFunds, hFunds, hHere, hMove, List.getLast_cons_cons]

theorem run_last {d d' : Deal α M F} {v : V} {vs : List V} (hRun : run swap ends move d (v :: vs) = some d') :
    ∃ d₁, deal swap ends move d₁ ((v :: vs).getLast (List.cons_ne_nil v vs)) = some d' := by
  induction vs generalizing v d with
  | nil =>
    obtain ⟨d₁, hFirst, hRest⟩ := run_cons.mp hRun
    cases hRest
    exact ⟨d, hFirst⟩
  | cons v' vs ih =>
    obtain ⟨d₁, -, hRest⟩ := run_cons.mp hRun
    rw [List.getLast_cons_cons]
    exact ih hRest

theorem run_watched {ends' : V → τ × τ} {move' : F' → τ → α → τ → α → F'} {d d' : Deal α M F}
    {vs : List V} (hRun : run swap ends move d vs = some d') (f : F') :
    ∃ f', run swap ends' move' ⟨d.amount, d.venues, f⟩ vs = some ⟨d'.amount, d'.venues, f'⟩ := by
  induction vs generalizing d f with
  | nil =>
    cases hRun
    exact ⟨f, rfl⟩
  | cons v vs ih =>
    obtain ⟨d₁, hFirst, hRest⟩ := run_cons.mp hRun
    obtain ⟨hSwap, -⟩ := deal_eq_some.mp hFirst
    obtain ⟨f', hTail⟩ := ih hRest (move' f (ends' v).1 d.amount (ends' v).2 d₁.amount)
    exact ⟨f', run_cons.mpr ⟨_, deal_eq_some.mpr ⟨hSwap, rfl⟩, hTail⟩⟩

end DealChain
