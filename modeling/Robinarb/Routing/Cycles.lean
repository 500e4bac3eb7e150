import Robinarb.Routing.Graph
import Mathlib.Data.List.Nodup

/-! # The cycles of the token graph

What an enumeration should find, twice: as a predicate on hop lists, and as the
list of all of them in depth-first order. The list has exactly the cycles, each
one once.
-/

namespace Robinarb

variable {L : Type}

section Definitions

variable (adj : Adjacency L)

/-- The hop is an edge at its input token and leads to `next`. -/
def Joins (hop : Hop) (next : Address) : Prop :=
  ∃ edge ∈ adj.edgesAt hop.tokenIn, edge.hop hop.tokenIn = hop ∧ edge.nextToken hop.tokenIn = some next

/-- Hops from one token to another: each input is the output before it. -/
def Trail : List Hop → Address → Address → Prop
  | [], a, b => a = b
  | hop :: rest, a, b => hop.tokenIn = a ∧ ∃ next, Joins adj hop next ∧ Trail rest next b

/-- A cycle through `anchor`. The input tokens are the anchor and the intermediate
tokens, so none of them repeats or equals the anchor. -/
structure Cycle (anchor : Address) (maxHops : Nat) (hops : List Hop) : Prop where
  trail : Trail adj hops anchor anchor
  atLeast : 2 ≤ hops.length
  atMost : hops.length ≤ maxHops
  pools : (hops.map Hop.pool).Nodup
  tokens : (hops.map Hop.tokenIn).Nodup

/-- The ways to finish a cycle that start with one edge. -/
def edgeCycles (anchor : Address) (deeper : List Nat → List Address → Address → List (List Hop))
    (used : List Nat) (visited : List Address) (current : Address) (edge : Edge L) : List (List Hop) :=
  if edge.pool ∈ used then
    []
  else
    match edge.nextToken current with
    | none => []
    | some next =>
      if next = anchor then
        if used = [] then [] else [[edge.hop current]]
      else if next ∈ visited then
        []
      else
        (deeper (used ++ [edge.pool]) (visited ++ [next]) next).map (edge.hop current :: ·)

/-- The ways to finish a cycle within `n` hops, in depth-first order. -/
def cyclesFrom (anchor : Address) : Nat → List Nat → List Address → Address → List (List Hop)
  | 0, _, _, _ => []
  | n + 1, used, visited, current =>
    (adj.edgesAt current).flatMap (edgeCycles anchor (cyclesFrom anchor n) used visited current)

def cycles (anchor : Address) (maxHops : Nat) : List (List Hop) := cyclesFrom adj anchor maxHops [] [anchor] anchor

structure CycleFrom (anchor : Address) (n : Nat) (used : List Nat) (visited : List Address) (current : Address)
    (hops : List Hop) : Prop where
  trail : Trail adj hops current anchor
  nonempty : hops ≠ []
  atLeast : used = [] → 2 ≤ hops.length
  atMost : hops.length ≤ n
  pools : (hops.map Hop.pool).Nodup
  fresh : ∀ hop ∈ hops, hop.pool ∉ used
  tokens : (hops.tail.map Hop.tokenIn).Nodup
  unvisited : ∀ hop ∈ hops.tail, hop.tokenIn ∉ visited

end Definitions

variable {adj : Adjacency L} {anchor current : Address} {n : Nat} {used : List Nat} {visited : List Address}
  {hops : List Hop}

theorem mem_edgeCycles {deeper : List Nat → List Address → Address → List (List Hop)} {edge : Edge L} :
    hops ∈ edgeCycles anchor deeper used visited current edge ↔
      edge.pool ∉ used ∧ ∃ next, edge.nextToken current = some next ∧
        (next = anchor ∧ used ≠ [] ∧ hops = [edge.hop current] ∨
          next ≠ anchor ∧ next ∉ visited ∧
            ∃ rest ∈ deeper (used ++ [edge.pool]) (visited ++ [next]) next, hops = edge.hop current :: rest) := by
  unfold edgeCycles
  split
  · rename_i hUsed
    simp [hUsed]
  · rename_i hUsed
    cases hNext : edge.nextToken current with
    | none => simp
    | some next =>
      by_cases hAnchor : next = anchor
      · by_cases hStart : used = [] <;> simp_all
      · by_cases hVisited : next ∈ visited
        · simp [hAnchor, hVisited]
        · simp [hUsed, hAnchor, hVisited, eq_comm (a := hops)]

/-- A trail that goes on from a token that is not its end has a next hop there. -/
theorem Trail.tokenIn_eq {hop : Hop} {rest : List Hop} {a b : Address} (h : Trail adj (hop :: rest) a b) :
    hop.tokenIn = a := h.1

theorem CycleFrom.of_cons {edge : Edge L} {next : Address} {rest : List Hop}
    (hEdge : edge ∈ adj.edgesAt current) (hNext : edge.nextToken current = some next) (hPool : edge.pool ∉ used)
    (hVisited : next ∉ visited)
    (h : CycleFrom adj anchor n (used ++ [edge.pool]) (visited ++ [next]) next rest) :
    CycleFrom adj anchor (n + 1) used visited current (edge.hop current :: rest) := by
  have hLength := List.length_pos_iff.mpr h.nonempty
  refine ⟨⟨rfl, next, ⟨edge, hEdge, rfl, hNext⟩, h.trail⟩, List.cons_ne_nil _ _, fun _ => ?_, ?_, ?_, ?_, ?_, ?_⟩
  · rw [List.length_cons]
    omega
  · rw [List.length_cons]
    exact Nat.succ_le_succ h.atMost
  · refine List.nodup_cons.mpr ⟨fun hMem => ?_, h.pools⟩
    obtain ⟨hop, hHop, hEq⟩ := List.mem_map.mp hMem
    exact h.fresh hop hHop (by rw [hEq]; exact List.mem_append_right _ (List.mem_singleton_self _))
  · rintro hop hMem
    obtain rfl | hMem := List.mem_cons.mp hMem
    · exact hPool
    · exact fun hUsed => h.fresh hop hMem (List.mem_append_left _ hUsed)
  · obtain ⟨first, tail, rfl⟩ := List.exists_cons_of_ne_nil h.nonempty
    refine List.nodup_cons.mpr ⟨fun hMem => ?_, h.tokens⟩
    obtain ⟨hop, hHop, hEq⟩ := List.mem_map.mp hMem
    refine h.unvisited hop hHop ?_
    rw [hEq, h.trail.tokenIn_eq]
    exact List.mem_append_right _ (List.mem_singleton_self _)
  · obtain ⟨first, tail, rfl⟩ := List.exists_cons_of_ne_nil h.nonempty
    rintro hop hMem
    obtain rfl | hMem := List.mem_cons.mp hMem
    · rwa [h.trail.tokenIn_eq]
    · exact fun hOld => h.unvisited hop hMem (List.mem_append_left _ hOld)

theorem CycleFrom.tail {hop : Hop} {rest : List Hop} {next : Address} (hAnchor : next ≠ anchor)
    (hTrail : Trail adj rest next anchor)
    (h : CycleFrom adj anchor (n + 1) used visited current (hop :: rest)) :
    next ∉ visited ∧ CycleFrom adj anchor n (used ++ [hop.pool]) (visited ++ [next]) next rest := by
  cases rest with
  | nil => exact absurd hTrail hAnchor
  | cons second rest =>
    have hSecond := hTrail.tokenIn_eq
    obtain ⟨hNot, hPools⟩ := List.nodup_cons.mp h.pools
    obtain ⟨hToken, hTokens⟩ := List.nodup_cons.mp h.tokens
    refine ⟨hSecond ▸ h.unvisited second List.mem_cons_self,
      ⟨hTrail, List.cons_ne_nil _ _, fun hUsed => absurd hUsed (by simp), Nat.le_of_succ_le_succ h.atMost,
        hPools, ?_, hTokens, ?_⟩⟩
    · intro later hMem hUsed
      obtain hUsed | hUsed := List.mem_append.mp hUsed
      · exact h.fresh later (List.mem_cons_of_mem _ hMem) hUsed
      · rw [List.mem_singleton] at hUsed
        exact hNot (hUsed ▸ List.mem_map_of_mem hMem)
    · intro later hMem hOld
      obtain hOld | hOld := List.mem_append.mp hOld
      · exact h.unvisited later (List.mem_cons_of_mem _ hMem) hOld
      · rw [List.mem_singleton] at hOld
        rw [hSecond, ← hOld] at hToken
        exact hToken (List.mem_map_of_mem hMem)

theorem mem_cyclesFrom (hAnchor : anchor ∈ visited) :
    hops ∈ cyclesFrom adj anchor n used visited current ↔ CycleFrom adj anchor n used visited current hops := by
  induction n generalizing used visited current hops with
  | zero =>
    refine iff_of_false List.not_mem_nil fun h => ?_
    exact h.nonempty (List.eq_nil_of_length_eq_zero (Nat.le_zero.mp h.atMost))
  | succ n ih =>
    simp only [cyclesFrom, List.mem_flatMap, mem_edgeCycles]
    constructor
    · rintro ⟨edge, hEdge, hPool, next, hNext, ⟨rfl, hUsed, rfl⟩ | ⟨_, hVisited, rest, hRest, rfl⟩⟩
      · refine ⟨⟨rfl, next, ⟨edge, hEdge, rfl, hNext⟩, rfl⟩, List.cons_ne_nil _ _, fun h => absurd h hUsed,
          Nat.succ_le_succ (Nat.zero_le n), List.nodup_singleton _, ?_, List.nodup_nil, nofun⟩
        intro hop hMem
        rwa [List.mem_singleton.mp hMem]
      · exact .of_cons hEdge hNext hPool hVisited ((ih (List.mem_append_left _ hAnchor)).mp hRest)
    · intro h
      obtain ⟨hop, rest, rfl⟩ := List.exists_cons_of_ne_nil h.nonempty
      obtain ⟨hToken, next, ⟨edge, hEdge, hHop, hNext⟩, hTrail⟩ := h.trail
      rw [hToken] at hEdge hHop hNext
      have hPool : edge.pool = hop.pool := congrArg Hop.pool hHop
      refine ⟨edge, hEdge, hPool ▸ h.fresh hop List.mem_cons_self, next, hNext, ?_⟩
      by_cases hClose : next = anchor
      · subst hClose
        have hNil : rest = [] := by
          cases rest with
          | nil => rfl
          | cons second rest =>
            exact absurd hAnchor (hTrail.tokenIn_eq ▸ h.unvisited second List.mem_cons_self)
        subst hNil
        exact .inl ⟨rfl, fun hUsed => absurd (h.atLeast hUsed) (by simp), by rw [hHop]⟩
      · obtain ⟨hVisited, hRest⟩ := h.tail hClose hTrail
        refine .inr ⟨hClose, hVisited, rest, ?_, by rw [hHop]⟩
        rw [hPool]
        exact (ih (List.mem_append_left _ hAnchor)).mpr hRest

theorem mem_cycles {maxHops : Nat} : hops ∈ cycles adj anchor maxHops ↔ Cycle adj anchor maxHops hops := by
  rw [cycles, mem_cyclesFrom (List.mem_singleton_self _)]
  constructor
  · intro h
    obtain ⟨hop, rest, rfl⟩ := List.exists_cons_of_ne_nil h.nonempty
    refine ⟨h.trail, h.atLeast rfl, h.atMost, h.pools, List.nodup_cons.mpr ⟨fun hMem => ?_, h.tokens⟩⟩
    obtain ⟨later, hLater, hEq⟩ := List.mem_map.mp hMem
    exact h.unvisited later hLater (List.mem_singleton.mpr (hEq.trans h.trail.tokenIn_eq))
  · intro h
    have hPos : 0 < hops.length := Nat.lt_of_lt_of_le (by decide) h.atLeast
    obtain ⟨hop, rest, rfl⟩ := List.exists_cons_of_ne_nil (List.ne_nil_of_length_pos hPos)
    obtain ⟨hToken, hTokens⟩ := List.nodup_cons.mp h.tokens
    refine ⟨h.trail, List.cons_ne_nil _ _, fun _ => h.atLeast, h.atMost, h.pools, fun _ _ => List.not_mem_nil,
      hTokens, fun later hMem hOld => hToken ?_⟩
    rw [h.trail.tokenIn_eq, ← List.mem_singleton.mp hOld]
    exact List.mem_map_of_mem hMem

theorem Edge.ne_of_nextToken {edge : Edge L} {next : Address} (hNext : edge.nextToken current = some next)
    (hLeaves : next ≠ current) : edge.token0 ≠ edge.token1 := by
  intro hLoop
  apply hLeaves
  unfold Edge.nextToken at hNext
  split at hNext
  · rename_i hToken
    rw [← Option.some.inj hNext, ← hLoop, hToken]
  · split at hNext
    · rename_i hToken
      rw [← Option.some.inj hNext, hLoop, hToken]
    · cases hNext

theorem eq_cons_of_mem_edgeCycles {deeper : List Nat → List Address → Address → List (List Hop)} {edge : Edge L}
    (hCurrent : current ∈ visited) (hStart : current = anchor → used = [])
    (h : hops ∈ edgeCycles anchor deeper used visited current edge) :
    ∃ rest, hops = edge.hop current :: rest ∧ edge.token0 ≠ edge.token1 := by
  obtain ⟨_, next, hNext, hCases⟩ := mem_edgeCycles.mp h
  have hLeaves : next ≠ current := by
    rintro rfl
    obtain ⟨hAnchor, hUsed, _⟩ | ⟨_, hVisited, _⟩ := hCases
    · exact hUsed (hStart hAnchor)
    · exact hVisited hCurrent
  refine ⟨hops.tail, ?_, Edge.ne_of_nextToken hNext hLeaves⟩
  rcases hCases with ⟨_, _, rfl⟩ | ⟨_, _, rest, _, rfl⟩ <;> rfl

theorem cyclesFrom_nodup {engine : Engine} (hValid : adj.Valid engine) (hAnchor : anchor ∈ visited)
    (hCurrent : current ∈ visited) (hStart : current = anchor → used = []) :
    (cyclesFrom adj anchor n used visited current).Nodup := by
  induction n generalizing used visited current with
  | zero => exact List.nodup_nil
  | succ n ih =>
    refine List.nodup_flatMap.mpr ⟨fun edge _ => ?_, ?_⟩
    · unfold edgeCycles
      split
      · exact List.nodup_nil
      · cases edge.nextToken current with
        | none => exact List.nodup_nil
        | some next =>
          by_cases hClose : next = anchor
          · by_cases hUsed : used = [] <;> simp [hClose, hUsed]
          · by_cases hOld : next ∈ visited
            · simp [hClose, hOld]
            · simp only [hClose, hOld, if_false]
              refine List.Nodup.map (List.cons_injective) (ih (List.mem_append_left _ hAnchor)
                (List.mem_append_right _ (List.mem_singleton_self _)) fun h => absurd h hClose)
    · refine (hValid.distinct current).imp fun {e f} hDistinct hops he hf => ?_
      obtain ⟨_, rfl, hLoop⟩ := eq_cons_of_mem_edgeCycles hCurrent hStart he
      obtain ⟨_, hEq, _⟩ := eq_cons_of_mem_edgeCycles hCurrent hStart hf
      exact hLoop (hDistinct (congrArg Hop.pool (List.cons.inj hEq).1)).1

theorem cycles_nodup {engine : Engine} (hValid : adj.Valid engine) (maxHops : Nat) :
    (cycles adj anchor maxHops).Nodup :=
  cyclesFrom_nodup hValid (List.mem_singleton_self _) (List.mem_singleton_self _) fun _ => rfl

end Robinarb
