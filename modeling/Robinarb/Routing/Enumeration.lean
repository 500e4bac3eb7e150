import Robinarb.Library.Overrun
import Robinarb.Routing.Cycles

/-! # What the cycle enumeration produces

The search leaves its stacks as it found them and appends cycles in depth-first
order. It checks the limit when it enters a node and after a closing edge, not when
it comes back from a deeper node, so each node it comes back to may still close
one cycle more.
-/

namespace Robinarb

open Overrun

variable {L : Type}

section Definitions

variable (adj : Adjacency L) (anchor : Address)

/-- After the edge of a hop, the list of its token has an edge back to the anchor
over a pool that is not in use. -/
def ClosesAfter (used : List Nat) (hop : Hop) : Prop :=
  ∃ earlier edge later, adj.edgesAt hop.tokenIn = earlier ++ edge :: later ∧ edge.pool = hop.pool ∧
    ∃ closing ∈ later, closing.pool ∉ used ∧ closing.nextToken hop.tokenIn = some anchor

/-- An intermediate token has an edge back to the anchor over a pool that is not in use. -/
def ClosesIn (used : List Nat) (current : Address) (edges : List (Edge L)) : Prop :=
  ∃ closing ∈ edges, used ≠ [] ∧ closing.pool ∉ used ∧ closing.nextToken current = some anchor

/-- Some hop of the path, neither its last nor one out of the anchor, is followed by a closing edge. -/
def LateFrom : List Nat → List Hop → Prop
  | _, [] => False
  | _, [_] => False
  | used, hop :: next :: rest =>
    used ≠ [] ∧ ClosesAfter adj anchor used hop ∨ LateFrom (used ++ [hop.pool]) (next :: rest)

end Definitions

namespace DfsState

def emit (start : Address) (s : DfsState) (hops : List Hop) : DfsState :=
  { s with routes := s.routes ++ [⟨s.nextId, start, hops⟩], nextId := s.nextId + 1 }

/-- The state with some routes appended and its stacks as they were. -/
def emitAll (start : Address) (s : DfsState) (found : List (List Hop)) : DfsState := found.foldl (emit start) s

section EmitAll

variable (start : Address) (s : DfsState) (found : List (List Hop))

@[simp] theorem emitAll_nil : s.emitAll start [] = s := rfl

@[simp] theorem emitAll_cons (hops : List Hop) :
    s.emitAll start (hops :: found) = (s.emit start hops).emitAll start found := rfl

theorem emitAll_append (more : List (List Hop)) :
    s.emitAll start (found ++ more) = (s.emitAll start found).emitAll start more :=
  List.foldl_append

@[simp] theorem emitAll_path : (s.emitAll start found).path = s.path := by
  induction found generalizing s with
  | nil => rfl
  | cons hops rest ih => exact ih _

@[simp] theorem emitAll_usedPools : (s.emitAll start found).usedPools = s.usedPools := by
  induction found generalizing s with
  | nil => rfl
  | cons hops rest ih => exact ih _

@[simp] theorem emitAll_visitedTokens : (s.emitAll start found).visitedTokens = s.visitedTokens := by
  induction found generalizing s with
  | nil => rfl
  | cons hops rest ih => exact ih _

theorem emitAll_hops : (s.emitAll start found).routes.map Route.hops = s.routes.map Route.hops ++ found := by
  induction found generalizing s with
  | nil => simp
  | cons hops rest ih =>
    rw [emitAll_cons, ih]
    simp [emit]

@[simp] theorem emitAll_length : (s.emitAll start found).routes.length = s.routes.length + found.length := by
  have hLength := congrArg List.length (emitAll_hops start s found)
  simpa using hLength

theorem emitAll_anchor (h : ∀ route ∈ s.routes, route.anchor = start) :
    ∀ route ∈ (s.emitAll start found).routes, route.anchor = start := by
  induction found generalizing s with
  | nil => exact h
  | cons hops rest ih =>
    refine ih _ fun route hMem => ?_
    obtain hOld | hNew := List.mem_append.mp hMem
    · exact h route hOld
    · rw [List.mem_singleton.mp hNew]

end EmitAll

theorem close_eq (s : DfsState) (start : Address) (hop : Hop) : s.close start hop = s.emit start (s.path ++ [hop]) := by
  simp [close, emit]

/-- What a deeper call appends stays when its stack entries are popped. -/
theorem push_emitAll_pop (s : DfsState) (start : Address) (hop : Hop) (token : Address) (found : List (List Hop)) :
    ((s.push hop token).emitAll start found).pop = s.emitAll start found := by
  induction found generalizing s with
  | nil => simp [push, pop]
  | cons hops rest ih => exact ih (s.emit start hops)

end DfsState

variable {adj : Adjacency L} {engine : Engine} {start current : Address} {maxHops maxRoutes n : Nat} {s : DfsState}

section Full

/-- At the limit a loop appends at most one closing cycle. -/
theorem edgeLoop_full (current : Address) {recurse : Address → DfsState → DfsState}
    (hRecurse : ∀ next t, maxRoutes ≤ t.routes.length → recurse next t = t) (hFull : maxRoutes ≤ s.routes.length)
    (hDepth : s.usedPools.length = s.path.length)
    (deeper : List Nat → List Address → Address → List (List Hop)) (edges : List (Edge L)) :
    ∃ extras, edgeLoop start maxRoutes recurse current s.path.length edges s =
        s.emitAll start (extras.map (s.path ++ ·)) ∧
      extras.Sublist (edges.flatMap (edgeCycles start deeper s.usedPools s.visitedTokens current)) ∧
      (extras = [] ↔ ¬ClosesIn start s.usedPools current edges) := by
  induction edges with
  | nil => exact ⟨[], rfl, List.nil_sublist _, by simp [ClosesIn]⟩
  | cons edge rest ih =>
    obtain ⟨extras, hLoop, hSub, hNone⟩ := ih
    have hSkip : ClosesIn start s.usedPools current (edge :: rest) ↔
        (s.usedPools ≠ [] ∧ edge.pool ∉ s.usedPools ∧ edge.nextToken current = some start) ∨
          ClosesIn start s.usedPools current rest := by
      simp only [ClosesIn, List.mem_cons, or_and_right, exists_or, exists_eq_left]
    have hMore : extras.Sublist ((edge :: rest).flatMap (edgeCycles start deeper s.usedPools s.visitedTokens current)) :=
      hSub.trans (List.sublist_append_right _ _)
    rw [hSkip]
    unfold edgeLoop
    by_cases hUsed : edge.pool ∈ s.usedPools
    · exact ⟨extras, by rw [if_pos hUsed, hLoop], hMore, by simp [hUsed, hNone]⟩
    rw [if_neg hUsed]
    rcases hNext : edge.nextToken current with _ | next
    · exact ⟨extras, hLoop, hMore, by simp [hNone]⟩
    dsimp only
    by_cases hClose : next = start
    · subst hClose
      rw [if_pos rfl]
      by_cases hStart : s.usedPools = []
      · have hZero : s.path.length = 0 := by rw [← hDepth, hStart, List.length_nil]
        exact ⟨extras, by rw [if_neg (by omega), hLoop], hMore, by simp [hStart, hNone]⟩
      · have hPos := List.length_pos_iff.mpr hStart
        refine ⟨[[edge.hop current]], ?_, ?_, by simp [hStart, hUsed]⟩
        · rw [if_pos (by omega), if_pos (by simp [DfsState.close]; omega), DfsState.close_eq]
          rfl
        · have hEdge : edgeCycles next deeper s.usedPools s.visitedTokens current edge = [[edge.hop current]] := by
            simp [edgeCycles, hUsed, hNext, hStart]
          rw [List.flatMap_cons, hEdge]
          exact List.sublist_append_left _ _
    · rw [if_neg hClose]
      refine ⟨extras, ?_, hMore, by simp [hClose, hNone]⟩
      by_cases hVisited : next ∈ s.visitedTokens
      · rw [if_pos hVisited, hLoop]
      · rw [if_neg hVisited, hRecurse next (s.push (edge.hop current) next) hFull]
        have hPop := DfsState.push_emitAll_pop s start (edge.hop current) next []
        rw [DfsState.emitAll_nil, DfsState.emitAll_nil] at hPop
        rw [hPop, hLoop]

theorem dfs_full (hFull : maxRoutes ≤ s.routes.length) : dfs adj start maxHops maxRoutes n current s = s := by
  cases n with
  | zero => rfl
  | succ n => rw [dfs, if_pos hFull]

end Full

section Limit

theorem pair_sublist {α : Type} {a b : α} {xs ys : List α} (ha : a ∈ xs) (hb : b ∈ ys) :
    [a, b].Sublist (xs ++ ys) :=
  (List.singleton_sublist.mpr ha).append (List.singleton_sublist.mpr hb)

/-- The edge of a hop is the only one of its pool in its list. -/
theorem closesAfter_iff (hValid : adj.Valid engine) {edge : Edge L} {earlier later : List (Edge L)}
    (hEdges : adj.edgesAt current = earlier ++ edge :: later) (hLoop : edge.token0 ≠ edge.token1) {used : List Nat} :
    ClosesAfter adj start used (edge.hop current) ↔
      ∃ closing ∈ later, closing.pool ∉ used ∧ closing.nextToken current = some start := by
  have hDistinct := hValid.distinct current
  constructor
  · rintro ⟨before, same, after, hEq, hPool, hClosing⟩
    have hSplit : before ++ same :: after = earlier ++ edge :: later := hEq.symm.trans hEdges
    suffices hLater : after = later from hLater ▸ hClosing
    have hNever : ∀ e f : Edge L, [e, f].Sublist (adj.edgesAt current) → e.pool = f.pool →
        e.token0 = e.token1 ∧ f.token0 = f.token1 := fun e f hSub hPools => by
      simpa [hPools] using hDistinct.sublist hSub
    obtain ⟨between, hBefore, hAfter⟩ | ⟨between, hBefore, hAfter⟩ := List.append_eq_append_iff.mp hSplit
    · obtain ⟨_, hHere⟩ | ⟨rest, rfl, _⟩ := List.cons_eq_append_iff.mp hAfter
      · exact (List.cons.inj hHere).2.symm
      · refine absurd (hNever same edge ?_ hPool).2 hLoop
        rw [hEdges, hBefore]
        exact pair_sublist (List.mem_append_right _ List.mem_cons_self) List.mem_cons_self
    · obtain ⟨_, hHere⟩ | ⟨rest, rfl, _⟩ := List.cons_eq_append_iff.mp hAfter
      · exact (List.cons.inj hHere).2
      · refine absurd (hNever edge same ?_ hPool.symm).1 hLoop
        rw [show adj.edgesAt current = before ++ same :: after from hEq, hBefore]
        exact pair_sublist (List.mem_append_right _ List.mem_cons_self) List.mem_cons_self
  · rintro ⟨closing, hMem, hFresh, hNext⟩
    exact ⟨earlier, edge, later, hEdges, rfl, closing, hMem, hFresh, hNext⟩

/-- The stacks on entering a node with `n` hops left. -/
structure Balanced (start : Address) (maxHops n : Nat) (current : Address) (s : DfsState) : Prop where
  start_mem : start ∈ s.visitedTokens
  current_mem : current ∈ s.visitedTokens
  rooted : current = start → s.usedPools = []
  depth : s.path.length + n = maxHops
  pools : s.usedPools.length = s.path.length

theorem Balanced.push {hop : Hop} {next : Address} (h : Balanced start maxHops (n + 1) current s)
    (hNext : next ≠ start) : Balanced start maxHops n next (s.push hop next) where
  start_mem := List.mem_append_left _ h.start_mem
  current_mem := List.mem_append_right _ (List.mem_singleton_self _)
  rooted hEq := absurd hEq hNext
  depth := by
    have hDepth := h.depth
    simp only [DfsState.push, List.length_append, List.length_singleton]
    omega
  pools := by
    simp only [DfsState.push, List.length_append, List.length_singleton, h.pools]

theorem Balanced.emitAll (h : Balanced start maxHops n current s) (found : List (List Hop)) :
    Balanced start maxHops n current (s.emitAll start found) where
  start_mem := by simpa using h.start_mem
  current_mem := by simpa using h.current_mem
  rooted := by simpa using h.rooted
  depth := by simpa using h.depth
  pools := by simpa using h.pools

/-- What a call below the limit appends: the cycles of its node, cut at the limit. -/
def Enumerates (adj : Adjacency L) (start : Address) (maxRoutes : Nat) (s t : DfsState)
    (all : List (List Hop)) : Prop :=
  ∃ found, t = s.emitAll start (found.map (s.path ++ ·)) ∧
    Limited (LateFrom adj start s.usedPools) (maxRoutes - s.routes.length) all found

theorem Enumerates.nil : Enumerates adj start maxRoutes s s [] := ⟨[], rfl, .nil⟩

/-- A closing edge: its cycle comes first, and the loop goes on below the limit. -/
theorem Enumerates.close {hop : Hop} {rest : List (List Hop)} {loop : DfsState → DfsState}
    (hBelow : s.routes.length < maxRoutes)
    (hLoop : (s.emit start (s.path ++ [hop])).routes.length < maxRoutes →
      Enumerates adj start maxRoutes (s.emit start (s.path ++ [hop])) (loop (s.emit start (s.path ++ [hop]))) rest) :
    Enumerates adj start maxRoutes s
      (if maxRoutes ≤ (s.close start hop).routes.length then s.close start hop else loop (s.close start hop))
      ([hop] :: rest) := by
  rw [DfsState.close_eq]
  have hLength : (s.emit start (s.path ++ [hop])).routes.length = s.routes.length + 1 := by
    simp [DfsState.emit]
  by_cases hLast : maxRoutes ≤ (s.emit start (s.path ++ [hop])).routes.length
  · rw [if_pos hLast]
    refine ⟨[[hop]], rfl, ?_⟩
    rw [show maxRoutes - s.routes.length = 1 by omega]
    exact .last id
  · rw [if_neg hLast]
    obtain ⟨found, hFound, hLimited⟩ := hLoop (not_le.mp hLast)
    refine ⟨[hop] :: found, hFound, .cons (by omega) ?_⟩
    rw [hLength, ← Nat.sub_sub] at hLimited
    exact hLimited

/-- An edge to a new token: the deeper cycles come first. Below the limit the loop
goes on, at the limit it may still append a closing cycle. -/
theorem Enumerates.deeper {edge : Edge L} {next : Address} {all rest : List (List Hop)} {below t : DfsState}
    (loop : DfsState → DfsState) (overrun : Prop) (hBelow : s.routes.length < maxRoutes)
    (hDeeper : Enumerates adj start maxRoutes (s.push (edge.hop current) next) below all)
    (hLate : ∀ last ∈ all, LateFrom adj start s.usedPools (edge.hop current :: last) ↔
      LateFrom adj start (s.usedPools ++ [edge.pool]) last ∨ overrun)
    (hLoop : ∀ found : List (List Hop), t = s.emitAll start (found.map (s.path ++ ·)) → t.routes.length < maxRoutes →
      Enumerates adj start maxRoutes t (loop t) rest)
    (hFull : ∀ found : List (List Hop), t = s.emitAll start (found.map (s.path ++ ·)) → maxRoutes ≤ t.routes.length →
      ∃ extras, loop t = t.emitAll start (extras.map (s.path ++ ·)) ∧ extras.Sublist rest ∧
        (extras = [] ↔ ¬overrun))
    (hBack : below.pop = t) :
    Enumerates adj start maxRoutes s (loop t) (all.map (edge.hop current :: ·) ++ rest) := by
  obtain ⟨found, hFound, hLimited⟩ := hDeeper
  have hPrefixed : Limited (fun hops => LateFrom adj start (s.usedPools ++ [edge.pool]) hops.tail)
      (maxRoutes - s.routes.length) (all.map (edge.hop current :: ·)) (found.map (edge.hop current :: ·)) :=
    hLimited.map _ fun _ _ => Iff.rfl
  have hState : t = s.emitAll start ((found.map (edge.hop current :: ·)).map (s.path ++ ·)) := by
    rw [← hBack, hFound, DfsState.push_emitAll_pop, List.map_map]
    congr 1
    refine List.map_congr_left fun hops _ => ?_
    simp [DfsState.push]
  generalize found.map (edge.hop current :: ·) = prefixed at hPrefixed hState
  have hLength : t.routes.length = s.routes.length + prefixed.length := by
    rw [hState, DfsState.emitAll_length, List.length_map]
  have hPath : t.path = s.path := by rw [hState, DfsState.emitAll_path]
  have hPools : t.usedPools = s.usedPools := by rw [hState, DfsState.emitAll_usedPools]
  obtain hMore | hReached := Nat.lt_or_ge t.routes.length maxRoutes
  · obtain ⟨more, hLoopEq, hRest⟩ := hLoop prefixed hState hMore
    have hAll := hPrefixed.eq_of_lt (by omega)
    refine ⟨prefixed ++ more, ?_, ?_⟩
    · rw [hLoopEq, hPath, List.map_append, DfsState.emitAll_append, ← hState]
    · rw [← hAll]
      refine .append (by omega) ?_
      rwa [Nat.sub_sub, ← hLength, ← hPools]
  · obtain ⟨extras, hLoopEq, hSub, hNone⟩ := hFull prefixed hState hReached
    have hLong := hPrefixed.sublist.length_le
    refine ⟨prefixed ++ extras, ?_, hPrefixed.append_full (by omega) (by omega) hSub hNone fun last hMem => ?_⟩
    · rw [hLoopEq, List.map_append, DfsState.emitAll_append, ← hState]
    · obtain ⟨tail, hTail, rfl⟩ := List.mem_map.mp hMem
      exact hLate tail hTail

/-- A deeper cycle overruns through its first hop or further down. -/
theorem lateFrom_cons_iff (hValid : adj.Valid engine) {edge : Edge L} {earlier later : List (Edge L)}
    (hEdges : adj.edgesAt current = earlier ++ edge :: later) (hLoop : edge.token0 ≠ edge.token1) {used : List Nat}
    {last : List Hop} (hNonempty : last ≠ []) :
    LateFrom adj start used (edge.hop current :: last) ↔ LateFrom adj start (used ++ [edge.pool]) last ∨
      ClosesIn start used current later := by
  obtain ⟨second, tail, rfl⟩ := List.exists_cons_of_ne_nil hNonempty
  rw [LateFrom, closesAfter_iff hValid hEdges hLoop, or_comm]
  refine or_congr_right ⟨?_, ?_⟩
  · rintro ⟨hStart, closing, hClosing, hFresh, hEnd⟩
    exact ⟨closing, hClosing, hStart, hFresh, hEnd⟩
  · rintro ⟨closing, hClosing, hStart, hFresh, hEnd⟩
    exact ⟨hStart, closing, hClosing, hFresh, hEnd⟩

theorem edgeLoop_limited (hValid : adj.Valid engine)
    (hDfs : ∀ next t, Balanced start maxHops n next t → t.routes.length < maxRoutes →
      Enumerates adj start maxRoutes t (dfs adj start maxHops maxRoutes n next t)
        (cyclesFrom adj start n t.usedPools t.visitedTokens next))
    {earlier edges : List (Edge L)} (hEdges : adj.edgesAt current = earlier ++ edges)
    (hBalanced : Balanced start maxHops (n + 1) current s) (hBelow : s.routes.length < maxRoutes) :
    Enumerates adj start maxRoutes s
      (edgeLoop start maxRoutes (dfs adj start maxHops maxRoutes n) current s.path.length edges s)
      (edges.flatMap (edgeCycles start (cyclesFrom adj start n) s.usedPools s.visitedTokens current)) := by
  induction edges generalizing earlier s with
  | nil => exact .nil
  | cons edge rest ih =>
    have hRest : adj.edgesAt current = (earlier ++ [edge]) ++ rest := by simpa using hEdges
    have hLoop := ih hRest hBalanced hBelow
    unfold edgeLoop
    rw [List.flatMap_cons]
    by_cases hUsed : edge.pool ∈ s.usedPools
    · rw [if_pos hUsed, edgeCycles, if_pos hUsed]
      exact hLoop
    rw [if_neg hUsed, edgeCycles, if_neg hUsed]
    rcases hNext : edge.nextToken current with _ | next
    · exact hLoop
    dsimp only
    by_cases hClose : next = start
    · subst hClose
      simp only [if_pos]
      have hPools := hBalanced.pools
      by_cases hStart : s.usedPools = []
      · rw [hStart, List.length_nil] at hPools
        rw [if_neg (by omega), if_pos hStart]
        exact hLoop
      · have hPos := List.length_pos_iff.mpr hStart
        rw [if_pos (by omega), if_neg hStart]
        exact .close hBelow fun hMore => ih hRest (hBalanced.emitAll [s.path ++ [edge.hop current]]) hMore
    rw [if_neg hClose, if_neg hClose]
    by_cases hVisited : next ∈ s.visitedTokens
    · rw [if_pos hVisited, if_pos hVisited]
      exact hLoop
    rw [if_neg hVisited, if_neg hVisited]
    have hLeaves : next ≠ current := fun hEq => hVisited (hEq ▸ hBalanced.current_mem)
    refine .deeper (fun t => edgeLoop start maxRoutes _ current s.path.length rest t)
      (ClosesIn start s.usedPools current rest) hBelow (hDfs next _ (hBalanced.push hClose) hBelow)
      (fun last hMem => ?_) ?_ ?_ rfl
    · exact lateFrom_cons_iff hValid hEdges (Edge.ne_of_nextToken hNext hLeaves)
        ((mem_cyclesFrom (List.mem_append_left _ hBalanced.start_mem)).mp hMem).nonempty
    · intro found hState hMore
      have hStacks := hBalanced.emitAll (found.map (s.path ++ ·))
      rw [← hState] at hStacks
      have hLoop' := ih hRest hStacks hMore
      rw [hState] at hLoop' ⊢
      simpa using hLoop'
    · intro found hState hFull
      have hStacks := hBalanced.emitAll (found.map (s.path ++ ·))
      rw [← hState] at hStacks
      obtain ⟨extras, hEq, hSub, hNone⟩ := edgeLoop_full current (fun _ _ => dfs_full) hFull
        hStacks.pools (cyclesFrom adj start n) rest
      rw [hState] at hEq hSub hNone ⊢
      simp only [DfsState.emitAll_path, DfsState.emitAll_usedPools, DfsState.emitAll_visitedTokens] at hEq hSub hNone
      exact ⟨extras, hEq, hSub, hNone⟩

theorem dfs_limited (hValid : adj.Valid engine) (hBalanced : Balanced start maxHops n current s)
    (hBelow : s.routes.length < maxRoutes) :
    Enumerates adj start maxRoutes s (dfs adj start maxHops maxRoutes n current s)
      (cyclesFrom adj start n s.usedPools s.visitedTokens current) := by
  induction n generalizing current s with
  | zero => exact .nil
  | succ n ih =>
    have hDepth := hBalanced.depth
    rw [dfs, if_neg (not_le.mpr hBelow), if_neg (by omega)]
    cases hEdges : adj current with
    | none =>
      have hNil : adj.edgesAt current = [] := by simp [Adjacency.edgesAt, hEdges]
      rw [cyclesFrom, hNil]
      exact .nil
    | some edges =>
      have hAll : adj.edgesAt current = [] ++ edges := by simp [Adjacency.edgesAt, hEdges]
      rw [cyclesFrom, hAll]
      exact edgeLoop_limited hValid (fun _ _ => ih) hAll hBalanced hBelow

end Limit

end Robinarb
