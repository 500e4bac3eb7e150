import Robinarb.Library.GreedySelection
import Robinarb.Library.RankedPrefix
import Robinarb.Routing.Candidates

/-! # Emission

From the evaluated candidates of a batch to the opportunities the evaluator sends. Their
rank is the net profit as WETH wei, a float conversion; here it is any function.
-/

namespace Robinarb

open GreedySelection RankedPrefix

structure EvaluatedOpportunity where
  routeId : U32
  netProfitWei : U128
  deriving DecidableEq

section Emission

variable (store : RouteStore) (accepts : List EvaluatedOpportunity → Bool)

/-- The loop over the ranked candidates, with what it has sent; `false` is a closed
receiver, and no result a route id outside the store. -/
def emitLoop : List Nat → List EvaluatedOpportunity → List EvaluatedOpportunity →
    Option (List EvaluatedOpportunity × Bool)
  | _, sent, [] => some (sent, true)
  | used, sent, eval :: rest => do
    let route ← store.route eval.routeId.toNat
    if route.hops.any fun h => used.contains h.pool then emitLoop used sent rest
    else
      let used := route.hops.foldl (fun used h => used.insert h.pool) used
      if accepts sent then emitLoop used (sent ++ [eval]) rest else return (sent, false)

variable {R : Type} [LinearOrder R] (rank : EvaluatedOpportunity → R)

/-- `sort_by` is stable, best rank first. -/
def emit (candidates : List EvaluatedOpportunity) : Option (List EvaluatedOpportunity × Bool) :=
  emitLoop store accepts [] [] (ranked rank candidates)

def poolSet (eval : EvaluatedOpportunity) : Finset Nat := (store.hopPools eval.routeId.toNat).toFinset

variable {store accepts}

theorem mem_insertPools {hops : List Hop} {used : List Nat} {pool : Nat} :
    pool ∈ hops.foldl (fun used h => used.insert h.pool) used ↔ pool ∈ used ∨ pool ∈ hops.map Hop.pool := by
  induction hops generalizing used with
  | nil => simp
  | cons hop rest ih =>
    rw [List.foldl_cons, ih, List.mem_insert_iff, List.map_cons, List.mem_cons]
    tauto

/-- The loop is the greedy selection of candidates with disjoint pool sets. -/
theorem emitLoop_eq (hOpen : ∀ sent, accepts sent = true) {candidates : List EvaluatedOpportunity}
    (hStored : ∀ eval ∈ candidates, (store.route eval.routeId.toNat).isSome) (used : List Nat)
    (sent : List EvaluatedOpportunity) :
    emitLoop store accepts used sent candidates =
      some (sent ++ select (poolSet store) used.toFinset candidates, true) := by
  induction candidates generalizing used sent with
  | nil => simp [emitLoop]
  | cons eval rest ih =>
    obtain ⟨hFirst, hRest⟩ := List.forall_mem_cons.mp hStored
    obtain ⟨route, hRoute⟩ := Option.isSome_iff_exists.mp hFirst
    have hPools : poolSet store eval = (route.hops.map Hop.pool).toFinset := by
      rw [poolSet, RouteStore.hopPools, hRoute]
      rfl
    have hUsed : (route.hops.any fun h => used.contains h.pool) = true ↔ ¬Disjoint (poolSet store eval) used.toFinset := by
      rw [hPools, Finset.not_disjoint_iff]
      simp
    rw [emitLoop, hRoute, Option.bind_eq_bind, Option.bind_some]
    by_cases hShares : Disjoint (poolSet store eval) used.toFinset
    · rw [if_neg (fun h => hUsed.mp h hShares), if_pos (hOpen sent), ih hRest, select_cons_of_disjoint hShares,
        List.append_assoc, List.singleton_append]
      have hNext : (route.hops.foldl (fun used h => used.insert h.pool) used).toFinset =
          used.toFinset ∪ poolSet store eval := by
        rw [hPools]
        ext pool
        simp only [List.mem_toFinset, mem_insertPools, Finset.mem_union]
      rw [hNext]
    · rw [if_pos (hUsed.mpr hShares), ih hRest, select_cons_of_not_disjoint hShares]

/-- While the receiver is open, what is sent is a sublist of the ranked candidates, with
disjoint pools and with the best of them; a candidate is sent in its place or shares a pool
with one sent that ranks as high; and which places are sent depends on the pool sets in
ranked order alone. -/
theorem emit_greedy (hOpen : ∀ sent, accepts sent = true) {candidates : List EvaluatedOpportunity}
    (hStored : ∀ eval ∈ candidates, (store.route eval.routeId.toNat).isSome) :
    (ranked rank candidates).Perm candidates ∧ (ranked rank candidates).Pairwise (fun a b => rank b ≤ rank a) ∧
    ∃ emitted, emit store accepts rank candidates = some (emitted, true) ∧
      emitted.Sublist (ranked rank candidates) ∧
      emitted.Pairwise (fun a b => Disjoint (poolSet store a) (poolSet store b)) ∧
      emitted.head? = (ranked rank candidates).head? ∧
      (∀ before eval after, ranked rank candidates = before ++ eval :: after →
        (∃ kept left, emitted = kept ++ eval :: left ∧ kept.Sublist before ∧ left.Sublist after) ∨
          ∃ other ∈ before, other ∈ emitted ∧ rank eval ≤ rank other ∧
            ¬Disjoint (poolSet store other) (poolSet store eval)) ∧
      emitted = chosen (ranked rank candidates) (flags ∅ ((ranked rank candidates).map (poolSet store))) := by
  have hPerm := ranked_perm rank candidates
  have hSorted := ranked_pairwise rank candidates
  refine ⟨hPerm, hSorted, select (poolSet store) ∅ (ranked rank candidates), ?_, select_sublist _ _,
    select_pairwise _ _, select_head? _, ?_, rfl⟩
  · exact emitLoop_eq hOpen (fun eval hMem => hStored eval (hPerm.mem_iff.mp hMem)) [] []
  · intro before eval after hSplit
    obtain hTaken | hUsed | ⟨other, hBefore, hSent, hShares⟩ := select_at (poolSet store) ∅ hSplit
    · exact .inl hTaken
    · exact absurd (Finset.disjoint_empty_right (poolSet store eval)) hUsed
    · right
      refine ⟨other, hBefore, hSent, ?_, hShares⟩
      rw [hSplit, List.pairwise_append] at hSorted
      exact hSorted.2.2 other hBefore eval List.mem_cons_self

end Emission

section Sample

/-- Routes 0 and 1 through the pools 0, 1 and 1, 2, and route 2 through 3. -/
def overlappingRoutes : RouteStore := RouteStore.build
  [⟨0, 1#160, [⟨0, true, 1#160⟩, ⟨1, true, 2#160⟩]⟩, ⟨1, 1#160, [⟨1, true, 1#160⟩, ⟨2, true, 2#160⟩]⟩,
    ⟨2, 1#160, [⟨3, true, 1#160⟩]⟩] 4

def overlapping : List EvaluatedOpportunity := [⟨0#32, 5#128⟩, ⟨1#32, 9#128⟩, ⟨2#32, 5#128⟩]

example : emit overlappingRoutes (fun _ => true) (fun eval => eval.netProfitWei.toNat) overlapping =
    some ([⟨1#32, 9#128⟩, ⟨2#32, 5#128⟩], true) := by decide +kernel

theorem overlapping_emitted : ∃ emitted,
    emit overlappingRoutes (fun _ => true) (fun eval => eval.netProfitWei.toNat) overlapping = some (emitted, true) ∧
      emitted.Pairwise fun a b => Disjoint (poolSet overlappingRoutes a) (poolSet overlappingRoutes b) := by
  have hStored : ∀ eval ∈ overlapping, (overlappingRoutes.route eval.routeId.toNat).isSome := by decide
  obtain ⟨-, -, emitted, hEmit, -, hDisjoint, -⟩ :=
    emit_greedy (fun eval => eval.netProfitWei.toNat) (fun _ => rfl) hStored
  exact ⟨emitted, hEmit, hDisjoint⟩

end Sample

end Robinarb
