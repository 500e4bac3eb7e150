import Robinarb.Routing.Graph
import Mathlib.Data.List.Dedup

/-! # The route store

The routes with the reverse index from a pool to the ids of the routes that traverse it.
-/

namespace Robinarb

structure RouteStore where
  routes : List Route
  byPool : List (List Nat)

namespace RouteStore

/-- One hop of the index; a pool outside of it is skipped. -/
def indexHop (id : Nat) (byPool : List (List Nat)) (hop : Hop) : List (List Nat) :=
  byPool.modify hop.pool fun ids => ids ++ [id]

def build (routes : List Route) (poolCount : Nat) : RouteStore :=
  ⟨routes, routes.foldl (fun byPool route => route.hops.foldl (indexHop route.id) byPool)
    (List.replicate poolCount [])⟩

def routesForPool (store : RouteStore) (pool : Nat) : List Nat := store.byPool[pool]?.getD []

def route (store : RouteStore) (id : Nat) : Option Route := store.routes[id]?

/-- The pools a route spans; an id outside the store has none. -/
def hopPools (store : RouteStore) (id : Nat) : List Nat :=
  ((store.route id).map fun route => route.hops.map Hop.pool).getD []

/-- `dirty` and every pool of every route through one of them, without order. -/
def neighborhood (store : RouteStore) (dirty : List Nat) : List Nat :=
  (dirty ++ dirty.flatMap fun pool => (store.routesForPool pool).flatMap store.hopPools).dedup

theorem length_indexHops (id : Nat) (hops : List Hop) (byPool : List (List Nat)) :
    (hops.foldl (indexHop id) byPool).length = byPool.length := by
  induction hops generalizing byPool with
  | nil => rfl
  | cons hop rest ih => rw [List.foldl_cons, ih, indexHop, List.length_modify]

theorem mem_indexHops (id other pool : Nat) (hops : List Hop) (byPool : List (List Nat)) :
    other ∈ (hops.foldl (indexHop id) byPool)[pool]?.getD [] ↔
      other ∈ byPool[pool]?.getD [] ∨ pool < byPool.length ∧ other = id ∧ ∃ hop ∈ hops, hop.pool = pool := by
  induction hops generalizing byPool with
  | nil => simp
  | cons hop rest ih =>
    rw [List.foldl_cons, ih, indexHop, List.length_modify, List.getElem?_modify]
    by_cases hPool : hop.pool = pool
    · subst hPool
      cases hEntry : byPool[hop.pool]? with
      | none =>
        have hLe := List.getElem?_eq_none_iff.mp hEntry
        simp
        omega
      | some ids =>
        have hLt := (List.getElem?_eq_some_iff.mp hEntry).1
        simp [hLt, or_assoc]
        tauto
    · simp [hPool]

theorem mem_routesForPool {routes : List Route} {poolCount pool id : Nat} :
    id ∈ (build routes poolCount).routesForPool pool ↔
      pool < poolCount ∧ ∃ route ∈ routes, route.id = id ∧ ∃ hop ∈ route.hops, hop.pool = pool := by
  have hIndex : ∀ (routes : List Route) (byPool : List (List Nat)),
      id ∈ (routes.foldl (fun byPool route => route.hops.foldl (indexHop route.id) byPool) byPool)[pool]?.getD [] ↔
        id ∈ byPool[pool]?.getD [] ∨
          pool < byPool.length ∧ ∃ route ∈ routes, route.id = id ∧ ∃ hop ∈ route.hops, hop.pool = pool := by
    intro routes
    induction routes with
    | nil => simp
    | cons route rest ih =>
      intro byPool
      rw [List.foldl_cons, ih, mem_indexHops, length_indexHops]
      constructor
      · rintro ((hOld | ⟨hLt, rfl, hHop⟩) | ⟨hLt, other, hMem, hRoute⟩)
        · exact .inl hOld
        · exact .inr ⟨hLt, route, List.mem_cons_self, rfl, hHop⟩
        · exact .inr ⟨hLt, other, List.mem_cons_of_mem _ hMem, hRoute⟩
      · rintro (hOld | ⟨hLt, other, hMem, rfl, hHop⟩)
        · exact .inl (.inl hOld)
        · obtain rfl | hMem := List.mem_cons.mp hMem
          · exact .inl (.inr ⟨hLt, rfl, hHop⟩)
          · exact .inr ⟨hLt, other, hMem, rfl, hHop⟩
  have hEmpty : id ∉ (List.replicate poolCount ([] : List Nat))[pool]?.getD [] := by
    rw [List.getElem?_replicate]
    split <;> exact List.not_mem_nil
  rw [routesForPool, build, hIndex, List.length_replicate, or_iff_right hEmpty]

theorem hopPools_subset_neighborhood {store : RouteStore} {dirty : List Nat} {pool id : Nat} (hPool : pool ∈ dirty)
    (hRoute : id ∈ store.routesForPool pool) {hop : Nat} (hHop : hop ∈ store.hopPools id) :
    hop ∈ store.neighborhood dirty := by
  rw [neighborhood, List.mem_dedup]
  apply List.mem_append_right
  exact List.mem_flatMap.mpr ⟨pool, hPool, List.mem_flatMap.mpr ⟨id, hRoute, hHop⟩⟩

end RouteStore

end Robinarb
