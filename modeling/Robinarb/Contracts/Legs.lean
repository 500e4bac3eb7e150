import Robinarb.Contracts.Ledger
import Mathlib.Data.List.Chain

/-! # Routes of the contract

The tokens a hop goes between, as its route declares them, and the stretches of V4 hops
that `_runHops` cuts out of a route.
-/

namespace Robinarb.ArbExecutor

open Fallible

section Tokens

def asToken (currency : Address) : Address := if currency = zeroAddress then WETH else currency

/-- The kinds that go through a pool contract; the others go through the PoolManager. -/
def Hop.InPool (h : Hop) : Prop := h.kind = 0#8 ∨ h.kind = 1#8 ∨ h.kind = 2#8 ∨ h.kind = 4#8

instance (h : Hop) : Decidable h.InPool := inferInstanceAs (Decidable (_ ∨ _))

/-- Input first. -/
def directed {α : Type} (zeroForOne : Bool) (pair : α × α) : α × α :=
  if zeroForOne then pair else pair.swap

def V4Key.currencies (k : V4Key) (zeroForOne : Bool) : Address × Address :=
  directed zeroForOne (k.currency0, k.currency1)

variable (declared : Address → Address × Address) (keys : List V4Key)

/-- The input and the output of a hop as the contract sees them: a pool's own tokens, the
currencies of a V4 key. -/
def Hop.currencies (h : Hop) : Address × Address :=
  if h.InPool then directed h.zeroForOne (declared h.pool)
  else
    match keys[h.feeBps.toNat]? with
    | some k => k.currencies h.zeroForOne
    | none => (zeroAddress, zeroAddress)

/-- The same as the route sees them. -/
def Hop.tokens (h : Hop) : Address × Address :=
  let c := h.currencies declared keys
  if h.InPool then c else (asToken c.1, asToken c.2)

/-- Each hop takes what the hop before it gives. -/
def Connected (hops : List Hop) : Prop :=
  hops.IsChain fun h h' => (h.tokens declared keys).2 = (h'.tokens declared keys).1

/-- A route from the anchor back to it. -/
structure ClosedCycle (anchor : Address) (hops : List Hop) : Prop where
  connected : Connected declared keys hops
  starts : ∀ h ∈ hops.head?, (h.tokens declared keys).1 = anchor
  ends : ∀ h ∈ hops.getLast?, (h.tokens declared keys).2 = anchor

theorem Connected.next {hops : List Hop} (hConnected : Connected declared keys hops) {i : Nat} {h h' : Hop}
    (hHere : hops[i]? = some h) (hNext : hops[i + 1]? = some h') :
    (h.tokens declared keys).2 = (h'.tokens declared keys).1 := by
  obtain ⟨hi, rfl⟩ := List.getElem?_eq_some_iff.mp hHere
  obtain ⟨hj, rfl⟩ := List.getElem?_eq_some_iff.mp hNext
  exact List.isChain_iff_getElem.mp hConnected i hj

variable {declared keys}

theorem tokens_of_inPool {h : Hop} (hPool : h.InPool) :
    h.tokens declared keys = directed h.zeroForOne (declared h.pool) := by
  unfold Hop.tokens Hop.currencies
  rw [if_pos hPool, if_pos hPool]

theorem not_inPool_of_kind {h : Hop} (hKind : h.kind = 3#8) : ¬ h.InPool := by
  unfold Hop.InPool
  rw [hKind]
  decide

end Tokens

section Segments

variable {E : Type}

theorem index_ok {α : Type} {xs : List α} {i : Nat} {st : State E} {r : α × State E}
    (hRun : index xs i st = .ok r) : xs[i]? = some r.1 ∧ r.2 = st := by
  unfold index at hRun
  cases hx : xs[i]? with
  | none =>
    rw [hx] at hRun
    cases hRun
  | some x =>
    rw [hx] at hRun
    cases hRun
    exact ⟨rfl, rfl⟩

theorem index_of {α : Type} {xs : List α} {i : Nat} {x : α} (hx : xs[i]? = some x) :
    (index xs i : Exec E α) = pure x := by
  unfold index
  rw [hx]

theorem _v4InCurrency_ok {h : Hop} {keys : List V4Key} {st : State E} {r : Address × State E}
    (hRun : _v4InCurrency h keys st = .ok r) : r.2 = st := by
  obtain ⟨k, st₁, hIndex, hReturn⟩ := bind_eq_ok.mp hRun
  obtain rfl := pure_eq_ok.mp hReturn
  exact (index_ok hIndex).2

theorem _v4OutCurrency_ok {h : Hop} {keys : List V4Key} {st : State E} {r : Address × State E}
    (hRun : _v4OutCurrency h keys st = .ok r) : r.2 = st := by
  obtain ⟨k, st₁, hIndex, hReturn⟩ := bind_eq_ok.mp hRun
  obtain rfl := pure_eq_ok.mp hReturn
  exact (index_ok hIndex).2

theorem segmentEnd_ok {hops : List Hop} {keys : List V4Key} {n j : Nat} {st : State E} {r : Nat × State E}
    (hBound : j ≤ hops.length) (hRun : segmentEnd hops keys n j st = .ok r) :
    j ≤ r.1 ∧ r.1 ≤ hops.length ∧ (∀ k hop, j ≤ k → k < r.1 → hops[k]? = some hop → hop.kind = 3#8) ∧
      r.2 = st := by
  have hStop : ∀ {m : Nat} {s : State E} {r : Nat × State E}, m ≤ hops.length → (pure m : Exec E Nat) s = .ok r →
      m ≤ r.1 ∧ r.1 ≤ hops.length ∧ (∀ k hop, m ≤ k → k < r.1 → hops[k]? = some hop → hop.kind = 3#8) ∧
        r.2 = s := by
    intro m s r hm hReturn
    obtain rfl := pure_eq_ok.mp hReturn
    exact ⟨Nat.le_refl m, hm, fun k _ hk hk' => absurd hk' (Nat.not_lt.mpr hk), rfl⟩
  induction n generalizing j with
  | zero => exact hStop hBound hRun
  | succ n ih =>
    unfold segmentEnd at hRun
    cases hHop : hops[j]? with
    | none =>
      rw [hHop] at hRun
      exact hStop hBound hRun
    | some hop =>
      rw [hHop] at hRun
      dsimp only at hRun
      split at hRun
      next hKind =>
        obtain ⟨previous, st₁, hIndex, hAfter⟩ := bind_eq_ok.mp hRun
        obtain ⟨before, st₂, hBefore, hThen⟩ := bind_eq_ok.mp hAfter
        obtain ⟨current, st₃, hCurrent, hRest⟩ := bind_eq_ok.mp hThen
        obtain rfl : st₁ = st := (index_ok hIndex).2
        obtain rfl : st₂ = st₁ := _v4OutCurrency_ok hBefore
        obtain rfl : st₃ = st₂ := _v4InCurrency_ok hCurrent
        split at hRest
        · obtain ⟨hj, -⟩ := List.getElem?_eq_some_iff.mp hHop
          obtain ⟨hForward, hLast, hV4, hKept⟩ := ih hj hRest
          refine ⟨Nat.le_of_succ_le hForward, hLast, fun k other hk hk' hOther => ?_, hKept⟩
          rcases Nat.eq_or_lt_of_le hk with rfl | hLater
          · cases hHop.symm.trans hOther
            exact hKind
          · exact hV4 k other hLater hk' hOther
        · exact hStop hBound hRest
      · exact hStop hBound hRun

theorem mapM_index_ok {segment : List Hop} {keys : List V4Key} {st : State E} {r : List V4Key × State E}
    (hRun : segment.mapM (fun hop => (index keys hop.feeBps.toNat : Exec E V4Key)) st = .ok r) :
    segment.mapM (fun hop => keys[hop.feeBps.toNat]?) = some r.1 ∧ r.2 = st := by
  induction segment generalizing st r with
  | nil =>
    obtain rfl := pure_eq_ok.mp hRun
    exact ⟨rfl, rfl⟩
  | cons hop rest ih =>
    rw [List.mapM_cons] at hRun
    obtain ⟨key, st₁, hIndex, hRest⟩ := bind_eq_ok.mp hRun
    obtain ⟨others, st₂, hOthers, hReturn⟩ := bind_eq_ok.mp hRest
    obtain rfl := pure_eq_ok.mp hReturn
    obtain ⟨hKey, hKept⟩ := index_ok hIndex
    obtain rfl : st₁ = st := hKept
    obtain ⟨hRestKeys, hKept⟩ := ih hOthers
    refine ⟨?_, hKept⟩
    rw [List.mapM_cons, hKey, hRestKeys]
    rfl

theorem segmentKeys_ok {hops : List Hop} {keys : List V4Key} {i j : Nat} {st : State E}
    {r : (List V4Key × List Bool) × State E} (hRun : segmentKeys hops keys i j st = .ok r) :
    ((hops.drop i).take (j - i)).mapM (fun hop => keys[hop.feeBps.toNat]?) = some r.1.1 ∧
      r.1.2 = ((hops.drop i).take (j - i)).map Hop.zeroForOne ∧ r.2 = st := by
  obtain ⟨segKeys, st₁, hKeys, hReturn⟩ := bind_eq_ok.mp hRun
  obtain rfl := pure_eq_ok.mp hReturn
  obtain ⟨hSome, hKept⟩ := mapM_index_ok hKeys
  exact ⟨hSome, rfl, hKept⟩

theorem getElem?_of_mapM {α β : Type} {f : α → Option β} {xs : List α} {ys : List β}
    (hMap : xs.mapM f = some ys) : ys.length = xs.length ∧ ∀ (n : Nat) (x : α), xs[n]? = some x → ys[n]? = f x := by
  induction xs generalizing ys with
  | nil =>
    cases hMap
    exact ⟨rfl, fun n x hx => by cases hx⟩
  | cons x rest ih =>
    rw [List.mapM_cons] at hMap
    obtain ⟨y, hy, hRest⟩ := Option.bind_eq_some_iff.mp hMap
    obtain ⟨ys', hys', hReturn⟩ := Option.bind_eq_some_iff.mp hRest
    cases hReturn
    obtain ⟨hLength, hAt⟩ := ih hys'
    refine ⟨congrArg (· + 1) hLength, ?_⟩
    rintro (_ | n) x' hx'
    · cases hx'
      exact hy.symm
    · exact hAt n x' hx'

theorem getElem?_segment (hops : List Hop) {i j n : Nat} (hn : n < j - i) :
    ((hops.drop i).take (j - i))[n]? = hops[i + n]? := by
  rw [List.getElem?_take_of_lt hn, List.getElem?_drop]

theorem segment_last {hops : List Hop} {i j : Nat} {last : Hop} (hForward : i < j)
    (hLast : hops[j - 1]? = some last) :
    ((hops.drop i).take (j - i))[((hops.drop i).take (j - i)).length - 1]? = some last := by
  obtain ⟨hBound, -⟩ := List.getElem?_eq_some_iff.mp hLast
  have hCount : ((hops.drop i).take (j - i)).length = j - i := by
    rw [List.length_take, List.length_drop]
    omega
  have hPlace : i + (j - i - 1) = j - 1 := by omega
  rw [hCount, getElem?_segment hops (by omega), hPlace]
  exact hLast

theorem segment_ends {segment : List Hop} {keys segKeys : List V4Key} {first last : Hop}
    (hKeys : segment.mapM (fun hop => keys[hop.feeBps.toNat]?) = some segKeys)
    (hFirst : segment[0]? = some first) (hLast : segment[segment.length - 1]? = some last) :
    ∃ firstKey lastKey, keys[first.feeBps.toNat]? = some firstKey ∧ segKeys[0]? = some firstKey ∧
      (segment.map Hop.zeroForOne)[0]? = some first.zeroForOne ∧
      keys[last.feeBps.toNat]? = some lastKey ∧ segKeys[segKeys.length - 1]? = some lastKey ∧
      (segment.map Hop.zeroForOne)[segKeys.length - 1]? = some last.zeroForOne := by
  obtain ⟨hLength, hAt⟩ := getElem?_of_mapM hKeys
  rw [hLength]
  have hKey : ∀ (n : Nat) (h : Hop), segment[n]? = some h →
      ∃ key, keys[h.feeBps.toNat]? = some key ∧ segKeys[n]? = some key := by
    intro n h hHop
    obtain ⟨hn, -⟩ := List.getElem?_eq_some_iff.mp hHop
    have hFound := List.getElem?_eq_getElem (hLength ▸ hn : n < segKeys.length)
    exact ⟨_, (hAt n h hHop).symm.trans hFound, hFound⟩
  obtain ⟨firstKey, hFirstKey, hFirstAt⟩ := hKey 0 first hFirst
  obtain ⟨lastKey, hLastKey, hLastAt⟩ := hKey _ last hLast
  refine ⟨firstKey, lastKey, hFirstKey, hFirstAt, ?_, hLastKey, hLastAt, ?_⟩
  · rw [List.getElem?_map, hFirst]
    rfl
  · rw [List.getElem?_map, hLast]
    rfl

end Segments

end Robinarb.ArbExecutor
