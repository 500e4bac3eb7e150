import Mathlib.Data.List.Basic
import Mathlib.Tactic.Ring

/-! # Batched queries

A list of items with a fixed number of requests each, one query for all requests, and
a site that turns the answers of an item into an entry, skips it, or stops the run. A
run that does not stop gives the entries in the order of the items. Answers to some
requests do not matter to the entries of items that make none of them.
-/

namespace Batch

universe u v w

variable {ρ σ : Type u} {α : Type v} {β : Type w}

/-- `none` stops; `some none` skips. -/
def collectFrom (site : Nat → α → Option (Option β)) : Nat → List α → Option (List β)
  | _, [] => some []
  | n, x :: xs =>
    (site n x).bind fun entry => (collectFrom site (n + 1) xs).map (entry.toList ++ ·)

/-- The answers to the `n`-th of the items with `k` requests each. -/
def rowOf (k : Nat) (answers : List σ) (n j : Nat) : Option σ := answers[k * n + j]?

def batched (query : List ρ → List σ) (k : Nat) (requests : α → List ρ)
    (site : α → (Nat → Option σ) → Option (Option β)) (items : List α) : Option (List β) :=
  collectFrom (fun n x => site x (rowOf k (query (items.flatMap requests)) n)) 0 items

section Collect

variable {site : Nat → α → Option (Option β)} {n : Nat} {xs : List α} {ys : List β}

theorem collectFrom_cons {x : α} (h : collectFrom site n (x :: xs) = some ys) :
    ∃ entry rest, site n x = some entry ∧ collectFrom site (n + 1) xs = some rest ∧ ys = entry.toList ++ rest := by
  obtain ⟨entry, hEntry, hRest⟩ := Option.bind_eq_some_iff.mp h
  obtain ⟨rest, hCollect, hJoin⟩ := Option.map_eq_some_iff.mp hRest
  exact ⟨entry, rest, hEntry, hCollect, hJoin.symm⟩

theorem collectFrom_isSome_iff :
    (collectFrom site n xs).isSome ↔ ∀ i x, xs[i]? = some x → (site (n + i) x).isSome := by
  induction xs generalizing n with
  | nil => simp [collectFrom]
  | cons x xs ih =>
    have hCons : (collectFrom site n (x :: xs)).isSome ↔
        (site n x).isSome ∧ (collectFrom site (n + 1) xs).isSome := by
      rw [collectFrom]
      cases site n x <;> simp
    rw [hCons, ih]
    constructor
    · rintro ⟨hFirst, hRest⟩ i y hy
      cases i with
      | zero =>
        obtain rfl := Option.some.inj hy
        exact hFirst
      | succ i =>
        have hNext := hRest i y hy
        rwa [Nat.add_right_comm] at hNext
    · intro h
      refine ⟨h 0 x rfl, fun i y hy => ?_⟩
      have hNext := h (i + 1) y hy
      rwa [← Nat.add_assoc, Nat.add_right_comm] at hNext

theorem mem_collectFrom (h : collectFrom site n xs = some ys) {y : β} :
    y ∈ ys ↔ ∃ i x, xs[i]? = some x ∧ site (n + i) x = some (some y) := by
  induction xs generalizing n ys with
  | nil =>
    cases h
    simp
  | cons x xs ih =>
    obtain ⟨entry, rest, hEntry, hCollect, rfl⟩ := collectFrom_cons h
    rw [List.mem_append, Option.mem_toList, ih hCollect]
    constructor
    · rintro (hHere | ⟨i, z, hz, hSite⟩)
      · exact ⟨0, x, rfl, hEntry.trans (congrArg some hHere)⟩
      · refine ⟨i + 1, z, hz, ?_⟩
        rwa [← Nat.add_assoc, Nat.add_right_comm]
    · rintro ⟨i, z, hz, hSite⟩
      cases i with
      | zero =>
        obtain rfl := Option.some.inj hz
        exact .inl (Option.some.inj (hEntry.symm.trans hSite))
      | succ i =>
        refine .inr ⟨i, z, hz, ?_⟩
        rwa [Nat.add_right_comm]

/-- What a key of the entries says, when a key of the items decides whether there is one. -/
theorem collectFrom_map {γ : Type*} (h : collectFrom site n xs = some ys) (key : β → γ) (decides : Nat → α → Option γ)
    (hKey : ∀ i x entry, xs[i]? = some x → site (n + i) x = some entry → entry.map key = decides (n + i) x) :
    ys.map key = (xs.zipIdx n).filterMap fun x => decides x.2 x.1 := by
  induction xs generalizing n ys with
  | nil =>
    cases h
    rfl
  | cons x xs ih =>
    obtain ⟨entry, rest, hEntry, hCollect, rfl⟩ := collectFrom_cons h
    have hRest := ih hCollect fun i y other hy hSite => by
      rw [Nat.add_right_comm] at hSite ⊢
      exact hKey (i + 1) y other hy hSite
    have hFirst := hKey 0 x entry rfl hEntry
    rw [List.map_append, hRest, List.zipIdx_cons, List.filterMap_cons]
    cases entry with
    | none =>
      rw [← show none = decides n x from hFirst]
      rfl
    | some y =>
      rw [← show some (key y) = decides n x from hFirst]
      rfl

theorem collectFrom_filter (h : collectFrom site n xs = some ys) {keep : α → Bool} {kept : β → Bool}
    (f : α → Option β) (hKept : ∀ i, ∀ x ∈ xs, ∀ y, site i x = some (some y) → kept y = keep x)
    (hSite : ∀ i x, xs[i]? = some x → keep x = true → site (n + i) x = some (f x)) :
    ys.filter kept = (xs.filter keep).filterMap f := by
  induction xs generalizing n ys with
  | nil =>
    cases h
    rfl
  | cons x xs ih =>
    obtain ⟨entry, rest, hEntry, hCollect, rfl⟩ := collectFrom_cons h
    have hRest := ih hCollect (fun i y hy => hKept i y (List.mem_cons_of_mem _ hy)) fun i y hy hKeep => by
      rw [Nat.add_right_comm]
      exact hSite (i + 1) y hy hKeep
    have hKeptHere := hKept n x List.mem_cons_self
    rw [List.filter_append, hRest, List.filter_cons]
    cases hKeep : keep x with
    | true =>
      have hFirst := Option.some.inj (hEntry.symm.trans (hSite 0 x rfl hKeep))
      rw [if_pos rfl, List.filterMap_cons, ← hFirst]
      cases entry with
      | none => rfl
      | some y =>
        have hKeptY := (hKeptHere y hEntry).trans hKeep
        simp [hKeptY]
    | false =>
      cases entry with
      | none => simp
      | some y =>
        have hKeptY := (hKeptHere y hEntry).trans hKeep
        simp [hKeptY]

theorem lookup_collectFrom {κ : Type*} [BEq κ] [LawfulBEq κ] {γ : Type*} {site : Nat → α → Option (Option (κ × γ))}
    {ys : List (κ × γ)} (h : collectFrom site n xs = some ys) (key : α → κ) (hNodup : (xs.map key).Nodup)
    (hKey : ∀ i x y, site i x = some (some y) → y.1 = key x) {i : Nat} {x : α} (hx : xs[i]? = some x)
    {entry : Option (κ × γ)} (hSite : site (n + i) x = some entry) : ys.lookup (key x) = entry.map Prod.snd := by
  induction xs generalizing n ys i with
  | nil => cases hx
  | cons first xs ih =>
    obtain ⟨other, rest, hOther, hCollect, rfl⟩ := collectFrom_cons h
    rw [List.map_cons, List.nodup_cons] at hNodup
    obtain ⟨hFresh, hRest⟩ := hNodup
    cases i with
    | zero =>
      obtain rfl := Option.some.inj hx
      obtain rfl := Option.some.inj (hOther.symm.trans hSite)
      cases other with
      | some y =>
        obtain ⟨k, v⟩ := y
        have hSame : k = key first := hKey n first (k, v) hOther
        simp [hSame]
      | none =>
        rw [Option.toList_none, List.nil_append, Option.map_none, List.lookup_eq_none_iff]
        intro y hy
        obtain ⟨j, z, hz, hFrom⟩ := (mem_collectFrom hCollect).mp hy
        rw [hKey _ z y hFrom, bne_iff_ne]
        exact fun hEq => hFresh (hEq ▸ List.mem_map_of_mem (List.mem_of_getElem? hz))
    | succ i =>
      have hIn : key x ∈ xs.map key := List.mem_map_of_mem (List.mem_of_getElem? hx)
      have hNext := ih hCollect hRest hx (by rwa [Nat.add_right_comm])
      cases other with
      | none => exact hNext
      | some y =>
        obtain ⟨k, v⟩ := y
        have hSame : k = key first := hKey n first (k, v) hOther
        have hne : (key x == k) = false := beq_false_of_ne fun hEq => hFresh (hSame ▸ hEq ▸ hIn)
        rw [Option.toList_some, List.cons_append, List.nil_append, List.lookup_cons, hne]
        exact hNext

end Collect

section Query

variable {query : List ρ → List σ} {k : Nat} {requests : α → List ρ}
  {site : α → (Nat → Option σ) → Option (Option β)} {items : List α} {ys : List β}

theorem getElem?_flatMap (hLength : ∀ x, (requests x).length = k) {n j : Nat} {x : α} (hx : items[n]? = some x)
    (hj : j < k) : (items.flatMap requests)[k * n + j]? = (requests x)[j]? := by
  induction items generalizing n with
  | nil => cases hx
  | cons first rest ih =>
    rw [List.flatMap_cons]
    cases n with
    | zero =>
      obtain rfl := Option.some.inj hx
      rw [Nat.mul_zero, Nat.zero_add, List.getElem?_append_left (by rwa [hLength])]
    | succ n =>
      have hSplit : k * (n + 1) + j = (requests first).length + (k * n + j) := by
        rw [hLength]
        ring
      rw [hSplit, List.getElem?_append_right (Nat.le_add_right _ _), Nat.add_sub_cancel_left]
      exact ih hx

/-- The answers an item sees when `f` answers its requests. -/
def answersOf (requests : α → List ρ) (f : ρ → σ) (x : α) (j : Nat) : Option σ := (requests x)[j]?.map f

/-- `query` answers the requests that are `good` as `f` does. -/
def AnswersAs (query : List ρ → List σ) (good : ρ → Prop) (f : ρ → σ) : Prop :=
  ∀ (asked : List ρ) (i : Nat) (r : ρ), asked[i]? = some r → good r → (query asked)[i]? = some (f r)

theorem rowOf_eq {good : ρ → Prop} {f : ρ → σ} (hAnswers : AnswersAs query good f)
    (hLength : ∀ x, (requests x).length = k) {n j : Nat} {x : α} (hx : items[n]? = some x)
    (hGood : ∀ r ∈ requests x, good r) (hj : j < k) :
    rowOf k (query (items.flatMap requests)) n j = answersOf requests f x j := by
  have hHere := getElem?_flatMap hLength hx hj
  have hLt : j < (requests x).length := by rwa [hLength]
  rw [rowOf, answersOf, List.getElem?_eq_getElem hLt]
  rw [List.getElem?_eq_getElem hLt] at hHere
  exact hAnswers _ _ _ hHere (hGood _ (List.getElem_mem hLt))

def Each (query : List ρ → List σ) (k : Nat) (requests : α → List ρ) (P : α → (Nat → Option σ) → Prop)
    (items : List α) : Prop :=
  ∀ i x, items[i]? = some x → P x (rowOf k (query (items.flatMap requests)) i)

theorem batched_isSome_iff {P : α → (Nat → Option σ) → Prop} (hSite : ∀ x ∈ items, ∀ row, (site x row).isSome ↔ P x row) :
    (batched query k requests site items).isSome ↔ Each query k requests P items := by
  rw [batched, collectFrom_isSome_iff]
  apply forall₂_congr
  intro i x
  apply forall_congr'
  intro hx
  rw [Nat.zero_add, hSite x (List.mem_of_getElem? hx)]

theorem mem_batched (h : batched query k requests site items = some ys) {y : β} (hy : y ∈ ys) :
    ∃ x ∈ items, ∃ row, site x row = some (some y) := by
  obtain ⟨i, x, hx, hSite⟩ := (mem_collectFrom h).mp hy
  exact ⟨x, List.mem_of_getElem? hx, _, hSite⟩

/-- A query whose `i`-th result, where there is one, is an answer to the `i`-th request. -/
def AnswersEach (query : List ρ → List σ) (answers : ρ → σ → Prop) : Prop :=
  ∀ (asked : List ρ) (i : Nat) (result : σ), (query asked)[i]? = some result → ∃ r, asked[i]? = some r ∧ answers r result

/-- What the query gave to a request: a result, or none where the results end early. -/
def Gave (query : List ρ → List σ) (r : ρ) (given : Option σ) : Prop :=
  ∃ (asked : List ρ) (i : Nat), asked[i]? = some r ∧ (query asked)[i]? = given

theorem Gave.answers {answers : ρ → σ → Prop} (hAnswers : AnswersEach query answers) {r : ρ} {result : σ}
    (h : Gave query r (some result)) : answers r result := by
  obtain ⟨asked, i, hAsked, hResult⟩ := h
  obtain ⟨request, hRequest, hAnswer⟩ := hAnswers asked i result hResult
  obtain rfl := Option.some.inj (hRequest.symm.trans hAsked)
  exact hAnswer

/-- A row is what the query gave to the requests of its item, in their order. -/
def RowGiven (query : List ρ → List σ) (requests : List ρ) (row : Nat → Option σ) : Prop :=
  ∀ j r, requests[j]? = some r → Gave query r (row j)

theorem rowOf_given (hLength : ∀ x, (requests x).length = k) {n : Nat} {x : α} (hx : items[n]? = some x) :
    RowGiven query (requests x) (rowOf k (query (items.flatMap requests)) n) := by
  intro j r hr
  have hLt : j < k := hLength x ▸ (List.getElem?_eq_some_iff.mp hr).1
  refine ⟨items.flatMap requests, k * n + j, ?_, rfl⟩
  rw [getElem?_flatMap hLength hx hLt, hr]

theorem mem_batched_given (h : batched query k requests site items = some ys)
    (hLength : ∀ x, (requests x).length = k) {y : β} (hy : y ∈ ys) :
    ∃ x ∈ items, ∃ row, RowGiven query (requests x) row ∧ site x row = some (some y) := by
  obtain ⟨i, x, hx, hSite⟩ := (mem_collectFrom h).mp hy
  exact ⟨x, List.mem_of_getElem? hx, _, rowOf_given hLength hx, by rwa [Nat.zero_add] at hSite⟩

section Lookup

variable {κ γ : Type*} [BEq κ] [LawfulBEq κ] {site : α → (Nat → Option σ) → Option (Option (κ × γ))} {ys : List (κ × γ)}

/-- Under the key of an item stands what its site made of its row, and nothing else. -/
theorem lookup_row (h : batched query k requests site items = some ys) (key : α → κ) (hNodup : (items.map key).Nodup)
    (hKey : ∀ x row y, site x row = some (some y) → y.1 = key x) {i : Nat} {x : α} (hx : items[i]? = some x) :
    ∃ entry, site x (rowOf k (query (items.flatMap requests)) i) = some entry ∧
      ys.lookup (key x) = entry.map Prod.snd := by
  have hRan := collectFrom_isSome_iff.mp (Option.isSome_iff_exists.mpr ⟨ys, h⟩) i x hx
  obtain ⟨entry, hEntry⟩ := Option.isSome_iff_exists.mp hRan
  refine ⟨entry, by rwa [Nat.zero_add] at hEntry, ?_⟩
  exact lookup_collectFrom h key hNodup (fun i x y => hKey x _ y) hx hEntry

theorem lookup_given (h : batched query k requests site items = some ys) (hLength : ∀ x, (requests x).length = k)
    (key : α → κ) (hNodup : (items.map key).Nodup) (hKey : ∀ x row y, site x row = some (some y) → y.1 = key x) {x : α}
    (hx : x ∈ items) :
    ∃ row entry, RowGiven query (requests x) row ∧ site x row = some entry ∧
      ys.lookup (key x) = entry.map Prod.snd := by
  obtain ⟨i, hi⟩ := List.mem_iff_getElem?.mp hx
  obtain ⟨entry, hEntry, hLookup⟩ := lookup_row h key hNodup hKey hi
  exact ⟨_, entry, rowOf_given hLength hi, hEntry, hLookup⟩

end Lookup

theorem isSome_bind_iff {γ : Type*} {first : Option γ} {next : γ → Option β} {P : Prop}
    (h : ∀ a, first = some a → ((next a).isSome ↔ P)) : (first.bind next).isSome ↔ first.isSome ∧ P := by
  cases first with
  | none => simp
  | some a => simpa using h a rfl

/-- The items with live answers, in their order. -/
def selected (query : List ρ → List σ) (k : Nat) (requests : α → List ρ) (live : (Nat → Option σ) → Bool)
    (items : List α) : List α :=
  items.zipIdx.filterMap fun x => if live (rowOf k (query (items.flatMap requests)) x.2) then some x.1 else none

/-- What the entries and the items they come from have in common. -/
theorem batched_map {γ : Type*} (h : batched query k requests site items = some ys) {key : β → γ} {itemKey : α → γ}
    {live : (Nat → Option σ) → Bool}
    (hKey : ∀ x ∈ items, ∀ row entry, site x row = some entry →
      entry.map key = if live row then some (itemKey x) else none) :
    ys.map key = (selected query k requests live items).map itemKey := by
  rw [selected, List.map_filterMap]
  have hEntries := collectFrom_map h key
    (fun i x => if live (rowOf k (query (items.flatMap requests)) i) then some (itemKey x) else none)
    fun i x entry hx hEntry => by
      rw [Nat.zero_add] at hEntry ⊢
      exact hKey x (List.mem_of_getElem? hx) _ entry hEntry
  rw [hEntries]
  apply List.filterMap_congr
  intro x _
  rw [apply_ite (Option.map itemKey)]
  rfl

/-- The site looks at no answers but those of its own item. -/
def Local (k : Nat) (site : α → (Nat → Option σ) → Option (Option β)) : Prop :=
  ∀ x row row', (∀ j < k, row j = row' j) → site x row = site x row'

variable {good : ρ → Prop} {f : ρ → σ} {keep : α → Bool} {kept : β → Bool}

theorem site_rowOf (hAnswers : AnswersAs query good f) (hLength : ∀ x, (requests x).length = k)
    (hLocal : Local k site) {i : Nat} {x : α} (hx : items[i]? = some x) (hGood : ∀ r ∈ requests x, good r) :
    site x (rowOf k (query (items.flatMap requests)) i) = site x (answersOf requests f x) := by
  apply hLocal
  intro j hj
  exact rowOf_eq hAnswers hLength hx hGood hj

theorem batched_filter (hAnswers : AnswersAs query good f) (h : batched query k requests site items = some ys)
    (hLength : ∀ x, (requests x).length = k)
    (hKept : ∀ x ∈ items, ∀ row y, site x row = some (some y) → kept y = keep x)
    (hGood : ∀ x ∈ items, keep x = true → ∀ r ∈ requests x, good r) (hLocal : Local k site) :
    ys.filter kept = (items.filter keep).filterMap fun x => (site x (answersOf requests f x)).join := by
  refine collectFrom_filter h _ (fun i x hx y => hKept x hx _ y) fun i x hx hKeep => ?_
  have hSame := site_rowOf hAnswers hLength hLocal hx (hGood x (List.mem_of_getElem? hx) hKeep)
  have hRan := collectFrom_isSome_iff.mp (Option.isSome_iff_exists.mpr ⟨ys, h⟩) i x hx
  rw [Nat.zero_add] at hRan ⊢
  rw [hSame] at hRan ⊢
  obtain ⟨entry, hEntry⟩ := Option.isSome_iff_exists.mp hRan
  rw [hEntry]
  rfl

/-- Two queries that answer the good requests alike, and sites that agree on the items that make no other. -/
theorem batched_congr {query' : List ρ → List σ} {site' : α → (Nat → Option σ) → Option (Option β)} {ys' : List β}
    (hAnswers : AnswersAs query good f) (hAnswers' : AnswersAs query' good f)
    (h : batched query k requests site items = some ys) (h' : batched query' k requests site' items = some ys')
    (hLength : ∀ x, (requests x).length = k)
    (hKept : ∀ x ∈ items, ∀ row y, site x row = some (some y) → kept y = keep x)
    (hKept' : ∀ x ∈ items, ∀ row y, site' x row = some (some y) → kept y = keep x)
    (hGood : ∀ x ∈ items, keep x = true → ∀ r ∈ requests x, good r) (hLocal : Local k site) (hLocal' : Local k site')
    (hSame : ∀ x ∈ items, keep x = true → ∀ row, site x row = site' x row) : ys.filter kept = ys'.filter kept := by
  rw [batched_filter hAnswers h hLength hKept hGood hLocal, batched_filter hAnswers' h' hLength hKept' hGood hLocal']
  apply List.filterMap_congr
  intro x hx
  obtain ⟨hMem, hKeep⟩ := List.mem_filter.mp hx
  rw [hSame x hMem hKeep]

theorem lookup_batched {κ γ : Type*} [BEq κ] [LawfulBEq κ] {site : α → (Nat → Option σ) → Option (Option (κ × γ))}
    {ys : List (κ × γ)} (hAnswers : AnswersAs query good f) (h : batched query k requests site items = some ys)
    (hLength : ∀ x, (requests x).length = k) (key : α → κ) (hNodup : (items.map key).Nodup)
    (hKey : ∀ x row y, site x row = some (some y) → y.1 = key x) (hLocal : Local k site) {x : α} (hx : x ∈ items)
    (hGood : ∀ r ∈ requests x, good r) :
    ys.lookup (key x) = (site x (answersOf requests f x)).join.map Prod.snd := by
  obtain ⟨i, hi⟩ := List.mem_iff_getElem?.mp hx
  obtain ⟨entry, hEntry, hLookup⟩ := lookup_row h key hNodup hKey hi
  rw [site_rowOf hAnswers hLength hLocal hi hGood] at hEntry
  rw [hLookup, hEntry]
  rfl

end Query

end Batch
