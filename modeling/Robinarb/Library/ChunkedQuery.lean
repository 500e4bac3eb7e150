import Mathlib.Data.List.Basic
import Mathlib.Data.List.Forall2
import Robinarb.Library.PartialMaps

/-! # Queries in chunks

A list of requests is asked chunk by chunk, each chunk again until it is answered or its
tries are up, and the answers are put together again. They stand at the places of their
requests when those of each chunk do.
-/

namespace ChunkedQuery

universe u

variable {ρ σ : Type u}

/-- Chunks of `size` but for the last, and of one when `size` is zero. -/
def chunks (size : Nat) (xs : List ρ) : List (List ρ) := (xs.toChunksAux (size - 1) 0).2

def retried (tries : Nat) (ask : Nat → Option σ) : Option σ := (List.range tries).findSome? ask

/-- `ask` is given the number of the chunk, the attempt and the chunk. -/
def queried (tries size : Nat) (ask : Nat → Nat → List ρ → Option (List σ)) (asked : List ρ) : Option (List σ) :=
  ((chunks size asked).zipIdx.mapM fun chunk => retried tries fun attempt => ask chunk.2 attempt chunk.1).map List.flatten

theorem toChunksAux_flatten (n : Nat) (xs : List ρ) (i : Nat) :
    (xs.toChunksAux n i).1 ++ (xs.toChunksAux n i).2.flatten = xs := by
  induction xs generalizing i with
  | nil => rfl
  | cons x rest ih =>
    cases i with
    | zero => exact congrArg (x :: ·) (ih n)
    | succ i => exact congrArg (x :: ·) (ih i)

theorem toChunksAux_zero (n : Nat) (xs : List ρ) : (xs.toChunksAux n 0).1 = [] := by
  cases xs <;> rfl

theorem flatten_chunks (size : Nat) (xs : List ρ) : (chunks size xs).flatten = xs := by
  have hAll := toChunksAux_flatten (size - 1) xs 0
  rwa [toChunksAux_zero, List.nil_append] at hAll

section Answers

variable {tries size : Nat} {ask : Nat → Nat → List ρ → Option (List σ)} {asked : List ρ}

theorem retried_eq_some {f : Nat → Option σ} {answer : σ} (h : retried tries f = some answer) :
    ∃ attempt, f attempt = some answer := by
  obtain ⟨attempt, -, hAnswer⟩ := List.exists_of_findSome?_eq_some h
  exact ⟨attempt, hAnswer⟩

theorem queried_answers {R : ρ → σ → Prop}
    (hAsk : ∀ i attempt chunk answers, ask i attempt chunk = some answers → List.Forall₂ R chunk answers)
    {answers : List σ} (h : queried tries size ask asked = some answers) : List.Forall₂ R asked answers := by
  obtain ⟨parts, hParts, rfl⟩ := Option.map_eq_some_iff.mp h
  have hEach : List.Forall₂ (fun (chunk : List ρ × Nat) part => List.Forall₂ R chunk.1 part)
      (chunks size asked).zipIdx parts := by
    refine (PartialMaps.forall₂_of_mapM hParts).imp fun chunk part hPart => ?_
    obtain ⟨attempt, hAnswer⟩ := retried_eq_some hPart
    exact hAsk _ _ _ _ hAnswer
  have hChunks : List.Forall₂ (List.Forall₂ R) ((chunks size asked).zipIdx.map Prod.fst) parts :=
    List.forall₂_map_left_iff.mpr hEach
  rw [List.zipIdx_map_fst] at hChunks
  exact flatten_chunks size asked ▸ List.rel_flatten hChunks

theorem queried_isSome (h : ∀ i chunk, ∃ attempt < tries, (ask i attempt chunk).isSome) :
    ∃ answers, queried tries size ask asked = some answers := by
  have hEach : ∀ chunk ∈ (chunks size asked).zipIdx,
      (retried tries fun attempt => ask chunk.2 attempt chunk.1).isSome := by
    intro chunk _
    obtain ⟨attempt, hLt, hAnswer⟩ := h chunk.2 chunk.1
    exact List.findSome?_isSome_iff.mpr ⟨attempt, List.mem_range.mpr hLt, hAnswer⟩
  obtain ⟨parts, hParts⟩ := PartialMaps.mapM_isSome hEach
  exact ⟨parts.flatten, congrArg (Option.map List.flatten) hParts⟩

theorem queried_eq_map {f : ρ → σ} (hAsk : ∀ i attempt chunk answers, ask i attempt chunk = some answers → answers = chunk.map f)
    {answers : List σ} (h : queried tries size ask asked = some answers) : answers = asked.map f := by
  have hEach : List.Forall₂ (fun r s => s = f r) asked answers := by
    refine queried_answers (fun i attempt chunk answers hAnswer => ?_) h
    rw [hAsk i attempt chunk answers hAnswer]
    exact List.forall₂_map_right_iff.mpr (List.forall₂_same.mpr fun _ _ => rfl)
  exact (List.forall₂_eq_eq_eq ▸ List.forall₂_map_left_iff.mpr (hEach.imp fun _ _ hEq => hEq.symm) :
    asked.map f = answers).symm

end Answers

end ChunkedQuery
