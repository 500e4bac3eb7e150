/-! # Loops with a bound on their iterations

A loop body may fail, stop, or go on in a new state with a report of what the
iteration did. The loop runs the body a bounded number of times and keeps the
reports in order. Two rules carry every use: induction along a run, and the
comparison of two bodies on the states that one of the loops visits.
-/

namespace BoundedLoop

universe u v w

variable {σ : Type u} {τ : Type v} {ε : Type w}

/-- One evaluation of the loop body: `none` leaves the loop. -/
abbrev Body (σ : Type u) (τ : Type v) (ε : Type w) := σ → Except ε (Option (σ × τ))

def run (body : Body σ τ ε) : Nat → σ → Except ε (σ × List τ)
  | 0, s => .ok (s, [])
  | n + 1, s =>
    match body s with
    | .error e => .error e
    | .ok none => .ok (s, [])
    | .ok (some (t, report)) =>
      match run body n t with
      | .error e => .error e
      | .ok (final, reports) => .ok (final, report :: reports)

/-- The states on which a run evaluates the body, in order. -/
def visited (body : Body σ τ ε) : Nat → σ → List σ
  | 0, _ => []
  | n + 1, s =>
    s :: match body s with
      | .ok (some (t, _)) => visited body n t
      | _ => []

@[simp] theorem run_zero (body : Body σ τ ε) (s : σ) : run body 0 s = .ok (s, []) := rfl

theorem run_of_stop {body : Body σ τ ε} {s : σ} (h : body s = .ok none) (n : Nat) :
    run body n s = .ok (s, []) := by
  cases n with
  | zero => rfl
  | succ n => simp only [run, h]

theorem run_of_error {body : Body σ τ ε} {s : σ} {e : ε} (h : body s = .error e) (n : Nat) :
    run body (n + 1) s = .error e := by
  simp only [run, h]

theorem run_of_next {body : Body σ τ ε} {s t : σ} {report : τ}
    (h : body s = .ok (some (t, report))) (n : Nat) :
    run body (n + 1) s = (run body n t).map (fun r => (r.1, report :: r.2)) := by
  simp only [run, h]
  cases run body n t <;> rfl

theorem run_succ_cases {body : Body σ τ ε} {n : Nat} {s final : σ} {reports : List τ}
    (h : run body (n + 1) s = .ok (final, reports)) :
    (body s = .ok none ∧ final = s ∧ reports = []) ∨
    ∃ t report rest, body s = .ok (some (t, report)) ∧ run body n t = .ok (final, rest) ∧
      reports = report :: rest := by
  rcases hs : body s with e | _ | ⟨t, report⟩
  · rw [run_of_error hs] at h
    cases h
  · rw [run_of_stop hs] at h
    cases h
    exact .inl ⟨rfl, rfl, rfl⟩
  · rw [run_of_next hs] at h
    rcases hr : run body n t with e | ⟨last, rest⟩
    · rw [hr] at h
      cases h
    · rw [hr] at h
      cases h
      exact .inr ⟨t, report, rest, rfl, hr, rfl⟩

/-- Induction along a run that succeeds, under an invariant of the states. -/
theorem run_induct {body : Body σ τ ε} (invariant : σ → Prop) (motive : σ → List τ → σ → Prop)
    (preserved : ∀ s t report, invariant s → body s = .ok (some (t, report)) → invariant t)
    (done : ∀ s, invariant s → motive s [] s)
    (next : ∀ s t report reports final, invariant s → body s = .ok (some (t, report)) →
      motive t reports final → motive s (report :: reports) final)
    {n : Nat} {s final : σ} {reports : List τ} (hs : invariant s)
    (h : run body n s = .ok (final, reports)) : motive s reports final ∧ invariant final := by
  induction n generalizing s reports with
  | zero =>
    cases h
    exact ⟨done _ hs, hs⟩
  | succ n ih =>
    obtain ⟨_, rfl, rfl⟩ | ⟨t, report, rest, hBody, hRun, rfl⟩ := run_succ_cases h
    · exact ⟨done _ hs, hs⟩
    · obtain ⟨hMotive, hFinal⟩ := ih (preserved s t report hs hBody) hRun
      exact ⟨next s t report rest final hs hBody hMotive, hFinal⟩

theorem visited_invariant {body : Body σ τ ε} {invariant : σ → Prop}
    (preserved : ∀ s t report, invariant s → body s = .ok (some (t, report)) → invariant t)
    {n : Nat} {s : σ} (hs : invariant s) : ∀ t ∈ visited body n s, invariant t := by
  induction n generalizing s with
  | zero => simp [visited]
  | succ n ih =>
    intro t ht
    obtain rfl | ht := List.mem_cons.mp ht
    · exact hs
    · rcases hBody : body s with e | _ | ⟨next, report⟩ <;> simp only [hBody] at ht
      · cases ht
      · cases ht
      · exact ih (preserved s next report hs hBody) t ht

/-- Bodies that agree on every visited state run alike, failures included. -/
theorem run_congr {body other : Body σ τ ε} {n : Nat} {s : σ}
    (agree : ∀ t ∈ visited body n s, other t = body t) : run other n s = run body n s := by
  induction n generalizing s with
  | zero => rfl
  | succ n ih =>
    have hs : other s = body s := agree s List.mem_cons_self
    rcases hBody : body s with e | _ | ⟨t, report⟩
    · rw [run_of_error hBody, run_of_error (hs.trans hBody)]
    · rw [run_of_stop hBody, run_of_stop (hs.trans hBody)]
    · rw [run_of_next hBody, run_of_next (hs.trans hBody)]
      rw [ih fun u hu => agree u (by simp only [visited, hBody]; exact List.mem_cons_of_mem _ hu)]

/-- A body that only ever stops earlier makes a run that reports a prefix. -/
theorem run_prefix {body early : Body σ τ ε} {n : Nat} {s final : σ} {reports : List τ}
    (agree : ∀ t ∈ visited body n s, early t = .ok none ∨ early t = body t)
    (h : run body n s = .ok (final, reports)) :
    ∃ last shorter, run early n s = .ok (last, shorter) ∧ shorter <+: reports := by
  induction n generalizing s reports with
  | zero => exact ⟨s, [], rfl, List.nil_prefix⟩
  | succ n ih =>
    obtain hStop | hs := agree s List.mem_cons_self
    · exact ⟨s, [], run_of_stop hStop _, List.nil_prefix⟩
    · obtain ⟨hBody, rfl, rfl⟩ | ⟨t, report, rest, hBody, hRun, rfl⟩ := run_succ_cases h
      · exact ⟨_, [], run_of_stop (hs.trans hBody) _, List.nil_prefix⟩
      · obtain ⟨last, shorter, hEarly, hPrefix⟩ := ih (s := t)
          (fun u hu => agree u (by simp only [visited, hBody]; exact List.mem_cons_of_mem _ hu)) hRun
        refine ⟨last, report :: shorter, ?_, (List.prefix_cons_inj report).mpr hPrefix⟩
        rw [run_of_next (hs.trans hBody), hEarly]
        rfl

theorem run_length_le {body : Body σ τ ε} {n : Nat} {s final : σ} {reports : List τ}
    (h : run body n s = .ok (final, reports)) : reports.length ≤ n := by
  induction n generalizing s reports with
  | zero =>
    cases h
    exact Nat.le_refl 0
  | succ n ih =>
    obtain ⟨_, _, rfl⟩ | ⟨t, report, rest, _, hRun, rfl⟩ := run_succ_cases h
    · exact Nat.zero_le _
    · exact Nat.succ_le_succ (ih hRun)

end BoundedLoop
