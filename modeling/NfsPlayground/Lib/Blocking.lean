import Mathlib.Tactic.Basic

/-!
# Moves that may have to wait

A system is a step function: from a state, a move leads to another state, or cannot be made. A run makes moves that can
be made and meet a condition.

- `Run.inv`: what the moves keep, a run keeps;
- `Run.length_le`: a measure that goes down with every move bounds the runs;
- `exists_run_to`: then, if a move can be made wherever it is not the end, the end is reached from everywhere.
-/

namespace Blocking

variable {σ ι : Type} {step : σ → ι → Option σ} {P : σ → ι → Prop} {I End : σ → Prop} {μ : σ → Nat}

/-- The moves lead from one state to the other, and each meets the condition. -/
inductive Run (step : σ → ι → Option σ) (P : σ → ι → Prop) : σ → List ι → σ → Prop
  | nil (s : σ) : Run step P s [] s
  | cons {s s₁ s' : σ} {i : ι} {is : List ι} : P s i → step s i = some s₁ → Run step P s₁ is s' →
      Run step P s (i :: is) s'

/-- No move can be made. -/
def Blocked (step : σ → ι → Option σ) (s : σ) : Prop := ∀ i, step s i = none

theorem Run.append {s s' s'' : σ} {is js : List ι} (h : Run step P s is s') (h' : Run step P s' js s'') :
    Run step P s (is ++ js) s'' := by
  induction h with
  | nil s => exact h'
  | cons hp hs _ ih => exact .cons hp hs (ih h')

theorem Run.inv (hstep : ∀ s i s', I s → P s i → step s i = some s' → I s') {s s' : σ} {is : List ι}
    (h : Run step P s is s') (hinit : I s) : I s' := by
  induction h with
  | nil s => exact hinit
  | cons hp hs _ ih => exact ih (hstep _ _ _ hinit hp hs)

theorem Run.length_le (hstep : ∀ s i s', I s → P s i → step s i = some s' → I s' ∧ μ s' < μ s) {s s' : σ}
    {is : List ι} (h : Run step P s is s') (hinit : I s) : is.length + μ s' ≤ μ s := by
  induction h with
  | nil s => exact Nat.le_of_eq (Nat.zero_add _)
  | cons hp hs _ ih =>
    obtain ⟨hinv, hlt⟩ := hstep _ _ _ hinit hp hs
    have hle := ih hinv
    rw [List.length_cons]
    omega

theorem exists_run_to (hstep : ∀ s i s', I s → P s i → step s i = some s' → I s' ∧ μ s' < μ s)
    (hprogress : ∀ s, I s → ¬ End s → ∃ i s', P s i ∧ step s i = some s') {s : σ} (hinit : I s) :
    ∃ is s', Run step P s is s' ∧ End s' := by
  obtain ⟨n, hn⟩ : ∃ n, n = μ s := ⟨_, rfl⟩
  induction n using Nat.strongRecOn generalizing s with
  | _ n ih =>
    by_cases hend : End s
    · exact ⟨[], s, .nil s, hend⟩
    · obtain ⟨i, s₁, hp, hs⟩ := hprogress s hinit hend
      obtain ⟨hinv, hlt⟩ := hstep s i s₁ hinit hp hs
      obtain ⟨is, s', hrun, hend'⟩ := ih (μ s₁) (by omega) hinv rfl
      exact ⟨i :: is, s', .cons hp hs hrun, hend'⟩

/-- The moves made one after the other, if they can be and meet the condition. -/
def exec (step : σ → ι → Option σ) (P : σ → ι → Prop) [∀ s i, Decidable (P s i)] : σ → List ι → Option σ
  | s, [] => some s
  | s, i :: is => if P s i then (step s i).bind fun s' => exec step P s' is else none

theorem run_exec [∀ s i, Decidable (P s i)] : ∀ {is : List ι} {s s' : σ},
    exec step P s is = some s' → Run step P s is s'
  | [], s, _, h => Option.some.inj h ▸ .nil s
  | i :: _, s, _, h => by
    rw [exec] at h
    split at h
    · rename_i hp
      obtain ⟨s₁, hs, h⟩ := Option.bind_eq_some_iff.1 h
      exact .cons hp hs (run_exec h)
    · cases h

end Blocking
