import NfsPlayground.Lib.Runs
import Mathlib.Logic.Function.Basic

/-!
# Processes that share a memory

Any number of processes, each at a point of its own, and a memory that they share: at every step of a run one of them
moves, in whatever order. `exec_local` is the rule for what is said of each process alone: a process keeps it of itself,
and every other process keeps it of that one.
-/

namespace Procs

open Runs

variable {ι σ P A : Type*} [DecidableEq ι]

structure State (ι σ P : Type*) where
  shared : σ
  point : ι → P

variable (next : ι → σ → P → A → σ × P)

/-- The step of one process, with an answer from outside. -/
def step (s : State ι σ P) (x : ι × A) : Unit × State ι σ P :=
  let r := next x.1 s.shared (s.point x.1) x.2
  ((), ⟨r.1, Function.update s.point x.1 r.2⟩)

variable {next}

@[simp] theorem step_shared (s : State ι σ P) (x : ι × A) :
    (step next s x).2.shared = (next x.1 s.shared (s.point x.1) x.2).1 := rfl

@[simp] theorem step_self (s : State ι σ P) (x : ι × A) :
    (step next s x).2.point x.1 = (next x.1 s.shared (s.point x.1) x.2).2 := Function.update_self ..

@[simp] theorem step_other (s : State ι σ P) (x : ι × A) {j : ι} (h : j ≠ x.1) :
    (step next s x).2.point j = s.point j := Function.update_of_ne h ..

/-- The points after a step: where the process that moved goes, and where the others were. -/
theorem step_points {L : ι → P → Prop} {s : State ι σ P} {x : ι × A}
    (hself : L x.1 (next x.1 s.shared (s.point x.1) x.2).2) (hother : ∀ j, j ≠ x.1 → L j (s.point j)) :
    ∀ j, L j ((step next s x).2.point j) := by
  intro j
  by_cases hj : j = x.1
  · subst hj
    rw [step_self]
    exact hself
  · rw [step_other s x hj]
    exact hother j hj

/-- What every process keeps of the memory, of itself and of every other one holds in every state of a run. -/
theorem exec_local {G : σ → Prop} {L : σ → ι → P → Prop}
    (hown : ∀ m i p a, G m → L m i p → G (next i m p a).1 ∧ L (next i m p a).1 i (next i m p a).2)
    (hother : ∀ m i p a, G m → L m i p → ∀ j q, j ≠ i → L m j q → L (next i m p a).1 j q)
    (xs : List (ι × A)) {s : State ι σ P} (hG : G s.shared) (hL : ∀ i, L s.shared i (s.point i)) :
    G (exec (step next) s xs).shared ∧ ∀ i, L (exec (step next) s xs).shared i ((exec (step next) s xs).point i) := by
  refine exec_inv' (I := fun s : State ι σ P => G s.shared ∧ ∀ i, L s.shared i (s.point i)) ?_ xs ⟨hG, hL⟩
  rintro s x ⟨hG, hL⟩
  obtain ⟨hG', hL'⟩ := hown s.shared x.1 (s.point x.1) x.2 hG (hL x.1)
  exact ⟨hG', step_points (L := L _) hL' fun j hj =>
    hother s.shared x.1 (s.point x.1) x.2 hG (hL x.1) j (s.point j) hj (hL j)⟩

end Procs
