import Mathlib.Data.List.Basic
import Mathlib.Tactic.Tauto

/-!
# Runs of a deterministic system

A system is a step function: an input gives an output and the next state.

- `exec` is the state after a list of inputs, `total` the sum of a weight over the steps made;
- `Along P` says that every step of a run is made from a state satisfying `P`;
- `exec_inv`: what every step preserves holds after the run.
-/

namespace Runs

variable {σ ι ο : Type*} (step : σ → ι → ο × σ)

/-- The state after a list of inputs. -/
def exec : σ → List ι → σ
  | s, [] => s
  | s, i :: is => exec (step s i).2 is

/-- The outputs of a run. -/
def outs : σ → List ι → List ο
  | _, [] => []
  | s, i :: is => (step s i).1 :: outs (step s i).2 is

/-- The sum over a run of a weight of each input and its output. -/
def total (w : ι → ο → Int) : σ → List ι → Int
  | _, [] => 0
  | s, i :: is => w i (step s i).1 + total w (step s i).2 is

/-- Every step of the run is made from a state satisfying `P`. -/
def Along (P : σ → ι → Prop) : σ → List ι → Prop
  | _, [] => True
  | s, i :: is => P s i ∧ Along P (step s i).2 is

instance decidableAlong {P : σ → ι → Prop} [∀ s i, Decidable (P s i)] :
    ∀ (s : σ) (is : List ι), Decidable (Along step P s is)
  | _, [] => isTrue trivial
  | s, i :: is => @instDecidableAnd _ _ (inferInstance : Decidable (P s i)) (decidableAlong (step s i).2 is)

variable {step}

/-! ## Runs compose -/

theorem exec_append : ∀ (is js : List ι) (s : σ), exec step s (is ++ js) = exec step (exec step s is) js
  | [], _, _ => rfl
  | i :: is, js, s => exec_append is js (step s i).2

theorem exec_snoc (is : List ι) (i : ι) (s : σ) :
    exec step s (is ++ [i]) = (step (exec step s is) i).2 := exec_append is [i] s

theorem total_append (w : ι → ο → Int) : ∀ (is js : List ι) (s : σ),
    total step w s (is ++ js) = total step w s is + total step w (exec step s is) js
  | [], _, _ => by simp [total, exec]
  | i :: is, js, s => by
    simp only [List.cons_append, total, exec, total_append w is js (step s i).2]
    omega

theorem total_snoc (w : ι → ο → Int) (is : List ι) (i : ι) (s : σ) :
    total step w s (is ++ [i]) = total step w s is + w i (step (exec step s is) i).1 := by
  simp [total_append, total]

theorem along_append (P : σ → ι → Prop) : ∀ (is js : List ι) (s : σ),
    Along step P s (is ++ js) ↔ Along step P s is ∧ Along step P (exec step s is) js
  | [], _, _ => by simp [Along, exec]
  | i :: is, js, s => by
    simp only [List.cons_append, Along, exec, along_append P is js, and_assoc]

theorem along_of {P : σ → ι → Prop} (h : ∀ s i, P s i) : ∀ {is : List ι} {s : σ}, Along step P s is
  | [], _ => trivial
  | i :: _, s => ⟨h s i, along_of h⟩

theorem along_and (P Q : σ → ι → Prop) : ∀ (is : List ι) (s : σ),
    Along step (fun s i => P s i ∧ Q s i) s is ↔ Along step P s is ∧ Along step Q s is
  | [], _ => by simp [Along]
  | i :: is, s => by
    simp only [Along, along_and P Q is]
    tauto

/-! ## The induction rules -/

/-- What every step preserves holds after the run. -/
theorem exec_inv {I : σ → Prop} {P : σ → ι → Prop} (hstep : ∀ s i, I s → P s i → I (step s i).2) :
    ∀ (is : List ι) {s : σ}, I s → Along step P s is → I (exec step s is)
  | [], _, h, _ => h
  | i :: is, s, h, ha => exec_inv hstep is (s := (step s i).2) (hstep s i h ha.1) ha.2

/-- What every step preserves, without a condition on the steps. -/
theorem exec_inv' {I : σ → Prop} (hstep : ∀ s i, I s → I (step s i).2) :
    ∀ (is : List ι) {s : σ}, I s → I (exec step s is)
  | [], _, h => h
  | i :: is, s, h => exec_inv' hstep is (s := (step s i).2) (hstep s i h)

/-- If a step from a state satisfying `I` leads to one satisfying `J` only when it satisfies `P`, and then to one
satisfying `I`, every state of the run satisfies `J` exactly when every step of it satisfies `P`. -/
theorem forall_take_iff_along_of {I J : σ → Prop} {P : σ → ι → Prop} (hij : ∀ s, I s → J s)
    (hstep : ∀ s i, I s → (J (step s i).2 → P s i) ∧ (P s i → I (step s i).2)) :
    ∀ (is : List ι) {s : σ}, I s → ((∀ n, J (exec step s (is.take n))) ↔ Along step P s is)
  | [], s, h => by simp [exec, Along, hij s h]
  | i :: is, s, h => by
    constructor
    · intro hall
      have h1 : J (step s i).2 := by simpa [exec] using hall 1
      have hp := (hstep s i h).1 h1
      refine ⟨hp, (forall_take_iff_along_of hij hstep is ((hstep s i h).2 hp)).1 fun n => ?_⟩
      simpa [exec] using hall (n + 1)
    · rintro ⟨hp, ha⟩ n
      cases n with
      | zero => simpa [exec] using hij s h
      | succ n => simpa [exec] using (forall_take_iff_along_of hij hstep is ((hstep s i h).2 hp)).2 ha n

/-- If a step keeps `I` exactly when it satisfies `P`, every state of the run satisfies `I` exactly when every step
of it satisfies `P`. -/
theorem forall_take_iff_along {I : σ → Prop} {P : σ → ι → Prop} (hstep : ∀ s i, I s → (I (step s i).2 ↔ P s i))
    (is : List ι) {s : σ} (h : I s) : (∀ n, I (exec step s (is.take n))) ↔ Along step P s is :=
  forall_take_iff_along_of (fun _ hs => hs) (fun s i hs => ⟨(hstep s i hs).1, (hstep s i hs).2⟩) is h

end Runs
