import Mathlib.Data.List.Basic

/-!
# Computations that may be left

A computation in `Except ε` ends with a result or is left with an `ε`. `Ends Q E` says how: a result satisfies `Q`, and
what it is left with `E`. A loop that counts up keeps an invariant that may depend on the count.
-/

/-- A result satisfies `Q`; what the computation is left with satisfies `E`. -/
def Ends {ε α : Type} (Q : α → Prop) (E : ε → Prop) : Except ε α → Prop
  | .ok a => Q a
  | .error e => E e

namespace Ends

variable {ε α β : Type} {Q Q' : α → Prop} {R : β → Prop} {E E' : ε → Prop} {x : Except ε α}

theorem mono (h : Ends Q E x) (hq : ∀ a, Q a → Q' a) (he : ∀ e, E e → E' e) : Ends Q' E' x := by
  cases x with
  | ok a => exact hq a h
  | error e => exact he e h

theorem imp (h : Ends Q E x) (hq : ∀ a, Q a → Q' a) : Ends Q' E x := h.mono hq fun _ he => he

theorem bind {f : α → Except ε β} (h : Ends Q E x) (hf : ∀ a, Q a → Ends R E (f a)) : Ends R E (x >>= f) := by
  cases x with
  | ok a => exact hf a h
  | error e => exact h

theorem map {f : α → β} (h : Ends Q E x) (hf : ∀ a, Q a → R (f a)) : Ends R E (f <$> x) := by
  cases x with
  | ok a => exact hf a h
  | error e => exact h

theorem ok_bind (a : α) (f : α → Except ε β) : (Except.ok a >>= f) = f a := rfl

theorem of_bind_ok {f : α → Except ε β} {b : β} (h : (x >>= f) = .ok b) : ∃ a, x = .ok a ∧ f a = .ok b := by
  cases x with
  | ok a => exact ⟨a, rfl, h⟩
  | error e => cases h

theorem of_map_ok {f : α → β} {b : β} (h : x.map f = .ok b) : ∃ a, x = .ok a ∧ f a = b := by
  cases x with
  | ok a => exact ⟨a, rfl, Except.ok.inj h⟩
  | error e => cases h

/-- A computation that cannot be left has a result. -/
theorem exists_ok (h : Ends Q (fun _ : ε => False) x) : ∃ a, x = .ok a ∧ Q a := by
  cases x with
  | ok a => exact ⟨a, rfl, h⟩
  | error e => exact absurd h not_false

theorem of_error {e : ε} (h : Ends Q E x) (hx : x = .error e) : E e := by
  rw [hx] at h
  exact h

theorem of_ok {a : α} (h : Ends Q E x) (hx : x = .ok a) : Q a := by
  rw [hx] at h
  exact h

/-- What each pass of a loop over `0, …, n - 1` keeps, the loop keeps. -/
theorem foldlM_range {f : α → Nat → Except ε α} {I : Nat → α → Prop} : ∀ (n : Nat),
    (∀ i a, i < n → I i a → Ends (I (i + 1)) E (f a i)) → ∀ {a}, I 0 a →
      Ends (I n) E ((List.range n).foldlM f a)
  | 0, _, _, h => h
  | n + 1, hstep, a, h => by
    have ih : Ends (I n) E ((List.range n).foldlM f a) :=
      foldlM_range n (fun i a hi => hstep i a (Nat.lt_succ_of_lt hi)) h
    rw [List.range_succ, List.foldlM_append]
    refine ih.bind fun b hb => ?_
    rw [List.foldlM_cons]
    exact (hstep n b (Nat.lt_succ_self n) hb).bind fun c hc => hc

/-- The same where the passes cannot be left. -/
theorem foldl_range {f : α → Nat → α} {I : Nat → α → Prop} : ∀ (n : Nat),
    (∀ i a, i < n → I i a → I (i + 1) (f a i)) → ∀ {a}, I 0 a → I n ((List.range n).foldl f a)
  | 0, _, _, h => h
  | n + 1, hstep, a, h => by
    have ih : I n ((List.range n).foldl f a) := foldl_range n (fun i a hi => hstep i a (Nat.lt_succ_of_lt hi)) h
    rw [List.range_succ, List.foldl_append]
    exact hstep n _ (Nat.lt_succ_self n) ih

end Ends
