import Mathlib.Data.List.Basic

/-!
# Calls that stop at the first error

A C function that changes the state and returns an `int`, `0` for success, is a `Call`. `chain fs` makes the calls
`fs` in order, each followed by `if (err) return err;`.
-/

namespace ErrChain

variable {σ α : Type*}

/-- A call: what it returns and the state it leaves. -/
abbrev Call (σ : Type*) := σ → Int × σ

/-- The calls in order, up to the first that does not return `0`. -/
def chain : List (Call σ) → Call σ
  | [], s => (0, s)
  | f :: fs, s => if (f s).1 = 0 then chain fs (f s).2 else f s

theorem chain_ok {f : Call σ} {fs : List (Call σ)} {s : σ} (h : (f s).1 = 0) :
    chain (f :: fs) s = chain fs (f s).2 := if_pos h

theorem chain_err {f : Call σ} {fs : List (Call σ)} {s : σ} (h : (f s).1 ≠ 0) :
    chain (f :: fs) s = f s := if_neg h

theorem chain_step {f : Call σ} {fs : List (Call σ)} {s t : σ} (h : f s = (0, t)) :
    chain (f :: fs) s = chain fs t := by
  rw [chain_ok (by rw [h]), h]

theorem chain_stop {f : Call σ} {fs : List (Call σ)} {s t : σ} {err : Int} (h : f s = (err, t)) (h0 : err ≠ 0) :
    chain (f :: fs) s = (err, t) := by
  rw [chain_err (by rw [h]; exact h0), h]

/-- A call that leaves the state alone only adds its condition. -/
theorem chain_readonly {f : Call σ} {s : σ} (h : (f s).2 = s) (fs : List (Call σ)) :
    (chain (f :: fs) s).1 = 0 ↔ (f s).1 = 0 ∧ (chain fs s).1 = 0 := by
  by_cases hf : (f s).1 = 0
  · rw [chain_ok hf, h, and_iff_right hf]
  · rw [chain_err hf]
    simp [hf]

/-- A chain continues where its first part succeeded. -/
theorem chain_append_ok : ∀ {fs : List (Call σ)} (gs : List (Call σ)) {s : σ}, (chain fs s).1 = 0 →
    chain (fs ++ gs) s = chain gs (chain fs s).2
  | [], _, _, _ => rfl
  | f :: fs, gs, s, h => by
    by_cases hf : (f s).1 = 0
    · rw [chain_ok hf] at h
      rw [List.cons_append, chain_ok hf, chain_ok hf, chain_append_ok gs h]
    · rw [chain_err hf] at h
      exact absurd h hf

/-- A chain stops where its first part failed. -/
theorem chain_append_err : ∀ {fs : List (Call σ)} (gs : List (Call σ)) {s : σ}, (chain fs s).1 ≠ 0 →
    chain (fs ++ gs) s = chain fs s
  | [], _, _, h => absurd rfl h
  | f :: fs, gs, s, h => by
    by_cases hf : (f s).1 = 0
    · rw [chain_ok hf] at h
      rw [List.cons_append, chain_ok hf, chain_ok hf, chain_append_err gs h]
    · rw [List.cons_append, chain_err hf, chain_err hf]

/-- What no call of a chain changes, the chain does not change. -/
theorem chain_frame {V : σ → α} : ∀ {fs : List (Call σ)}, (∀ f ∈ fs, ∀ s, V (f s).2 = V s) → ∀ s,
    V (chain fs s).2 = V s
  | [], _, _ => rfl
  | f :: fs, h, s => by
    have hf := h f List.mem_cons_self s
    by_cases h0 : (f s).1 = 0
    · rw [chain_ok h0, chain_frame (fun g hg => h g (List.mem_cons_of_mem _ hg)), hf]
    · rw [chain_err h0, hf]

end ErrChain
