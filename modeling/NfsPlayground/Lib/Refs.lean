import Mathlib.Logic.Function.Basic
import Mathlib.Data.List.Basic

/-!
# Reference-counted objects

A table of reference counts, with a record of every time a count reached zero and of what held at that moment (a value
of `τ`, for instance what was in use then). `Counts t held` says that the counts are those of `held`, and that every
object allocated has reached zero once if it has no holder left and never if it has one. The operations keep it, with
the holders moved by one.
-/

namespace Refs

variable {τ : Type*}

structure Table (τ : Type*) where
  /-- The objects below `next` have been allocated. -/
  next : Nat
  usage : Nat → Int
  zeroed : List (Nat × τ)

namespace Table

/-- Allocates the object `t.next`, with one reference. -/
def alloc (t : Table τ) : Table τ := { t with next := t.next + 1, usage := Function.update t.usage t.next 1 }

def get (t : Table τ) (i : Nat) : Table τ := { t with usage := Function.update t.usage i (t.usage i + 1) }

def put (t : Table τ) (now : τ) (i : Nat) : Table τ :=
  { t with
    usage := Function.update t.usage i (t.usage i - 1)
    zeroed := if t.usage i - 1 = 0 then t.zeroed ++ [(i, now)] else t.zeroed }

/-- How often the count of `i` reached zero. -/
def timesZeroed (t : Table τ) (i : Nat) : Nat := (t.zeroed.map Prod.fst).count i

end Table

/-- The counts are those of `held`; an object without holder has reached zero once, one with a holder never. -/
structure Counts (t : Table τ) (held : Nat → Nat) : Prop where
  usage : ∀ i, t.usage i = held i
  unused : ∀ i, t.next ≤ i → held i = 0 ∧ t.timesZeroed i = 0
  once : ∀ i, i < t.next → t.timesZeroed i = if held i = 0 then 1 else 0

variable {t : Table τ} {held : Nat → Nat}

theorem Counts.lt_next (h : Counts t held) {i : Nat} (hi : held i ≠ 0) : i < t.next := by
  by_contra hge
  exact hi (h.unused i (by omega)).1

theorem Counts.alloc (h : Counts t held) : Counts t.alloc (Function.update held t.next 1) where
  usage i := by
    by_cases hi : i = t.next
    · simp [Table.alloc, hi]
    · simp [Table.alloc, hi, h.usage i]
  unused i hle := by
    have hlt : t.next < i := hle
    rw [Function.update_of_ne (by omega)]
    exact h.unused i (by omega)
  once i hlt := by
    show t.timesZeroed i = _
    by_cases hi : i = t.next
    · simp [hi, (h.unused t.next (Nat.le_refl _)).2]
    · have : i < t.next + 1 := hlt
      rw [Function.update_of_ne hi]
      exact h.once i (by omega)

theorem Counts.get (h : Counts t held) {i : Nat} (hi : held i ≠ 0) :
    Counts (t.get i) (Function.update held i (held i + 1)) where
  usage j := by
    by_cases hj : j = i
    · simp [Table.get, hj, h.usage i]
    · simp [Table.get, hj, h.usage j]
  unused j hle := by
    have hne : j ≠ i := fun hj => hi (hj ▸ (h.unused j hle).1)
    rw [Function.update_of_ne hne]
    exact h.unused j hle
  once j hlt := by
    show t.timesZeroed j = _
    rw [h.once j hlt]
    by_cases hj : j = i
    · simp [hj, hi]
    · rw [Function.update_of_ne hj]

/-- A put that takes the last reference is recorded, any other is not. -/
theorem Counts.put_zeroed (h : Counts t held) (now : τ) (i : Nat) :
    (t.put now i).zeroed = if held i = 1 then t.zeroed ++ [(i, now)] else t.zeroed := by
  have hiff : t.usage i - 1 = 0 ↔ held i = 1 := by
    rw [h.usage i]
    omega
  simp only [Table.put, hiff]

theorem Counts.put (h : Counts t held) (now : τ) {i : Nat} (hi : held i ≠ 0) :
    Counts (t.put now i) (Function.update held i (held i - 1)) := by
  have htimes : ∀ j, (t.put now i).timesZeroed j = t.timesZeroed j + if j = i ∧ held i = 1 then 1 else 0 := by
    intro j
    unfold Table.timesZeroed
    rw [h.put_zeroed]
    by_cases h1 : held i = 1
    · by_cases hj : j = i
      · simp [h1, hj]
      · simp [h1, hj, Ne.symm hj]
    · simp [h1]
  refine ⟨fun j => ?_, fun j hle => ?_, fun j hlt => ?_⟩
  · by_cases hj : j = i
    · subst hj
      simp only [Table.put, Function.update_self, h.usage j]
      omega
    · simp [Table.put, hj, h.usage j]
  · have hne : j ≠ i := fun hj => hi (hj ▸ (h.unused j hle).1)
    rw [htimes, Function.update_of_ne hne, if_neg fun hj => hne hj.1]
    exact h.unused j hle
  · rw [htimes, h.once j hlt]
    by_cases hj : j = i
    · subst hj
      rw [Function.update_self, if_neg hi]
      by_cases h1 : held j = 1
      · simp [h1]
      · simp [h1]
        omega
    · simp [hj]

theorem Counts.update_next (h : Counts t held) : Function.update held t.next 0 = held := by
  rw [Function.update_eq_self_iff, (h.unused t.next (Nat.le_refl _)).1]

/-- An allocation whose only reference is put again. -/
theorem Counts.alloc_put (h : Counts t held) (now : τ) : Counts (t.alloc.put now t.next) held := by
  have hput := h.alloc.put now (i := t.next) (by simp)
  simpa [h.update_next] using hput

theorem Counts.alloc_get (h : Counts t held) : Counts (t.alloc.get t.next) (Function.update held t.next 2) := by
  have hget := h.alloc.get (i := t.next) (by simp)
  simpa using hget

/-- An allocation with a second reference, both put again. -/
theorem Counts.alloc_get_put_put (h : Counts t held) (now now' : τ) :
    Counts (((t.alloc.get t.next).put now t.next).put now' t.next) held := by
  have hput := (h.alloc_get.put now (i := t.next) (by simp)).put now' (i := t.next) (by simp)
  simpa [h.update_next] using hput

/-- Who is in use when a count reaches zero: a put records nothing but the object put. -/
theorem Table.mem_put {now : τ} {i : Nat} {p : Nat × τ} (hp : p ∈ (t.put now i).zeroed) :
    p ∈ t.zeroed ∨ p = (i, now) := by
  simp only [Table.put] at hp
  split at hp
  · simpa using hp
  · exact Or.inl hp

end Refs
