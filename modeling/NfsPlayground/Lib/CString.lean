import Mathlib.Data.List.Basic

/-!
# C strings in a buffer

A pointer into a buffer is what the buffer holds from there on, and an access at its end is `none`: a call that returns
has read inside the buffer only. The string at a pointer ends before the first NUL.
-/

namespace CString

abbrev Ptr := List Char

def NUL : Char := '\x00'

def strlen : Ptr → Option Nat
  | [] => none
  | c :: p => if c = NUL then some 0 else (strlen p).map (· + 1)

/-- Zero for equal strings. -/
def strcmp : Ptr → Ptr → Option Int
  | c :: p, d :: q =>
    if c ≠ d then some (if c < d then -1 else 1)
    else if c = NUL then some 0
    else strcmp p q
  | _, _ => none

/-- The pointer to the first `c`, or to the NUL. -/
def strchrnul (c : Char) : Ptr → Option Ptr
  | [] => none
  | d :: p => if d = NUL ∨ d = c then some (d :: p) else strchrnul c p

/-- What `%.*s` prints: the string, cut after `n` characters. -/
def precision : Nat → Ptr → Option (List Char)
  | 0, _ => some []
  | _ + 1, [] => none
  | n + 1, c :: p => if c = NUL then some [] else (precision n p).map (c :: ·)

variable {s t : List Char} {p q : Ptr}

@[simp] theorem strlen_string (hs : NUL ∉ s) (p : Ptr) : strlen (s ++ NUL :: p) = some s.length := by
  induction s with
  | nil => simp [strlen]
  | cons c s ih =>
    simp only [List.mem_cons, not_or] at hs
    simp [strlen, Ne.symm hs.1, ih hs.2]

/-- Two strings compare equal only if they are. -/
theorem strcmp_string (hs : NUL ∉ s) (ht : NUL ∉ t) (p q : Ptr) :
    ∃ r, strcmp (s ++ NUL :: p) (t ++ NUL :: q) = some r ∧ (r = 0 ↔ s = t) := by
  induction s generalizing t with
  | nil =>
    cases t with
    | nil => exact ⟨0, by simp [strcmp], by simp⟩
    | cons d t =>
      simp only [List.mem_cons, not_or] at ht
      refine ⟨if NUL < d then -1 else 1, by simp [strcmp, ht.1], ?_⟩
      split <;> simp
  | cons c s ih =>
    simp only [List.mem_cons, not_or] at hs
    cases t with
    | nil =>
      refine ⟨if c < NUL then -1 else 1, by simp [strcmp, Ne.symm hs.1], ?_⟩
      split <;> simp
    | cons d t =>
      simp only [List.mem_cons, not_or] at ht
      by_cases hcd : c = d
      · subst hcd
        obtain ⟨r, hr, hiff⟩ := ih hs.2 ht.2
        exact ⟨r, by simp [strcmp, Ne.symm hs.1, hr], by simp [hiff]⟩
      · refine ⟨if c < d then -1 else 1, by simp [strcmp, hcd], ?_⟩
        split <;> simp [hcd]

/-- Nothing before the character that is looked for. -/
theorem strchrnul_skip {c d : Char} (hs : NUL ∉ s) (hc : c ∉ s) (hd : d = NUL ∨ d = c) (p : Ptr) :
    strchrnul c (s ++ d :: p) = some (d :: p) := by
  induction s with
  | nil => simp [strchrnul, hd]
  | cons e s ih =>
    simp only [List.mem_cons, not_or] at hs hc
    simp [strchrnul, Ne.symm hs.1, Ne.symm hc.1, ih hs.2 hc.2]

theorem precision_prefix (hs : NUL ∉ s) (p : Ptr) : precision s.length (s ++ p) = some s := by
  induction s with
  | nil => simp [precision]
  | cons c s ih =>
    simp only [List.mem_cons, not_or] at hs
    simp [precision, Ne.symm hs.1, ih hs.2]

theorem length_strchrnul {c : Char} (h : strchrnul c p = some q) : q.length ≤ p.length := by
  induction p with
  | nil => cases h
  | cons d p ih =>
    rw [strchrnul] at h
    split at h
    · cases h
      exact Nat.le_refl _
    · exact Nat.le_succ_of_le (ih h)

end CString
