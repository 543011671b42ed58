import NfsPlayground.Lib.Lines
import Mathlib.Algebra.Group.Int.Defs
import Mathlib.Algebra.Group.Nat.Defs

/-!
# Numbers as the kernel reads them

`kstrtoint()` in base 10 takes a sign, digits and one newline at the end. So a number can be written in several ways,
which differ in the sign, the newline and in how many zeros are in front (`kstrtoint_inj`); the digits alone are one of
them (`kstrtoint_toDigits`).
-/

namespace Kstrto

open Lines

/-- `_kstrtoull()`; the value is not bounded, since the caller's type is narrower -/
def kstrtoull (t : Text) : Option Nat :=
  if t.takeWhile Char.isDigit ≠ [] ∧ (t.dropWhile Char.isDigit = [] ∨ t.dropWhile Char.isDigit = ['\n']) then
    some (Nat.ofDigitChars 10 (t.takeWhile Char.isDigit) 0)
  else none

def positive (t : Text) : Option Int := (kstrtoull t).bind fun n => if n < 2 ^ 31 then some n else none

/-- `kstrtoint(t, 10, &v)`: the number, or `none` for an error. -/
def kstrtoint : Text → Option Int
  | '-' :: t => (kstrtoull t).bind fun n => if n ≤ 2 ^ 31 then some (-n) else none
  | '+' :: t => positive t
  | t => positive t

/-! ## Digits -/

theorem ofDigitChars_concat (l : Text) (c : Char) :
    Nat.ofDigitChars 10 (l ++ [c]) 0 = 10 * Nat.ofDigitChars 10 l 0 + (c.toNat - '0'.toNat) := by
  rw [Nat.ofDigitChars_append, Nat.ofDigitChars_cons, Nat.ofDigitChars_nil]

theorem digit_bounds {c : Char} (h : c.isDigit = true) : 48 ≤ c.toNat ∧ c.toNat ≤ 57 := by
  simp only [Char.isDigit, Bool.and_eq_true, decide_eq_true_eq, ge_iff_le, UInt32.le_iff_toNat_le] at h
  exact h

/-- Digits of one length and value are the same. -/
theorem digits_inj {a b : Text} (ha : ∀ c ∈ a, c.isDigit = true) (hb : ∀ c ∈ b, c.isDigit = true)
    (hlen : a.length = b.length) (hval : Nat.ofDigitChars 10 a 0 = Nat.ofDigitChars 10 b 0) : a = b := by
  induction a using List.reverseRecOn generalizing b with
  | nil => exact (List.length_eq_zero_iff.1 hlen.symm).symm
  | append_singleton a c ih =>
    rcases List.eq_nil_or_concat b with rfl | ⟨b, d, rfl⟩
    · simp at hlen
    · rw [List.concat_eq_append] at *
      have hc := digit_bounds (ha c (by simp))
      have hd := digit_bounds (hb d (by simp))
      rw [ofDigitChars_concat, ofDigitChars_concat, show '0'.toNat = 48 from rfl] at hval
      have hcd : c = d := Char.ext (UInt32.toNat.inj (show c.toNat = d.toNat by omega))
      have hab : a = b := ih (fun x hx => ha x (List.mem_append_left _ hx))
        (fun x hx => hb x (List.mem_append_left _ hx))
        (by simpa using hlen) (by omega)
      rw [hab, hcd]

/-! ## How a number is written -/

theorem kstrtoull_spec {t : Text} {n : Nat} (h : kstrtoull t = some n) : ∃ ds nl : Text, t = ds ++ nl ∧ ds ≠ [] ∧
    (∀ c ∈ ds, c.isDigit = true) ∧ (nl = [] ∨ nl = ['\n']) ∧ Nat.ofDigitChars 10 ds 0 = n := by
  unfold kstrtoull at h
  split at h
  · rename_i hds
    exact ⟨_, _, List.takeWhile_append_dropWhile.symm, hds.1, fun c hc => List.mem_takeWhile_imp hc, hds.2,
      Option.some.inj h⟩
  · cases h

theorem positive_spec {t : Text} {v : Int} (h : positive t = some v) : ∃ n, kstrtoull t = some n ∧ v.natAbs = n := by
  obtain ⟨n, hn, hv⟩ := Option.bind_eq_some_iff.1 h
  split at hv
  · exact ⟨n, hn, by rw [← Option.some.inj hv, Int.natAbs_natCast]⟩
  · cases hv

theorem kstrtoint_spec {t : Text} {v : Int} (h : kstrtoint t = some v) : ∃ sgn ds nl : Text, t = sgn ++ (ds ++ nl) ∧
    (sgn = [] ∨ sgn = ['+'] ∨ sgn = ['-']) ∧ ds ≠ [] ∧ (∀ c ∈ ds, c.isDigit = true) ∧ (nl = [] ∨ nl = ['\n']) ∧
    Nat.ofDigitChars 10 ds 0 = v.natAbs := by
  unfold kstrtoint at h
  split at h
  · obtain ⟨n, hn, hv⟩ := Option.bind_eq_some_iff.1 h
    obtain ⟨ds, nl, rfl, hne, hdig, hnl, hval⟩ := kstrtoull_spec hn
    split at hv
    · exact ⟨['-'], ds, nl, rfl, Or.inr (Or.inr rfl), hne, hdig, hnl,
        by rw [hval, ← Option.some.inj hv, Int.natAbs_neg, Int.natAbs_natCast]⟩
    · cases hv
  · obtain ⟨n, hn, hv⟩ := positive_spec h
    obtain ⟨ds, nl, rfl, hne, hdig, hnl, hval⟩ := kstrtoull_spec hn
    exact ⟨['+'], ds, nl, rfl, Or.inr (Or.inl rfl), hne, hdig, hnl, hval.trans hv.symm⟩
  · obtain ⟨n, hn, hv⟩ := positive_spec h
    obtain ⟨ds, nl, rfl, hne, hdig, hnl, hval⟩ := kstrtoull_spec hn
    exact ⟨[], ds, nl, rfl, Or.inl rfl, hne, hdig, hnl, hval.trans hv.symm⟩

/-- What the ways to write a number differ in. -/
def shape (t : Text) : Option Char × Bool × Nat :=
  (t.head?.filter fun c => c = '+' ∨ c = '-', t.getLast? = some '\n', t.length)

theorem shape_of {sgn ds nl : Text} (hsgn : sgn = [] ∨ sgn = ['+'] ∨ sgn = ['-']) (hne : ds ≠ [])
    (hdig : ∀ c ∈ ds, c.isDigit = true) (hnl : nl = [] ∨ nl = ['\n']) :
    shape (sgn ++ (ds ++ nl)) = (sgn.head?, decide (nl = ['\n']), sgn.length + ds.length + nl.length) := by
  unfold shape
  refine Prod.ext ?_ (Prod.ext ?_ ?_)
  · obtain ⟨c, ds, rfl⟩ := List.exists_cons_of_ne_nil hne
    have hc := digit_bounds (hdig c List.mem_cons_self)
    rcases hsgn with rfl | rfl | rfl
    · have h1 : c ≠ '+' := by
        rintro rfl
        exact absurd hc (by decide)
      have h2 : c ≠ '-' := by
        rintro rfl
        exact absurd hc (by decide)
      simp [h1, h2]
    · rfl
    · rfl
  · obtain ⟨ds, c, rfl⟩ := List.eq_nil_or_concat ds |>.resolve_left hne
    rw [List.concat_eq_append] at *
    have hc := digit_bounds (hdig c (by simp))
    rcases hnl with rfl | rfl
    · have h1 : c ≠ '\n' := by
        rintro rfl
        exact absurd hc (by decide)
      simp [h1]
    · simp
  · simp only [List.length_append]
    omega

/-- A number written in one shape is one text. -/
theorem kstrtoint_inj {t u : Text} {v : Int} (ht : kstrtoint t = some v) (hu : kstrtoint u = some v)
    (h : shape t = shape u) : t = u := by
  obtain ⟨sgn, ds, nl, rfl, hsgn, hne, hdig, hnl, hval⟩ := kstrtoint_spec ht
  obtain ⟨sgn', ds', nl', rfl, hsgn', hne', hdig', hnl', hval'⟩ := kstrtoint_spec hu
  rw [shape_of hsgn hne hdig hnl, shape_of hsgn' hne' hdig' hnl'] at h
  simp only [Prod.mk.injEq, decide_eq_decide] at h
  obtain ⟨hhead, hlast, hlen⟩ := h
  have hs : sgn = sgn' := by
    rcases hsgn with rfl | rfl | rfl <;> rcases hsgn' with rfl | rfl | rfl <;> simp_all
  have hn : nl = nl' := by
    rcases hnl with rfl | rfl <;> rcases hnl' with rfl | rfl <;> simp_all
  subst hs hn
  rw [digits_inj hdig hdig' (by omega) (hval.trans hval'.symm)]

/-- The digits of a number are read as it. -/
theorem kstrtoint_toDigits {n : Nat} (h : n < 2 ^ 31) : kstrtoint (Nat.toDigits 10 n) = some n := by
  have hdig : ∀ c ∈ Nat.toDigits 10 n, c.isDigit = true := fun c hc =>
    Nat.isDigit_of_mem_toDigits (by decide) (by decide) hc
  have htake : (Nat.toDigits 10 n).takeWhile Char.isDigit = Nat.toDigits 10 n :=
    List.takeWhile_eq_self_iff.2 hdig
  have hdrop : (Nat.toDigits 10 n).dropWhile Char.isDigit = [] := List.dropWhile_eq_nil_iff.2 hdig
  have hpos : positive (Nat.toDigits 10 n) = some (n : Int) := by
    unfold positive kstrtoull
    rw [htake, hdrop, if_pos ⟨Nat.toDigits_ne_nil, Or.inl rfl⟩, Nat.ofDigitChars_ten_toDigits, Option.bind_some,
      if_pos h]
  unfold kstrtoint
  split
  · rename_i heq
    exact absurd (hdig '-' (heq ▸ List.mem_cons_self)) (by decide)
  · rename_i heq
    exact absurd (hdig '+' (heq ▸ List.mem_cons_self)) (by decide)
  · exact hpos

end Kstrto
