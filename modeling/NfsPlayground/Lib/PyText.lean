import NfsPlayground.Lib.Pieces
import Mathlib.Data.List.DropRight

/-!
# Text as Python's `str` and text files have it

Reading a file translates its newlines (`universal`), `split` cuts at one character, `splitFirst` at the first place
where a separator stands, and `pyInt` reads a decimal number: every number comes back from the digits it is written
with (`pyInt_intText`).
-/

namespace PyText

open Lines

/-- The newlines of a text file as `open(path)` translates them. -/
def universal : Text → Text
  | [] => []
  | '\r' :: '\n' :: t => '\n' :: universal t
  | c :: t => (if c = '\r' then '\n' else c) :: universal t

/-- What `str.splitlines` takes as the end of a line besides a newline. -/
def isBreak (c : Char) : Bool :=
  c ∈ ['\n', '\r', '\x0b', '\x0c', '\x1c', '\x1d', '\x1e', '\u0085', '\u2028', '\u2029']

def splitlines (t : Text) : List Text := lines ((universal t).map fun c => if isBreak c then '\n' else c)

/-- `t.split(sep)` -/
def split (sep : Char) : Text → List Text
  | [] => [[]]
  | c :: t => if c = sep then [] :: split sep t else push c (split sep t)

/-- `t.split(sep, 1)`, where `sep` stands in the text. -/
def splitFirst (sep : Text) : Text → Option (Text × Text)
  | [] => none
  | c :: t =>
    if sep <+: c :: t then some ([], (c :: t).drop sep.length)
    else (splitFirst sep t).map fun r => (c :: r.1, r.2)

/-! ## Newlines -/

theorem universal_cons {c : Char} (hc : c ≠ '\r') (t : Text) : universal (c :: t) = c :: universal t := by
  rw [universal, if_neg hc]
  exact fun _ h => absurd h hc

theorem universal_of_noReturn : ∀ {t : Text}, '\r' ∉ t → universal t = t
  | [], _ => rfl
  | c :: t, h => by
    simp only [List.mem_cons, not_or] at h
    rw [universal_cons (Ne.symm h.1), universal_of_noReturn h.2]

theorem noReturn_universal (t : Text) : '\r' ∉ universal t := by
  fun_induction universal t with
  | case1 => simp
  | case2 t ih => simpa using ih
  | case3 c t _ ih =>
    simp only [List.mem_cons, not_or]
    refine ⟨?_, ih⟩
    split <;> simp_all [eq_comm]

theorem universal_ne_nil (c : Char) (t : Text) : universal (c :: t) ≠ [] := by
  rw [universal.eq_def]
  split <;> simp_all

/-- Two files one after the other, where the first ends its last line. -/
theorem universal_append {t : Text} (u : Text) (ht : Closed t) : universal (t ++ u) = universal t ++ universal u := by
  fun_induction universal t with
  | case1 => rfl
  | case2 t ih =>
    rw [List.cons_append, List.cons_append, universal, List.cons_append]
    cases t with
    | nil => rw [List.nil_append, universal, List.nil_append]
    | cons d t => rw [ih (closed_cons.1 (closed_cons.1 ht))]
  | case3 c t hcr ih =>
    cases t with
    | nil =>
      have hc : c = '\n' := ht c (by simp)
      subst hc
      rw [List.singleton_append, universal_cons (by decide)]
      rfl
    | cons d t =>
      have hrest := ih (closed_cons.1 ht)
      rw [List.cons_append, universal, hrest]
      · rfl
      · rintro r hr hdt
        rw [List.cons_append, List.cons.injEq] at hdt
        exact hcr t hr (by rw [hdt.1])

theorem closed_universal {t : Text} (ht : Closed t) : Closed (universal t) := by
  fun_induction universal t with
  | case1 => exact closed_nil
  | case2 t ih =>
    cases t with
    | nil => exact closed_append_newline []
    | cons d t => exact Closed.append (t := ['\n']) (closed_append_newline []) (ih (closed_cons.1 (closed_cons.1 ht)))
  | case3 c t hcr ih =>
    cases t with
    | nil =>
      have hc : c = '\n' := ht c (by simp)
      subst hc
      exact closed_append_newline []
    | cons d t =>
      have hrest := ih (closed_cons.1 ht)
      obtain ⟨e, u, hu⟩ := List.exists_cons_of_ne_nil (universal_ne_nil d t)
      rw [hu] at hrest ⊢
      exact closed_cons.2 hrest

/-! ## Splitting -/

section Split

variable {sep : Char}

theorem split_inline : ∀ {a : Text}, sep ∉ a → split sep a = [a]
  | [], _ => rfl
  | c :: a, h => by
    simp only [List.mem_cons, not_or] at h
    rw [split, if_neg (Ne.symm h.1), split_inline h.2]
    rfl

theorem split_break : ∀ {a : Text} (t : Text), sep ∉ a → split sep (a ++ sep :: t) = a :: split sep t
  | [], t, _ => by rw [List.nil_append, split, if_pos rfl]
  | c :: a, t, h => by
    simp only [List.mem_cons, not_or] at h
    rw [List.cons_append, split, if_neg (Ne.symm h.1), split_break t h.2]
    rfl

end Split

theorem splitFirst_here {sep : Text} (hsep : sep ≠ []) (t : Text) : splitFirst sep (sep ++ t) = some ([], t) := by
  cases sep with
  | nil => exact absurd rfl hsep
  | cons c s =>
    rw [List.cons_append, splitFirst, if_pos ⟨t, rfl⟩, ← List.cons_append, List.drop_left]

theorem splitFirst_later {sep : Text} {c : Char} {t : Text} (h : ¬ sep <+: c :: t) :
    splitFirst sep (c :: t) = (splitFirst sep t).map fun r => (c :: r.1, r.2) := by
  rw [splitFirst, if_neg h]

/-- A separator does not begin inside a text that lacks its first character. -/
theorem splitFirst_inside {d : Char} {s : Text} : ∀ {a : Text} (t : Text), d ∉ a →
    splitFirst (d :: s) (a ++ t) = (splitFirst (d :: s) t).map fun r => (a ++ r.1, r.2)
  | [], t, _ => by simp
  | c :: a, t, h => by
    simp only [List.mem_cons, not_or] at h
    have hno : ¬ d :: s <+: c :: (a ++ t) := fun hp => h.1 (List.cons_prefix_cons.1 hp).1
    rw [List.cons_append, splitFirst_later hno, splitFirst_inside t h.2, Option.map_map]
    rfl

/-! ## Numbers -/

/-- A space to `int()`. -/
def isPySpace (c : Char) : Bool :=
  let n := c.toNat
  (9 ≤ n && n ≤ 13) || (28 ≤ n && n ≤ 32) || (0x2000 ≤ n && n ≤ 0x200a) ||
    [0x85, 0xa0, 0x1680, 0x2028, 0x2029, 0x202f, 0x205f, 0x3000].contains n

/-- Digits with single underscores between them; the flag says that a digit came before. -/
def readDigits : Bool → Nat → Text → Option Nat
  | after, n, [] => if after then some n else none
  | after, n, c :: t =>
    if c.isDigit then readDigits true (10 * n + (c.toNat - '0'.toNat)) t
    else if c = '_' ∧ after then readDigits false n t
    else none

/-- `int(t)`; of the decimal digits of Unicode only `0` to `9` are read. -/
def pyInt (t : Text) : Option Int :=
  match (t.dropWhile isPySpace).rdropWhile isPySpace with
  | '-' :: t => (readDigits false 0 t).map fun n => -(n : Int)
  | '+' :: t => (readDigits false 0 t).map fun n => (n : Int)
  | t => (readDigits false 0 t).map fun n => (n : Int)

def natText (n : Nat) : Text := Nat.toDigits 10 n

def intText : Int → Text
  | .ofNat n => natText n
  | .negSucc n => '-' :: natText (n + 1)

theorem isDigit_of_mem_natText {n : Nat} {c : Char} (h : c ∈ natText n) : c.isDigit = true :=
  Nat.isDigit_of_mem_toDigits (by decide) (by decide) h

theorem natText_injective : Function.Injective natText := fun m n h => by
  have hm : Nat.ofDigitChars 10 (natText m) 0 = m := Nat.ofDigitChars_ten_toDigits
  rw [← hm, h]
  exact Nat.ofDigitChars_ten_toDigits

theorem readDigits_digits : ∀ {t : Text} (after : Bool) (n : Nat), (∀ c ∈ t, c.isDigit = true) → (after ∨ t ≠ []) →
    readDigits after n t = some (Nat.ofDigitChars 10 t n)
  | [], after, n, _, h => by
    have hafter : after = true := h.resolve_right (· rfl)
    rw [readDigits, if_pos hafter, Nat.ofDigitChars_nil]
  | c :: t, after, n, hd, _ => by
    rw [readDigits, if_pos (hd c List.mem_cons_self), Nat.ofDigitChars_cons]
    exact readDigits_digits true _ (fun d hd' => hd d (List.mem_cons_of_mem _ hd')) (Or.inl rfl)

theorem readDigits_natText (n : Nat) : readDigits false 0 (natText n) = some n := by
  rw [readDigits_digits false 0 (fun _ => isDigit_of_mem_natText) (Or.inr Nat.toDigits_ne_nil)]
  exact congrArg some Nat.ofDigitChars_ten_toDigits

theorem not_isPySpace_of_isDigit {c : Char} (h : c.isDigit = true) : isPySpace c = false := by
  have hrange : 48 ≤ c.toNat ∧ c.toNat ≤ 57 := by
    simp only [Char.isDigit, Bool.and_eq_true, decide_eq_true_eq, ge_iff_le, UInt32.le_iff_toNat_le] at h
    exact h
  simp only [isPySpace, Bool.or_eq_false_iff, Bool.and_eq_false_iff, decide_eq_false_iff_not, List.contains_eq_mem,
    List.mem_cons, List.not_mem_nil, or_false, not_or]
  omega

theorem strip_of_ends {t : Text} (hhead : ∀ c ∈ t.head?, isPySpace c = false)
    (hlast : ∀ c ∈ t.getLast?, isPySpace c = false) : (t.dropWhile isPySpace).rdropWhile isPySpace = t := by
  have hdrop : t.dropWhile isPySpace = t := by
    cases t with
    | nil => rfl
    | cons c t => rw [List.dropWhile_cons_of_neg (by simp [hhead c rfl])]
  rw [hdrop, List.rdropWhile_eq_self_iff]
  exact fun hne => by simp [hlast _ (List.getLast?_eq_some_getLast hne)]

theorem pyInt_intText (z : Int) : pyInt (intText z) = some z := by
  have hdigits : ∀ n, ∀ c ∈ natText n, isPySpace c = false := fun n c hc =>
    not_isPySpace_of_isDigit (isDigit_of_mem_natText hc)
  cases z with
  | ofNat n =>
    have hstrip := strip_of_ends (t := natText n) (fun c hc => hdigits n c (List.mem_of_mem_head? hc))
      fun c hc => hdigits n c (List.mem_of_getLast? hc)
    obtain ⟨c, t, hct⟩ := List.exists_cons_of_ne_nil (l := natText n) Nat.toDigits_ne_nil
    have hc : c.isDigit = true := isDigit_of_mem_natText (hct ▸ List.mem_cons_self)
    rw [intText, pyInt, hstrip]
    have hread := readDigits_natText n
    rw [hct] at hread ⊢
    split
    · rename_i h
      cases h
      cases hc
    · rename_i h
      cases h
      cases hc
    · rw [hread]
      rfl
  | negSucc n =>
    have hne : natText (n + 1) ≠ [] := Nat.toDigits_ne_nil
    have hstrip := strip_of_ends (t := '-' :: natText (n + 1)) (fun c hc => by cases hc; rfl) fun c hc => by
      rw [List.getLast?_cons_of_ne_nil hne] at hc
      exact hdigits (n + 1) c (List.mem_of_getLast? hc)
    rw [intText, pyInt, hstrip]
    simp only [readDigits_natText]
    rfl

end PyText
