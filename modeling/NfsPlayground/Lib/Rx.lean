import Mathlib.Data.List.Chain

/-!
# Regular expressions over character classes

An expression is built from classes of characters, and `Matches` says which words it matches. `search` finds out by
derivatives whether one of them occurs in a text (`search_iff`). `firsts`, `lasts` and `pairs` over-approximate, from
the expression alone, which characters the words begin with, end with and hold next to each other. -/

/-- An expression over the classes `κ`. -/
inductive Rx (κ : Type)
  | none
  | eps
  | cls (k : κ)
  | seq (r s : Rx κ)
  | alt (r s : Rx κ)
  | star (r : Rx κ)
  deriving DecidableEq

namespace Rx

variable {α κ : Type}

/-- One or more. -/
def plus (r : Rx κ) : Rx κ := seq r (star r)

/-- One or none. -/
def opt (r : Rx κ) : Rx κ := alt r eps

def word (w : List κ) : Rx κ := w.foldr (fun k r => seq (cls k) r) eps

/-- One of the expressions. -/
def any : List (Rx κ) → Rx κ
  | [] => none
  | [r] => r
  | r :: rs => alt r (any rs)

variable (mem : κ → α → Bool)

/-- The words of an expression, where `mem` says what the classes hold. -/
inductive Matches : Rx κ → List α → Prop
  | eps : Matches eps []
  | cls {k : κ} {c : α} (h : mem k c = true) : Matches (cls k) [c]
  | seq {r s : Rx κ} {u v : List α} (hr : Matches r u) (hs : Matches s v) : Matches (seq r s) (u ++ v)
  | left {r s : Rx κ} {u : List α} (hr : Matches r u) : Matches (alt r s) u
  | right {r s : Rx κ} {u : List α} (hs : Matches s u) : Matches (alt r s) u
  | nil {r : Rx κ} : Matches (star r) []
  | cons {r : Rx κ} {u v : List α} (hr : Matches r u) (hs : Matches (star r) v) : Matches (star r) (u ++ v)

/-- The empty word is one of the expression's. -/
def nullable : Rx κ → Bool
  | none => false
  | eps => true
  | cls _ => false
  | seq r s => nullable r && nullable s
  | alt r s => nullable r || nullable s
  | star _ => true

/-- What is left to match after a character. -/
def deriv (c : α) : Rx κ → Rx κ
  | none => none
  | eps => none
  | cls k => if mem k c then eps else none
  | seq r s => if nullable r then alt (seq (deriv c r) s) (deriv c s) else seq (deriv c r) s
  | alt r s => alt (deriv c r) (deriv c s)
  | star r => seq (deriv c r) (star r)

/-- A word of the expression begins the text. -/
def matchesPrefix (r : Rx κ) : List α → Bool
  | [] => nullable r
  | c :: t => nullable r || matchesPrefix (deriv mem c r) t

/-- A word of the expression occurs in the text. -/
def search (r : Rx κ) : List α → Bool
  | [] => nullable r
  | c :: t => matchesPrefix mem r (c :: t) || search r t

variable {mem} {r s : Rx κ} {c : α} {t w : List α}

/-! ## Words -/

theorem not_matches_none : ¬ Matches mem none w := fun h => by cases h

theorem matches_eps_iff : Matches mem eps w ↔ w = [] :=
  ⟨fun h => by cases h; rfl, fun h => h ▸ .eps⟩

theorem matches_cls_iff {k : κ} : Matches mem (cls k) w ↔ ∃ c, mem k c = true ∧ w = [c] :=
  ⟨fun h => by cases h with | cls h => exact ⟨_, h, rfl⟩, fun ⟨_, h, he⟩ => he ▸ .cls h⟩

theorem matches_seq_iff : Matches mem (seq r s) w ↔ ∃ u v, w = u ++ v ∧ Matches mem r u ∧ Matches mem s v :=
  ⟨fun h => by cases h with | seq hr hs => exact ⟨_, _, rfl, hr, hs⟩, fun ⟨_, _, he, hr, hs⟩ => he ▸ .seq hr hs⟩

theorem matches_alt_iff : Matches mem (alt r s) w ↔ Matches mem r w ∨ Matches mem s w := by
  constructor
  · intro h
    cases h with
    | left h => exact Or.inl h
    | right h => exact Or.inr h
  · exact fun h => h.elim .left .right

theorem matches_any_iff {rs : List (Rx κ)} : Matches mem (any rs) w ↔ ∃ r ∈ rs, Matches mem r w := by
  induction rs with
  | nil => simp [any, not_matches_none]
  | cons r rs ih =>
    cases rs with
    | nil => simp [any]
    | cons s rs =>
      show Matches mem (alt r (any (s :: rs))) w ↔ _
      rw [matches_alt_iff, ih]
      simp

/-- A word of literal characters matches itself. -/
theorem matches_word_iff {chr : α → κ} (hchr : ∀ b c, mem (chr b) c = true ↔ c = b) {l : List α} :
    Matches mem (word (l.map chr)) w ↔ w = l := by
  induction l generalizing w with
  | nil => exact matches_eps_iff
  | cons b l ih =>
    show Matches mem (seq (cls (chr b)) (word (l.map chr))) w ↔ _
    rw [matches_seq_iff]
    constructor
    · rintro ⟨u, v, rfl, hu, hv⟩
      obtain ⟨c, hc, rfl⟩ := matches_cls_iff.1 hu
      rw [(hchr b c).1 hc, ih.1 hv, List.singleton_append]
    · rintro rfl
      exact ⟨[b], l, rfl, .cls ((hchr b b).2 rfl), ih.2 rfl⟩

theorem matches_plus_one (h : Matches mem r w) : Matches mem (plus r) w := by
  have hone := Matches.seq h (.nil (r := r))
  rwa [List.append_nil] at hone

theorem matches_plus_cons (h : Matches mem r w) (hs : Matches mem (plus r) t) : Matches mem (plus r) (w ++ t) := by
  obtain ⟨u, v, rfl, hu, hv⟩ := matches_seq_iff.1 hs
  exact .seq h (.cons hu hv)

/-- A word of a repetition begins with one that is not empty. -/
theorem matches_star_cons (h : Matches mem (star r) (c :: t)) :
    ∃ u v, t = u ++ v ∧ Matches mem r (c :: u) ∧ Matches mem (star r) v := by
  generalize hs : star r = s at h
  generalize hw : c :: t = w at h
  induction h with
  | @cons r' u v hr hstar _ ih =>
    cases hs
    cases u with
    | nil => exact ih rfl hw
    | cons d u =>
      cases hw
      exact ⟨u, v, rfl, hr, hstar⟩
  | nil => cases hw
  | _ => cases hs

/-! ## Derivatives -/

theorem nullable_iff : nullable r = true ↔ Matches mem r [] := by
  induction r with
  | none => simp [nullable, not_matches_none]
  | eps => simp [nullable, matches_eps_iff]
  | cls k => simp [nullable, matches_cls_iff]
  | seq r s ihr ihs => simp [nullable, matches_seq_iff, ihr, ihs]
  | alt r s ihr ihs => simp [nullable, matches_alt_iff, ihr, ihs]
  | star r _ => exact iff_of_true rfl .nil

theorem matches_seq_cons_iff : Matches mem (seq r s) (c :: t) ↔
    (Matches mem r [] ∧ Matches mem s (c :: t)) ∨ ∃ u v, t = u ++ v ∧ Matches mem r (c :: u) ∧ Matches mem s v := by
  rw [matches_seq_iff]
  constructor
  · rintro ⟨u, v, he, hr, hs⟩
    cases u with
    | nil => exact Or.inl ⟨hr, he ▸ hs⟩
    | cons d u =>
      cases he
      exact Or.inr ⟨u, v, rfl, hr, hs⟩
  · rintro (⟨hr, hs⟩ | ⟨u, v, rfl, hr, hs⟩)
    · exact ⟨[], c :: t, rfl, hr, hs⟩
    · exact ⟨c :: u, v, rfl, hr, hs⟩

/-- The derivative matches what follows the character in a word. -/
theorem matches_deriv_iff : Matches mem (deriv mem c r) t ↔ Matches mem r (c :: t) := by
  induction r generalizing t with
  | none => simp [deriv, not_matches_none]
  | eps => simp [deriv, not_matches_none, matches_eps_iff]
  | cls k =>
    by_cases h : mem k c = true
    · simp [deriv, h, matches_eps_iff, matches_cls_iff]
    · simp [deriv, h, not_matches_none, matches_cls_iff]
  | seq r s ihr ihs =>
    have hseq : Matches mem (seq (deriv mem c r) s) t ↔
        ∃ u v, t = u ++ v ∧ Matches mem r (c :: u) ∧ Matches mem s v := by simp [matches_seq_iff, ihr]
    rw [deriv, matches_seq_cons_iff, ← nullable_iff]
    by_cases h : nullable r = true
    · rw [if_pos h, matches_alt_iff, hseq, ihs]
      simp only [h, true_and]
      exact Or.comm
    · simp [h, hseq]
  | alt r s ihr ihs => rw [deriv, matches_alt_iff, matches_alt_iff, ihr, ihs]
  | star r ih =>
    rw [deriv, matches_seq_iff]
    constructor
    · rintro ⟨u, v, rfl, hr, hs⟩
      exact .cons (ih.1 hr) hs
    · intro h
      obtain ⟨u, v, he, hr, hs⟩ := matches_star_cons h
      exact ⟨u, v, he, ih.2 hr, hs⟩

theorem matchesPrefix_iff : matchesPrefix mem r t = true ↔ ∃ u, u <+: t ∧ Matches mem r u := by
  induction t generalizing r with
  | nil =>
    rw [matchesPrefix, @nullable_iff _ _ mem]
    simp
  | cons c t ih =>
    rw [matchesPrefix, Bool.or_eq_true, @nullable_iff _ _ mem, ih]
    constructor
    · rintro (h | ⟨u, hu, h⟩)
      · exact ⟨[], List.nil_prefix, h⟩
      · exact ⟨c :: u, List.cons_prefix_cons.2 ⟨rfl, hu⟩, matches_deriv_iff.1 h⟩
    · rintro ⟨u, hu, h⟩
      cases u with
      | nil => exact Or.inl h
      | cons d u =>
        obtain ⟨rfl, htail⟩ := List.cons_prefix_cons.1 hu
        exact Or.inr ⟨u, htail, matches_deriv_iff.2 h⟩

/-- The search finds a word that occurs in the text. -/
theorem search_iff : search mem r t = true ↔ ∃ u, u <:+: t ∧ Matches mem r u := by
  induction t with
  | nil =>
    rw [search, @nullable_iff _ _ mem]
    simp
  | cons c t ih =>
    rw [search, Bool.or_eq_true, matchesPrefix_iff, ih]
    constructor
    · rintro (⟨u, hu, h⟩ | ⟨u, hu, h⟩)
      · exact ⟨u, hu.isInfix, h⟩
      · exact ⟨u, List.infix_cons hu, h⟩
    · rintro ⟨u, hu, h⟩
      rcases List.infix_cons_iff.1 hu with hu | hu
      · exact Or.inl ⟨u, hu, h⟩
      · exact Or.inr ⟨u, hu, h⟩

/-! ## What the words look like -/

/-- A word may begin with a character of a class of `P`. -/
def firsts (P : κ → Bool) : Rx κ → Bool
  | none => false
  | eps => false
  | cls k => P k
  | seq r s => firsts P r || (nullable r && firsts P s)
  | alt r s => firsts P r || firsts P s
  | star r => firsts P r

/-- A word may end with a character of a class of `P`. -/
def lasts (P : κ → Bool) : Rx κ → Bool
  | none => false
  | eps => false
  | cls k => P k
  | seq r s => lasts P s || (nullable s && lasts P r)
  | alt r s => lasts P r || lasts P s
  | star r => lasts P r

/-- A word may hold a character of a class of `P` right before one of a class of `Q`. -/
def pairs (P Q : κ → Bool) : Rx κ → Bool
  | none => false
  | eps => false
  | cls _ => false
  | seq r s => pairs P Q r || pairs P Q s || (firsts Q s && lasts P r)
  | alt r s => pairs P Q r || pairs P Q s
  | star r => pairs P Q r || (firsts Q r && lasts P r)

section

variable {P Q : κ → Bool} {p q : α → Prop} (hP : ∀ k c, mem k c = true → p c → P k = true)
  (hQ : ∀ k c, mem k c = true → q c → Q k = true)

include hP in
theorem firsts_of_matches (h : Matches mem r w) : ∀ c ∈ w.head?, p c → firsts P r = true := by
  induction h with
  | eps => simp
  | cls hk => simpa [firsts] using hP _ _ hk
  | @seq r s u v hr hs ihr ihs =>
    intro c hc hp
    rw [firsts, Bool.or_eq_true, Bool.and_eq_true]
    cases u with
    | nil => exact Or.inr ⟨nullable_iff.2 hr, ihs c hc hp⟩
    | cons d u => exact Or.inl (ihr c hc hp)
  | left _ ih => exact fun c hc hp => by rw [firsts, ih c hc hp, Bool.true_or]
  | right _ ih => exact fun c hc hp => by rw [firsts, ih c hc hp, Bool.or_true]
  | nil => simp
  | @cons r u v hr hs ihr ihs =>
    intro c hc hp
    cases u with
    | nil => exact ihs c hc hp
    | cons d u => exact ihr c hc hp

include hP in
theorem lasts_of_matches (h : Matches mem r w) : ∀ c ∈ w.getLast?, p c → lasts P r = true := by
  induction h with
  | eps => simp
  | cls hk => simpa [lasts] using hP _ _ hk
  | @seq r s u v hr hs ihr ihs =>
    intro c hc hp
    rw [lasts, Bool.or_eq_true, Bool.and_eq_true]
    cases v with
    | nil => exact Or.inr ⟨nullable_iff.2 hs, ihr c (by simpa using hc) hp⟩
    | cons d v =>
      rw [List.getLast?_append_cons] at hc
      exact Or.inl (ihs c hc hp)
  | left _ ih => exact fun c hc hp => by rw [lasts, ih c hc hp, Bool.true_or]
  | right _ ih => exact fun c hc hp => by rw [lasts, ih c hc hp, Bool.or_true]
  | nil => simp
  | @cons r u v hr hs ihr ihs =>
    intro c hc hp
    cases v with
    | nil => exact ihr c (by simpa using hc) hp
    | cons d v =>
      rw [List.getLast?_append_cons] at hc
      exact ihs c hc hp

include hP hQ in
/-- Where no pair is possible, no word holds one. -/
theorem chain_of_matches (h : Matches mem r w) (hr : pairs P Q r = false) : w.IsChain fun a b => p a → ¬ q b := by
  induction h with
  | eps => exact List.IsChain.nil
  | cls => exact List.IsChain.singleton _
  | @seq r s u v hu hv ihr ihs =>
    simp only [pairs, Bool.or_eq_false_iff, Bool.and_eq_false_iff] at hr
    refine List.isChain_append.2 ⟨ihr hr.1.1, ihs hr.1.2, fun a ha b hb hpa hqb => ?_⟩
    have hlast := lasts_of_matches hP hu a ha hpa
    have hfirst := firsts_of_matches hQ hv b hb hqb
    simp [hlast, hfirst] at hr
  | left _ ih =>
    simp only [pairs, Bool.or_eq_false_iff] at hr
    exact ih hr.1
  | right _ ih =>
    simp only [pairs, Bool.or_eq_false_iff] at hr
    exact ih hr.2
  | nil => exact List.IsChain.nil
  | @cons r u v hu hv ihr ihs =>
    have hboth := hr
    simp only [pairs, Bool.or_eq_false_iff, Bool.and_eq_false_iff] at hr
    refine List.isChain_append.2 ⟨ihr hr.1, ihs hboth, fun a ha b hb hpa hqb => ?_⟩
    have hlast := lasts_of_matches hP hu a ha hpa
    have hfirst : firsts Q (star r) = true := firsts_of_matches hQ hv b hb hqb
    rw [firsts] at hfirst
    simp [hlast, hfirst] at hr

end

end Rx
