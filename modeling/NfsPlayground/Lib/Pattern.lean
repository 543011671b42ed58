import NfsPlayground.Lib.Lines

/-!
# Patterns

The part of regular expressions that shell scripts use: a pattern is a list of atoms, matched greedily with
backtracking by `matchHere`, which gives what each atom matched and the rest of the text. `Fits` says declaratively
which pieces a pattern accepts. What the matcher finds fits (`match_sound`), and it finds something whenever something
fits (`match_complete`); so a search finds a pattern exactly when it occurs (`found_iff`).
-/

namespace Pattern

open Lines

inductive Atom
  | lit (s : Text)
  | one (p : Char → Bool)
  | many (p : Char → Bool)  -- as many as possible
  | bound  -- `\b`
  | bol  -- `^`
  | eol  -- `$`

/-- `\w` -/
def isWordChar (c : Char) : Bool := c.isAlphanum || c == '_'

/-- `\s` -/
def isSpace (c : Char) : Bool := c == ' ' || c == '\t' || c == '\n' || c == '\r' || c == '\x0b' || c == '\x0c'

/-- The character before the place reached, after `s`. -/
def lastOr : Option Char → Text → Option Char
  | prev, [] => prev
  | _, c :: s => lastOr (some c) s

/-- As many characters of `p` as possible such that `k` goes on after them. -/
def greedy {α : Type} (p : Char → Bool) (k : Option Char → Text → Option α) :
    Option Char → Text → Option (Text × α)
  | prev, [] => (k prev []).map ([], ·)
  | prev, c :: t =>
    if p c then
      match greedy p k (some c) t with
      | some (s, r) => some (c :: s, r)
      | none => (k prev (c :: t)).map ([], ·)
    else (k prev (c :: t)).map ([], ·)

def atBound (prev : Option Char) (t : Text) : Bool := prev.any isWordChar != t.head?.any isWordChar

def atBol (prev : Option Char) : Bool := prev.all (· == '\n')

def atEol (t : Text) : Bool := t.head?.all (· == '\n')

/-- What the atoms match at this place, and the rest. -/
def matchHere : List Atom → Option Char → Text → Option (List Text × Text)
  | [], _, t => some ([], t)
  | .lit s :: as, prev, t =>
    if s <+: t then (matchHere as (lastOr prev s) (t.drop s.length)).map fun r => (s :: r.1, r.2) else none
  | .one _ :: _, _, [] => none
  | .one p :: as, _, c :: t => if p c then (matchHere as (some c) t).map fun r => ([c] :: r.1, r.2) else none
  | .many p :: as, prev, t => (greedy p (matchHere as) prev t).map fun r => (r.1 :: r.2.1, r.2.2)
  | .bound :: as, prev, t => if atBound prev t then (matchHere as prev t).map fun r => ([] :: r.1, r.2) else none
  | .bol :: as, prev, t => if atBol prev then (matchHere as prev t).map fun r => ([] :: r.1, r.2) else none
  | .eol :: as, prev, t => if atEol t then (matchHere as prev t).map fun r => ([] :: r.1, r.2) else none

/-- The pattern occurs somewhere in the text. -/
def found (as : List Atom) : Option Char → Text → Bool
  | prev, [] => (matchHere as prev []).isSome
  | prev, c :: t => (matchHere as prev (c :: t)).isSome || found as (some c) t

/-! ## What a pattern accepts -/

/-- The piece `s` is accepted after `prev`, with `next` behind it. -/
def Atom.Accepts (prev : Option Char) (s next : Text) : Atom → Prop
  | .lit l => s = l
  | .one p => ∃ c, s = [c] ∧ p c = true
  | .many p => ∀ c ∈ s, p c = true
  | .bound => s = [] ∧ atBound prev next = true
  | .bol => s = [] ∧ atBol prev = true
  | .eol => s = [] ∧ atEol next = true

def Fits : List Atom → Option Char → List Text → Text → Prop
  | [], _, [], _ => True
  | a :: as, prev, s :: ss, rest => a.Accepts prev s (ss.flatten ++ rest) ∧ Fits as (lastOr prev s) ss rest
  | _, _, _, _ => False

@[simp] theorem fits_nil {prev : Option Char} {ss : List Text} {rest : Text} : Fits [] prev ss rest ↔ ss = [] := by
  cases ss <;> simp [Fits]

theorem fits_cons {a : Atom} {as : List Atom} {prev : Option Char} {ss : List Text} {rest : Text} :
    Fits (a :: as) prev ss rest ↔ ∃ s ss', ss = s :: ss' ∧ a.Accepts prev s (ss'.flatten ++ rest) ∧
      Fits as (lastOr prev s) ss' rest := by
  cases ss with
  | nil => simp [Fits]
  | cons s ss =>
    constructor
    · exact fun h => ⟨s, ss, rfl, h⟩
    · rintro ⟨s', ss', heq, h⟩
      cases heq
      exact h

@[simp] theorem lastOr_nil (prev : Option Char) : lastOr prev [] = prev := rfl

@[simp] theorem lastOr_cons (prev : Option Char) (c : Char) (s : Text) : lastOr prev (c :: s) = lastOr (some c) s :=
  rfl

theorem lastOr_append : ∀ (prev : Option Char) (s t : Text), lastOr prev (s ++ t) = lastOr (lastOr prev s) t
  | _, [], _ => rfl
  | _, c :: s, t => lastOr_append (some c) s t

theorem greedy_sound {α : Type} {p : Char → Bool} {k : Option Char → Text → Option α} : ∀ {t : Text}
    {prev : Option Char} {s : Text} {r : α}, greedy p k prev t = some (s, r) →
    (∀ c ∈ s, p c = true) ∧ ∃ u, t = s ++ u ∧ k (lastOr prev s) u = some r
  | [], prev, s, r, h => by
    simp only [greedy, Option.map_eq_some_iff, Prod.mk.injEq] at h
    obtain ⟨r', hk, rfl, rfl⟩ := h
    exact ⟨by simp, [], rfl, hk⟩
  | c :: t, prev, s, r, h => by
    have hstop : ∀ {s r}, (k prev (c :: t)).map (([] : Text), ·) = some (s, r) →
        (∀ c ∈ s, p c = true) ∧ ∃ u, c :: t = s ++ u ∧ k (lastOr prev s) u = some r := by
      intro s r h
      simp only [Option.map_eq_some_iff, Prod.mk.injEq] at h
      obtain ⟨r', hk, rfl, rfl⟩ := h
      exact ⟨by simp, c :: t, rfl, hk⟩
    rw [greedy] at h
    split at h
    · rename_i hp
      cases hg : greedy p k (some c) t with
      | none =>
        rw [hg] at h
        exact hstop h
      | some sr =>
        obtain ⟨s', r'⟩ := sr
        rw [hg] at h
        simp only [Option.some.injEq, Prod.mk.injEq] at h
        obtain ⟨rfl, rfl⟩ := h
        obtain ⟨hs', u, rfl, hk⟩ := greedy_sound hg
        refine ⟨fun d hd => ?_, u, rfl, hk⟩
        rcases List.mem_cons.1 hd with rfl | hd
        · exact hp
        · exact hs' d hd
    · exact hstop h

theorem greedy_complete {α : Type} {p : Char → Bool} {k : Option Char → Text → Option α} : ∀ {s : Text}
    {prev : Option Char} {u : Text}, (∀ c ∈ s, p c = true) → (k (lastOr prev s) u).isSome →
    (greedy p k prev (s ++ u)).isSome
  | [], prev, u, _, hk => by
    cases u with
    | nil => simpa [greedy] using hk
    | cons c u =>
      rw [List.nil_append, greedy]
      split
      · cases greedy p k (some c) u with
        | none => simpa using hk
        | some r => rfl
      · simpa using hk
  | c :: s, prev, u, hs, hk => by
    have hrest : (greedy p k (some c) (s ++ u)).isSome :=
      greedy_complete (fun d hd => hs d (List.mem_cons_of_mem _ hd)) hk
    rw [List.cons_append, greedy, if_pos (hs c List.mem_cons_self)]
    cases hg : greedy p k (some c) (s ++ u) with
    | none =>
      rw [hg] at hrest
      cases hrest
    | some r => rfl

/-- An atom that takes its piece if the test holds, and what the rest of the pattern makes of what follows. -/
theorem of_guarded {b : Prop} [Decidable b] {s rest : Text} {ss : List Text} {m : Option (List Text × Text)}
    (h : (if b then m.map fun r => (s :: r.1, r.2) else none) = some (ss, rest)) :
    b ∧ ∃ ss', ss = s :: ss' ∧ m = some (ss', rest) := by
  split at h
  · rename_i hb
    obtain ⟨⟨ss', rest'⟩, hm, heq⟩ := Option.map_eq_some_iff.1 h
    cases heq
    exact ⟨hb, ss', rfl, hm⟩
  · cases h

/-- What the matcher gives is a split of the text into pieces that fit. -/
theorem match_sound : ∀ {as : List Atom} {prev : Option Char} {t : Text} {ss : List Text} {rest : Text},
    matchHere as prev t = some (ss, rest) → t = ss.flatten ++ rest ∧ Fits as prev ss rest
  | [], _, t, ss, rest, h => by
    simp only [matchHere, Option.some.injEq, Prod.mk.injEq] at h
    obtain ⟨rfl, rfl⟩ := h
    exact ⟨rfl, trivial⟩
  | .lit l :: as, prev, t, ss, rest, h => by
    rw [matchHere] at h
    obtain ⟨⟨u, rfl⟩, ss', rfl, hm⟩ := of_guarded h
    rw [List.drop_left] at hm
    obtain ⟨hu, hf⟩ := match_sound hm
    exact ⟨by rw [hu]; simp, rfl, hf⟩
  | .one p :: as, prev, [], ss, rest, h => by cases h
  | .one p :: as, prev, c :: t, ss, rest, h => by
    rw [matchHere] at h
    obtain ⟨hp, ss', rfl, hm⟩ := of_guarded h
    obtain ⟨hu, hf⟩ := match_sound hm
    exact ⟨by rw [hu]; simp, ⟨c, rfl, hp⟩, hf⟩
  | .many p :: as, prev, t, ss, rest, h => by
    rw [matchHere, Option.map_eq_some_iff] at h
    obtain ⟨⟨s, ss', rest'⟩, hg, heq⟩ := h
    cases heq
    obtain ⟨hs, u, rfl, hm⟩ := greedy_sound hg
    obtain ⟨hu, hf⟩ := match_sound hm
    exact ⟨by rw [hu]; simp, hs, hf⟩
  | .bound :: as, prev, t, ss, rest, h => by
    rw [matchHere] at h
    obtain ⟨hb, ss', rfl, hm⟩ := of_guarded h
    obtain ⟨hu, hf⟩ := match_sound hm
    exact ⟨hu, ⟨rfl, by rwa [← hu]⟩, hf⟩
  | .bol :: as, prev, t, ss, rest, h => by
    rw [matchHere] at h
    obtain ⟨hb, ss', rfl, hm⟩ := of_guarded h
    obtain ⟨hu, hf⟩ := match_sound hm
    exact ⟨hu, ⟨rfl, hb⟩, hf⟩
  | .eol :: as, prev, t, ss, rest, h => by
    rw [matchHere] at h
    obtain ⟨hb, ss', rfl, hm⟩ := of_guarded h
    obtain ⟨hu, hf⟩ := match_sound hm
    exact ⟨hu, ⟨rfl, by rwa [← hu]⟩, hf⟩

/-- Where pieces fit, the matcher finds a match (perhaps another one). -/
theorem match_complete : ∀ {as : List Atom} {prev : Option Char} {ss : List Text} {rest : Text},
    Fits as prev ss rest → (matchHere as prev (ss.flatten ++ rest)).isSome
  | [], _, [], _, _ => rfl
  | a :: as, prev, s :: ss, rest, ⟨ha, hf⟩ => by
    have ih := match_complete hf
    rw [List.flatten_cons, List.append_assoc]
    cases a with
    | lit l =>
      cases ha
      rw [matchHere, if_pos (List.prefix_append _ _), List.drop_left]
      simpa using ih
    | one p =>
      obtain ⟨c, rfl, hp⟩ := ha
      rw [List.singleton_append, matchHere, if_pos hp]
      simpa using ih
    | many p =>
      rw [matchHere]
      simpa using greedy_complete ha ih
    | bound =>
      obtain ⟨rfl, hb⟩ := ha
      rw [List.nil_append, matchHere, if_pos hb]
      simpa using ih
    | bol =>
      obtain ⟨rfl, hb⟩ := ha
      rw [List.nil_append, matchHere, if_pos hb]
      simpa using ih
    | eol =>
      obtain ⟨rfl, hb⟩ := ha
      rw [List.nil_append, matchHere, if_pos hb]
      simpa using ih

/-- Whether the atom is about what comes behind its piece. -/
def Atom.looksAhead : Atom → Bool
  | .bound | .eol => true
  | _ => false

theorem Atom.Accepts.before {a : Atom} (ha : a.looksAhead = false) {prev : Option Char} {s next : Text}
    (h : a.Accepts prev s next) (next' : Text) : a.Accepts prev s next' := by
  cases a with
  | bound => cases ha
  | eol => cases ha
  | lit | one | many | bol => exact h

/-- Without such atoms, what fits fits before every text. -/
theorem Fits.before : ∀ {as : List Atom} {prev : Option Char} {ss : List Text} {rest : Text},
    (∀ a ∈ as, a.looksAhead = false) → Fits as prev ss rest → ∀ rest', Fits as prev ss rest'
  | [], _, _, _, _, h, _ => fits_nil.2 (fits_nil.1 h)
  | a :: as, prev, ss, rest, ha, h, rest' => by
    obtain ⟨s, ss', rfl, hacc, hf⟩ := fits_cons.1 h
    rw [List.forall_mem_cons] at ha
    exact ⟨hacc.before ha.1 _, hf.before ha.2 rest'⟩

/-- A search finds a pattern exactly when pieces that fit occur in the text. -/
theorem found_iff {as : List Atom} : ∀ {t : Text} {prev : Option Char}, found as prev t = true ↔
    ∃ u ss rest, t = u ++ (ss.flatten ++ rest) ∧ Fits as (lastOr prev u) ss rest := by
  have hhere : ∀ {t prev}, (matchHere as prev t).isSome = true ↔
      ∃ ss rest, t = ss.flatten ++ rest ∧ Fits as prev ss rest := by
    intro t prev
    constructor
    · intro h
      obtain ⟨⟨ss, rest⟩, hm⟩ := Option.isSome_iff_exists.1 h
      obtain ⟨ht, hf⟩ := match_sound hm
      exact ⟨ss, rest, ht, hf⟩
    · rintro ⟨ss, rest, rfl, hf⟩
      exact match_complete hf
  intro t
  induction t with
  | nil =>
    intro prev
    rw [found, hhere]
    constructor
    · rintro ⟨ss, rest, ht, hf⟩
      exact ⟨[], ss, rest, ht, hf⟩
    · rintro ⟨u, ss, rest, ht, hf⟩
      obtain ⟨rfl, hnil⟩ := List.nil_eq_append_iff.1 ht
      exact ⟨ss, rest, hnil.symm, hf⟩
  | cons c t ih =>
    intro prev
    rw [found, Bool.or_eq_true, hhere, ih]
    constructor
    · rintro (⟨ss, rest, ht, hf⟩ | ⟨u, ss, rest, rfl, hf⟩)
      · exact ⟨[], ss, rest, ht, hf⟩
      · exact ⟨c :: u, ss, rest, rfl, hf⟩
    · rintro ⟨u, ss, rest, ht, hf⟩
      cases u with
      | nil => exact Or.inl ⟨ss, rest, ht, hf⟩
      | cons d u =>
        simp only [List.cons_append, List.cons.injEq] at ht
        obtain ⟨rfl, ht⟩ := ht
        exact Or.inr ⟨u, ss, rest, ht, hf⟩

/-! ## Searching for a literal -/

theorem found_lit_iff {s t : Text} {prev : Option Char} : found [.lit s] prev t = true ↔ s <:+: t := by
  rw [found_iff]
  constructor
  · rintro ⟨u, ss, rest, rfl, hf⟩
    obtain ⟨s', ss', rfl, hs, hnil⟩ := fits_cons.1 hf
    cases hs
    cases fits_nil.1 hnil
    exact ⟨u, rest, by simp⟩
  · rintro ⟨u, v, rfl⟩
    exact ⟨u, [s], v, by simp, rfl, trivial⟩

/-- A literal that is not empty is not found in an empty line. -/
theorem found_lit_nil {s : Text} (hs : s ≠ []) : found [.lit s] none [] = false := by
  rw [Bool.eq_false_iff, ne_eq, found_lit_iff, List.infix_nil]
  exact hs

/-! ## `grep` and replacing -/

/-- `grep -q`: some line contains the pattern. -/
def grep (as : List Atom) (t : Text) : Bool := anyLine (found as none) t

/-- The text with every match replaced by what `f` makes of its pieces, from left to right; `skip` characters still
belong to the match before. -/
def replaceAll (as : List Atom) (f : List Text → Text) : (skip : Nat) → Option Char → Text → Text
  | _, _, [] => []
  | skip + 1, _, c :: t => replaceAll as f skip (some c) t
  | 0, prev, c :: t =>
    match matchHere as prev (c :: t) with
    | some (ss, _) => f ss ++ replaceAll as f (ss.flatten.length - 1) (some c) t
    | none => c :: replaceAll as f 0 (some c) t

/-- The text with the first match replaced. -/
def replaceFirst (as : List Atom) (f : List Text → Text) : Option Char → Text → Text
  | _, [] => []
  | prev, c :: t =>
    match matchHere as prev (c :: t) with
    | some (ss, rest) => f ss ++ rest
    | none => c :: replaceFirst as f (some c) t

/-- `sed -i` with an edit of the single line; a last line without newline stays so. -/
def sed (edit : Text → Text) (t : Text) : Text :=
  if Closed t then ((lines t).map fun l => edit l ++ ['\n']).flatten
  else ['\n'].intercalate ((lines t).map edit)

/-! ## Replacing -/

/-- The lines of an edited text, for an edit that does not end its line. -/
theorem lines_sed {edit : Text → Text} (hopen : ∀ l, '\n' ∉ l → l ≠ [] → ¬ Closed (edit l)) (t : Text) :
    lines (sed edit t) = (lines t).flatMap fun l => lines (edit l ++ ['\n']) := by
  have hclosed : ∀ ls : List Text, Closed (ls.map fun l => edit l ++ ['\n']).flatten ∧
      lines (ls.map fun l => edit l ++ ['\n']).flatten = ls.flatMap fun l => lines (edit l ++ ['\n']) := by
    intro ls
    induction ls with
    | nil => exact ⟨closed_nil, rfl⟩
    | cons l ls ih =>
      rw [List.map_cons, List.flatten_cons, List.flatMap_cons, lines_append _ (closed_append_newline _), ih.2]
      exact ⟨(closed_append_newline _).append ih.1, rfl⟩
  unfold sed
  split
  · exact (hclosed _).2
  · rename_i hc
    obtain ⟨u, l, rfl, hu, hl, hne⟩ := exists_last_line hc
    rw [lines_append _ hu, lines_single hl hne, List.map_append, List.flatMap_append]
    have hjoin : ∀ ls : List Text, ['\n'].intercalate (ls.map edit ++ [edit l]) =
        (ls.map fun l => edit l ++ ['\n']).flatten ++ edit l := by
      intro ls
      induction ls with
      | nil => simp [List.intercalate]
      | cons m ls ih =>
        have hne' : ls.map edit ++ [edit l] ≠ [] := by simp
        rw [List.map_cons, List.map_cons, List.flatten_cons, List.append_assoc, ← ih, List.cons_append]
        exact List.intercalate_cons_of_ne_nil hne'
    rw [List.map_singleton, hjoin, lines_append _ (hclosed _).1, (hclosed _).2]
    simp [lines_append_newline, hopen l hl hne]

/-- The lines of a text edited line by line, where no line becomes several. -/
theorem lines_sed_map {edit : Text → Text} (hopen : ∀ l, '\n' ∉ l → l ≠ [] → ¬ Closed (edit l))
    (hline : ∀ l, '\n' ∉ l → '\n' ∉ edit l) (t : Text) : lines (sed edit t) = (lines t).map edit := by
  rw [lines_sed hopen, List.map_eq_flatMap]
  exact List.flatMap_congr fun l hl => lines_line (hline l (noNewline_of_mem_lines hl))

section ReplaceAll

variable {as : List Atom} {f : List Text → Text}

/-- The characters of a match are dropped once it is replaced. -/
theorem replaceAll_skip : ∀ (u : Text) (prev : Option Char) (t : Text),
    replaceAll as f u.length prev (u ++ t) = replaceAll as f 0 (lastOr prev u) t
  | [], _, _ => rfl
  | c :: u, _, t => by
    rw [List.cons_append, List.length_cons, replaceAll, replaceAll_skip u, lastOr_cons]

theorem replaceAll_miss {prev : Option Char} {c : Char} {t : Text} (h : matchHere as prev (c :: t) = none) :
    replaceAll as f 0 prev (c :: t) = c :: replaceAll as f 0 (some c) t := by
  rw [replaceAll, h]

theorem replaceAll_hit {prev : Option Char} {t : Text} {ss : List Text} {rest : Text}
    (h : matchHere as prev t = some (ss, rest)) (hne : ss.flatten ≠ []) :
    replaceAll as f 0 prev t = f ss ++ replaceAll as f 0 (lastOr prev ss.flatten) rest := by
  obtain ⟨ht, -⟩ := match_sound h
  cases hss : ss.flatten with
  | nil => exact absurd hss hne
  | cons c u =>
    rw [hss, List.cons_append] at ht
    subst ht
    rw [replaceAll, h]
    simp only [hss, List.length_cons, Nat.add_sub_cancel, lastOr_cons]
    rw [replaceAll_skip]

/-- The induction rule of replacing, for a pattern that never matches nothing: a property of the text before and the
text after holds if it holds of nothing, of one character kept and of one match replaced. -/
theorem replaceAll_rule {motive : Option Char → Text → Text → Prop}
    (hne : ∀ prev t ss rest, matchHere as prev t = some (ss, rest) → ss.flatten ≠ [])
    (nil : ∀ prev, motive prev [] [])
    (miss : ∀ prev c t u, matchHere as prev (c :: t) = none → motive (some c) t u → motive prev (c :: t) (c :: u))
    (hit : ∀ prev t ss rest u, matchHere as prev t = some (ss, rest) →
      motive (lastOr prev ss.flatten) rest u → motive prev t (f ss ++ u)) :
    ∀ (t : Text) (prev : Option Char), motive prev t (replaceAll as f 0 prev t) := by
  intro t
  induction hn : t.length using Nat.strong_induction_on generalizing t with
  | _ n ih =>
    intro prev
    cases t with
    | nil => exact nil prev
    | cons c t =>
      cases hm : matchHere as prev (c :: t) with
      | none =>
        rw [replaceAll_miss hm]
        exact miss prev c t _ hm (ih t.length (by simp [← hn]) t rfl (some c))
      | some r =>
        obtain ⟨ss, rest⟩ := r
        have hss := hne prev _ ss rest hm
        obtain ⟨ht, -⟩ := match_sound hm
        have hlen := congrArg List.length ht
        have := List.length_pos_iff.2 hss
        rw [List.length_append] at hlen
        rw [replaceAll_hit hm hss]
        exact hit prev _ ss rest _ hm (ih rest.length (by omega) rest rfl _)

/-- Where no place has a match, nothing is replaced. -/
def NoMatch (as : List Atom) : Option Char → Text → Prop
  | _, [] => True
  | prev, c :: t => matchHere as prev (c :: t) = none ∧ NoMatch as (some c) t

theorem replaceAll_noMatch : ∀ {t : Text} {prev : Option Char}, NoMatch as prev t → replaceAll as f 0 prev t = t
  | [], _, _ => rfl
  | c :: t, prev, h => by rw [replaceAll_miss h.1, replaceAll_noMatch h.2]

/-- A pattern that begins with `^` matches inside no line. -/
theorem replaceFirst_inside : ∀ {l : Text} {c : Char}, c ≠ '\n' → '\n' ∉ l →
    replaceFirst (.bol :: as) f (some c) l = l
  | [], _, _, _ => rfl
  | d :: l, c, hc, hl => by
    simp only [List.mem_cons, not_or] at hl
    have hbol : atBol (some c) = false := by simpa [atBol] using hc
    rw [replaceFirst, matchHere, if_neg (by simp [hbol])]
    simp only [replaceFirst_inside (Ne.symm hl.1) hl.2]

/-- In a line it matches at the beginning or nowhere. -/
theorem replaceFirst_line {l : Text} (hl : '\n' ∉ l) (hne : l ≠ []) : replaceFirst (.bol :: as) f none l =
    match matchHere (.bol :: as) none l with
    | some (ss, rest) => f ss ++ rest
    | none => l := by
  cases l with
  | nil => exact absurd rfl hne
  | cons c l =>
    simp only [List.mem_cons, not_or] at hl
    rw [replaceFirst]
    split
    · rfl
    · rw [replaceFirst_inside (Ne.symm hl.1) hl.2]

end ReplaceAll

end Pattern
