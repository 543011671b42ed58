import NfsPlayground.Wiring.Exposed

/-!
# What a pass leaves static

The substitution works on the whole file, the `grep` that checks it on its lines. A static definition of the function
(`Defines`) may have qualifiers between `static` and the return type; then the substitution misses it, and the check
sees it only where the name stands on the line of the `static`.

The places where a line begins with `static` and the substitution does not match are the same in the file and in the
substituted file (`perl_places`), and so are the definitions and the lines that begin there
(`Kept.defines_iff`, `Kept.firstLine`). `unstatic_or_die_iff` is what follows for one pass of the loop.
-/

namespace NfsPlayground.Wiring

open Lines Pattern Resume

/-- The text is `u` and `w`, and a line begins with `w`. -/
def PlaceIn (x u w : Text) : Prop := x = u ++ w ∧ atBol (lastOr none u) = true

/-- White space or qualifiers between `static` and the type, on one line. -/
structure Qualifiers (q : Text) : Prop where
  first : ∃ c ∈ q.head?, c = ' ' ∨ c = '\t'
  last : ∃ c ∈ q.getLast?, c = ' ' ∨ c = '\t'
  line : '\n' ∉ q
  one : ∀ c ∈ q, c ≠ ';' ∧ c ≠ '\x7b' ∧ c ≠ '\x7d'

/-- A definition opens its body where a declaration ends. -/
def isBodyOrEnd (c : Char) : Bool := c == ';' || c == '\x7b' || c == '\x7d'

namespace Unstatic

variable (e : Unstatic)

/-- `w` begins with a static definition of the function, in one of the layouts of the script: qualifiers and the type
on the line of the `static`, the name on that line or a later one, or directly behind the star of the type. -/
def Defines (w : Text) : Prop := ∃ q gap rest, Qualifiers q ∧ (∀ c ∈ gap, isSpace c = true) ∧
  (gap ≠ [] ∨ e.rettype.getLast? = some '*') ∧ rest.find? isBodyOrEnd = some '\x7b' ∧
  w = "static".toList ++ (q ++ (e.rettype ++ (gap ++ (e.func ++ '(' :: rest))))

/-- The text holds a static definition of the function. -/
def StaticDef (x : Text) : Prop := ∃ u w, PlaceIn x u w ∧ e.Defines w

/-- It holds one that the substitution does not match. -/
def Missed (x : Text) : Prop := ∃ u w, PlaceIn x u w ∧ e.Defines w ∧ matchHere e.definition (lastOr none u) w = none

/-- What the check looks for in a line. -/
def static : List Atom := [.bol, .lit "static ".toList, .many fun _ => true, .bound, .lit e.func, .lit "(".toList]

/-- A line that the substitution does not match is one the check looks for. -/
def Seen (x : Text) : Prop := ∃ u w, PlaceIn x u w ∧ found e.static none (firstLine w) = true ∧
  matchHere e.definition (lastOr none u) w = none

end Unstatic

/-! ## Places kept by the substitution -/

/-- The same beginning of a line, with what is behind it swapped. -/
def Kept (w w' : Text) : Prop := ∃ t t', w = 's' :: t ∧ w' = 's' :: t' ∧ Swapped false t t'

theorem static_head {w : Text} (h : "static".toList <+: w) : ∃ t, w = 's' :: t ∧ "tatic".toList <+: t := by
  obtain ⟨t, rfl⟩ := h
  exact ⟨"tatic".toList ++ t, rfl, List.prefix_append _ _⟩

/-- A swapped text has what the text begins with, where no line begins with `static` in it. -/
theorem Swapped.through : ∀ {x : Text} {p : Option Char} {t u : Text}, Swapped (atBol p) (x ++ t) u →
    Quiet p x t → ∃ u', u = x ++ u' ∧ Swapped (atBol (lastOr p x)) t u'
  | [], _, _, u, h, _ => ⟨u, rfl, h⟩
  | c :: x, p, t, u, h, hq => by
    have hno := hq [] (c :: x) rfl (List.cons_ne_nil _ _)
    rw [List.cons_append] at h
    generalize hb : atBol p = b at h
    generalize hw : c :: (x ++ t) = w at h
    cases h with
    | nil => cases hw
    | keep _ d h =>
      cases hw
      obtain ⟨u', rfl, h'⟩ := Swapped.through (p := some c) h fun a b hab hb hbol =>
        hq (c :: a) b (by rw [hab]; rfl) hb hbol
      exact ⟨u', rfl, h'⟩
    | swap h => exact absurd ⟨_, hw.symm⟩ (hno hb)

/-- The other way round, where no line begins with `V` in it. -/
theorem Swapped.back : ∀ {x : Text} {p : Option Char} {t u : Text}, Swapped (atBol p) t (x ++ u) →
    NoV (atBol p) x → ∃ t', t = x ++ t' ∧ Swapped (atBol (lastOr p x)) t' u
  | [], _, t, _, h, _ => ⟨t, rfl, h⟩
  | c :: x, p, t, u, h, hV => by
    rw [List.cons_append] at h
    generalize hb : atBol p = b at h
    generalize hw : c :: (x ++ u) = w at h
    cases h with
    | nil => cases hw
    | keep _ d h =>
      cases hw
      obtain ⟨t', rfl, h'⟩ := Swapped.back (p := some c) h hV.2
      exact ⟨t', rfl, h'⟩
    | swap h => exact absurd (List.cons.inj hw).1 (hV.1 hb)

theorem Swapped.find? {p : Char → Bool} (hs : "static".toList.find? p = none)
    (hv : "VISIBLE_IF_KUNIT".toList.find? p = none) {b : Bool} {t u : Text} (h : Swapped b t u) :
    t.find? p = u.find? p := by
  induction h with
  | nil => rfl
  | keep b c h ih => rw [List.find?_cons, List.find?_cons, ih]
  | swap h ih => rw [List.find?_append, List.find?_append, ih, hs, hv]

theorem Swapped.firstLine {b : Bool} {t u : Text} (h : Swapped b t u) (hb : b = false) :
    Lines.firstLine t = Lines.firstLine u := by
  induction h with
  | nil => rfl
  | keep b c h ih =>
    unfold Lines.firstLine at ih ⊢
    by_cases hc : c = '\n'
    · simp [hc]
    · rw [List.takeWhile_cons, List.takeWhile_cons, ih (beq_false_of_ne hc)]
  | swap => cases hb

theorem Kept.firstLine {w w' : Text} (h : Kept w w') : Lines.firstLine w = Lines.firstLine w' := by
  obtain ⟨t, t', rfl, rfl, h⟩ := h
  have ht := h.firstLine rfl
  unfold Lines.firstLine at ht ⊢
  rw [List.takeWhile_cons, List.takeWhile_cons, ht]

theorem Swapped.bodyOrEnd {b : Bool} {t u : Text} (h : Swapped b t u) : t.find? isBodyOrEnd = u.find? isBodyOrEnd :=
  h.find? (by decide) (by decide)

/-- The definition up to its parameters, behind the first letter. -/
def header (e : Unstatic) (q gap : Text) : Text :=
  (['t', 'a', 't', 'i', 'c'] ++ q ++ e.rettype) ++ (gap ++ (e.func ++ ['(']))

theorem defines_header {e : Unstatic} {t : Text} : e.Defines ('s' :: t) ↔ ∃ q gap rest, Qualifiers q ∧
    (∀ c ∈ gap, isSpace c = true) ∧ (gap ≠ [] ∨ e.rettype.getLast? = some '*') ∧
    rest.find? isBodyOrEnd = some '\x7b' ∧ t = header e q gap ++ rest := by
  have heq : ∀ q gap rest, ('s' :: t = "static".toList ++ (q ++ (e.rettype ++ (gap ++ (e.func ++ '(' :: rest)))) ↔
      t = header e q gap ++ rest) := fun q gap rest => by
    rw [show "static".toList = 's' :: ['t', 'a', 't', 'i', 'c'] from rfl, List.cons_append, List.cons.injEq]
    simp [header]
  simp only [Unstatic.Defines, heq]

theorem quiet_header {e : Unstatic} (he : e.Steady) {q gap : Text} (hq : Qualifiers q)
    (hgap : ∀ c ∈ gap, isSpace c = true) (y : Text) : Quiet (some 's') (header e q gap) y := by
  have hline : '\n' ∉ ['t', 'a', 't', 'i', 'c'] ++ q ++ e.rettype := by
    simp [hq.line, e.rettype_noNewline]
  have hfunc : '\n' ∉ e.func ++ ['('] := by
    simp [e.func_noNewline]
  refine (quiet_inside hline (by decide) _).append ((quiet_blank hgap _ _).append (quiet_inline hfunc ?_ _))
  rw [List.append_assoc]
  exact he.2.1.not_static _

theorem noV_header {e : Unstatic} (he : e.Steady) {q gap : Text} (hq : Qualifiers q)
    (hgap : ∀ c ∈ gap, isSpace c = true) : NoV false (header e q gap) := by
  have hline : '\n' ∉ ['t', 'a', 't', 'i', 'c'] ++ q ++ e.rettype := by
    simp [hq.line, e.rettype_noNewline]
  refine noV_inside hline (noV_blank hgap ?_ false)
  exact noV_inline e.func_noNewline he.2.1.ne_nil he.2.1.2.1 ⟨fun h => absurd h (by decide), trivial⟩

/-- Every `static` place of the text after comes from one of the text before that is not matched. -/
def Back (e : Unstatic) (prev : Option Char) (t u : Text) : Prop :=
  ∀ a b, u = a ++ b → atBol (lastOr prev a) = true → "static".toList <+: b →
    ∃ c d, t = c ++ d ∧ atBol (lastOr prev c) = true ∧ matchHere e.definition (lastOr prev c) d = none ∧ Kept d b

/-- Every `static` place of the text before that is not matched stays. -/
def Forth (e : Unstatic) (prev : Option Char) (t u : Text) : Prop :=
  ∀ c d, t = c ++ d → atBol (lastOr prev c) = true → "static".toList <+: d →
    matchHere e.definition (lastOr prev c) d = none →
    ∃ a b, u = a ++ b ∧ atBol (lastOr prev a) = true ∧ Kept d b

section Places

variable {e : Unstatic} {prev : Option Char}

/-- Where the substitution keeps a character. -/
theorem Back.keep {c : Char} {t u : Text} (hm : matchHere e.definition prev (c :: t) = none)
    (hs : Swapped (c == '\n') t u) (h : Back e (some c) t u) : Back e prev (c :: t) (c :: u) := by
  intro a b hab hbol hstatic
  cases a with
  | nil =>
    rw [List.nil_append] at hab
    subst hab
    obtain ⟨w, hw, -⟩ := static_head hstatic
    obtain ⟨rfl, rfl⟩ := List.cons.inj hw
    exact ⟨[], _, rfl, hbol, hm, t, u, rfl, rfl, hs⟩
  | cons d a =>
    obtain ⟨rfl, rfl⟩ := List.cons.inj hab
    obtain ⟨c', d', rfl, h'⟩ := h a b rfl hbol hstatic
    exact ⟨c :: c', d', rfl, h'⟩

theorem Forth.keep {c : Char} {t u : Text} (hs : Swapped (c == '\n') t u) (h : Forth e (some c) t u) :
    Forth e prev (c :: t) (c :: u) := by
  intro a b hab hbol hstatic hm
  cases a with
  | nil =>
    rw [List.nil_append] at hab
    subst hab
    obtain ⟨w, hw, -⟩ := static_head hstatic
    obtain ⟨rfl, rfl⟩ := List.cons.inj hw
    exact ⟨[], _, rfl, hbol, t, u, rfl, rfl, hs⟩
  | cons d a =>
    obtain ⟨rfl, rfl⟩ := List.cons.inj hab
    obtain ⟨c', d', rfl, h'⟩ := h a b rfl hbol hstatic hm
    exact ⟨c :: c', d', rfl, h'⟩

/-- Where it replaces a match: no line inside the match or its replacement begins with `static`. -/
theorem Back.swap (he : e.Steady) {ws ws' t u : Text} (hb : Unstatic.Blank ws ws') (h : Back e (some '(') t u) :
    Back e prev ("static".toList ++ e.tail ws ws' ++ t) ("VISIBLE_IF_KUNIT".toList ++ e.tail ws ws' ++ u) := by
  have hlast : ∀ x : Text, lastOr prev (x ++ e.tail ws ws') = some '(' := fun x => by
    rw [Unstatic.tail, ← List.append_assoc, lastOr_append]
    rfl
  have hquiet : Quiet prev ("VISIBLE_IF_KUNIT".toList ++ e.tail ws ws') u := by
    refine (quiet_inline (by decide) ?_ _).append (quiet_tail he hb _ _)
    exact fun h => absurd (List.cons_prefix_cons.1 h).1 (by decide)
  intro a b hab hbol hstatic
  rcases List.append_eq_append_iff.1 hab with ⟨a', rfl, rfl⟩ | ⟨b', hvis, rfl⟩
  · rw [lastOr_append, hlast] at hbol
    obtain ⟨c, d, rfl, hc, hm, hkept⟩ := h a' b rfl hbol hstatic
    refine ⟨"static".toList ++ e.tail ws ws' ++ c, d, (List.append_assoc _ _ _).symm, ?_, ?_, hkept⟩
    · rwa [lastOr_append, hlast]
    · rwa [lastOr_append, hlast]
  · by_cases hb' : b' = []
    · subst hb'
      rw [List.append_nil] at hvis
      rw [← hvis, hlast] at hbol
      cases hbol
    · exact absurd hstatic (hquiet a b' hvis hb' hbol)

theorem Forth.swap (he : e.Steady) {ws ws' t u : Text} (hb : Unstatic.Blank ws ws')
    (hm : (matchHere e.definition prev ("static".toList ++ e.tail ws ws' ++ t)).isSome)
    (h : Forth e (some '(') t u) :
    Forth e prev ("static".toList ++ e.tail ws ws' ++ t) ("VISIBLE_IF_KUNIT".toList ++ e.tail ws ws' ++ u) := by
  have hlast : ∀ x : Text, lastOr prev (x ++ e.tail ws ws') = some '(' := fun x => by
    rw [Unstatic.tail, ← List.append_assoc, lastOr_append]
    rfl
  have hquiet : Quiet (some 's') ("tatic".toList ++ e.tail ws ws') t :=
    (quiet_inside (by decide) (by decide) _).append (quiet_tail he hb _ _)
  intro c d hcd hbol hstatic hnone
  rcases List.append_eq_append_iff.1 hcd with ⟨c', rfl, rfl⟩ | ⟨d', hmatch, rfl⟩
  · rw [lastOr_append, hlast] at hbol hnone
    obtain ⟨a, b, rfl, ha, hkept⟩ := h c' d rfl hbol hstatic hnone
    refine ⟨"VISIBLE_IF_KUNIT".toList ++ e.tail ws ws' ++ a, b, (List.append_assoc _ _ _).symm, ?_, hkept⟩
    rwa [lastOr_append, hlast]
  · cases c with
    | nil =>
      rw [List.nil_append] at hmatch
      rw [lastOr_nil, ← hmatch] at hnone
      rw [hnone] at hm
      cases hm
    | cons c₀ c =>
      have hsplit : 's' :: ("tatic".toList ++ e.tail ws ws') = c₀ :: (c ++ d') := hmatch
      obtain ⟨rfl, hrest⟩ := List.cons.inj hsplit
      by_cases hd' : d' = []
      · have hend := hlast "static".toList
        rw [hmatch, hd', List.append_nil] at hend
        rw [hend] at hbol
        cases hbol
      · exact absurd hstatic (hquiet c d' hrest hd' hbol)

theorem perl_places (he : e.Steady) (x : Text) : Back e none x (e.perl x) ∧ Forth e none x (e.perl x) := by
  refine (replaceAll_rule (motive := fun prev t u => Swapped (atBol prev) t u ∧ Back e prev t u ∧ Forth e prev t u)
    (fun _ _ _ _ h => Unstatic.definition_ne h) (fun _ => ⟨.nil _, ?_, ?_⟩) ?_ ?_ x none).2
  · rintro a b hab - hstatic
    obtain ⟨rfl, rfl⟩ := List.nil_eq_append_iff.1 hab
    exact absurd hstatic (by decide)
  · rintro c d hcd - hstatic
    obtain ⟨rfl, rfl⟩ := List.nil_eq_append_iff.1 hcd
    exact absurd hstatic (by decide)
  · exact fun prev c t u hm ⟨hs, hback, hforth⟩ => ⟨.keep _ c hs, hback.keep hm hs, hforth.keep hs⟩
  · rintro prev t ss rest u hm ⟨hs, hback, hforth⟩
    have hsome : (matchHere e.definition prev t).isSome := by rw [hm]; rfl
    obtain ⟨hbol, ws, ws', hb, rfl, hss, hv⟩ := Unstatic.definition_match hm
    have hlast : lastOr prev ss.flatten = some '(' := by
      rw [hss, Unstatic.tail, ← List.append_assoc, lastOr_append]
      rfl
    rw [hlast] at hs hback hforth
    rw [hv]
    refine ⟨?_, hback.swap he hb, hforth.swap he hb hsome⟩
    rw [hbol, List.append_assoc, List.append_assoc]
    refine .swap (Swapped.append (e.tail ws ws') (some 'c') ?_)
    rw [Unstatic.tail, lastOr_append]
    exact hs

end Places

/-- The same definitions begin at a place that is kept. -/
theorem Kept.defines_iff {e : Unstatic} (he : e.Steady) {w w' : Text} (h : Kept w w') :
    e.Defines w ↔ e.Defines w' := by
  obtain ⟨t, t', rfl, rfl, h⟩ := h
  rw [defines_header, defines_header]
  constructor
  · rintro ⟨q, gap, rest, hq, hgap, hstar, hbody, rfl⟩
    obtain ⟨rest', rfl, h'⟩ := Swapped.through (p := some 's') h (quiet_header he hq hgap rest)
    exact ⟨q, gap, rest', hq, hgap, hstar, h'.bodyOrEnd ▸ hbody, rfl⟩
  · rintro ⟨q, gap, rest', hq, hgap, hstar, hbody, rfl⟩
    obtain ⟨rest, rfl, h'⟩ := Swapped.back (p := some 's') h (noV_header he hq hgap)
    exact ⟨q, gap, rest, hq, hgap, hstar, h'.bodyOrEnd.trans hbody, rfl⟩

/-! ## The substituted file -/

theorem lastOr_none : ∀ u : Text, lastOr none u = u.getLast?
  | [] => rfl
  | [_] => rfl
  | c :: d :: u => by
    rw [List.getLast?_cons_cons, ← lastOr_none (d :: u)]
    rfl

theorem atBol_iff_closed (u : Text) : atBol (lastOr none u) = true ↔ Closed u := by
  rw [lastOr_none, atBol, Closed]
  cases u.getLast? <;> simp

theorem Unstatic.Defines.static {e : Unstatic} {w : Text} (h : e.Defines w) : "static".toList <+: w := by
  obtain ⟨q, gap, rest, -, -, -, -, rfl⟩ := h
  exact List.prefix_append _ _

/-- The static definitions left are those that the substitution misses. -/
theorem staticDef_perl {e : Unstatic} (he : e.Steady) (x : Text) : e.StaticDef (e.perl x) ↔ e.Missed x := by
  obtain ⟨hback, hforth⟩ := perl_places he x
  constructor
  · rintro ⟨u, w, ⟨hx, hbol⟩, hdef⟩
    obtain ⟨c, d, hcd, hbol', hm, hkept⟩ := hback u w hx hbol hdef.static
    exact ⟨c, d, ⟨hcd, hbol'⟩, (hkept.defines_iff he).2 hdef, hm⟩
  · rintro ⟨u, w, ⟨hx, hbol⟩, hdef, hm⟩
    obtain ⟨a, b, hab, hbol', hkept⟩ := hforth u w hx hbol hdef.static hm
    exact ⟨a, b, ⟨hab, hbol'⟩, (hkept.defines_iff he).1 hdef⟩

/-- What the check looks for begins its line. -/
theorem found_static {e : Unstatic} {w : Text} (h : found e.static none (firstLine w) = true) :
    "static".toList <+: w := by
  obtain ⟨u, ss, rest, heq, hf⟩ := found_iff.1 h
  obtain ⟨_, _, rfl, ⟨rfl, hbol⟩, hf⟩ := fits_cons.1 hf
  obtain ⟨_, _, rfl, rfl, -⟩ := fits_cons.1 hf
  have hu : u = [] := by
    by_contra hne
    have hline : '\n' ∉ u := fun hu => firstLine_noNewline w (heq ▸ List.mem_append_left _ hu)
    rw [not_atBol_lastOr hline hne] at hbol
    cases hbol
  have hfirst : "static ".toList <+: firstLine w := by
    rw [heq, hu]
    simp
  exact List.IsPrefix.trans (by decide) (hfirst.trans (List.takeWhile_prefix _))

/-- The check finds a line that the substitution does not match. -/
theorem stillStatic_perl {e : Unstatic} (he : e.Steady) (x : Text) : e.stillStatic (e.perl x) = true ↔ e.Seen x := by
  obtain ⟨hback, hforth⟩ := perl_places he x
  have hgrep : e.stillStatic (e.perl x) = true ↔ ∃ l ∈ lines (e.perl x), found e.static none l = true :=
    List.any_eq_true
  rw [hgrep]
  constructor
  · rintro ⟨l, hl, hfound⟩
    obtain ⟨u, w, hx, hu, -, rfl⟩ := mem_lines_iff_place.1 hl
    obtain ⟨c, d, hcd, hbol, hm, hkept⟩ := hback u w hx ((atBol_iff_closed u).2 hu) (found_static hfound)
    exact ⟨c, d, ⟨hcd, hbol⟩, hkept.firstLine ▸ hfound, hm⟩
  · rintro ⟨u, w, ⟨hx, hbol⟩, hfound, hm⟩
    obtain ⟨a, b, hab, hbol', hkept⟩ := hforth u w hx hbol (found_static hfound) hm
    have hb : b ≠ [] := by
      obtain ⟨t, t', -, rfl, -⟩ := hkept
      exact List.cons_ne_nil _ _
    exact ⟨_, mem_lines_iff_place.2 ⟨a, b, hab, (atBol_iff_closed a).1 hbol', hb, rfl⟩, hkept.firstLine ▸ hfound⟩

/-! ## The pass -/

/-- What is appended on lines of its own defines nothing, and ends no definition, if it has no `static` and no brace. -/
theorem staticDef_append {e : Unstatic} {x y : Text} (hx : e.StaticDef (x ++ '\n' :: y)) (hbrace : '\x7b' ∉ y)
    (hquiet : Quiet (some '\n') y []) : e.StaticDef x := by
  obtain ⟨u, w, ⟨huw, hbol⟩, hdef⟩ := hx
  rcases List.append_eq_append_iff.1 huw with ⟨a, rfl, hw⟩ | ⟨b, rfl, rfl⟩
  · cases a with
    | nil =>
      rw [List.nil_append] at hw
      exact absurd (hw ▸ hdef.static) fun h => absurd (List.cons_prefix_cons.1 h).1 (by decide)
    | cons c a =>
      obtain ⟨rfl, rfl⟩ := List.cons.inj hw
      have hne : w ≠ [] := by
        rintro rfl
        exact absurd hdef.static (by decide)
      rw [lastOr_append, lastOr_cons] at hbol
      have hno := hquiet a w rfl hne hbol
      rw [List.append_nil] at hno
      exact absurd hdef.static hno
  refine ⟨u, b, ⟨rfl, hbol⟩, ?_⟩
  obtain ⟨q, gap, rest, hq, hgap, hstar, hbody, heq⟩ := hdef
  have hno : ∀ {z : Text}, z <:+ '\n' :: y → z.find? isBodyOrEnd ≠ some '\x7b' := by
    intro z hz hfind
    have hmem := hz.subset (List.mem_of_find?_eq_some hfind)
    simp only [List.mem_cons, hbrace, or_false] at hmem
    exact absurd hmem (by decide)
  have hsplit : b ++ '\n' :: y = ("static".toList ++ (q ++ (e.rettype ++ (gap ++ (e.func ++ ['(']))))) ++ rest := by
    rw [heq]
    simp
  rcases List.append_eq_append_iff.1 hsplit with ⟨z, -, hz⟩ | ⟨z, rfl, rfl⟩
  · exact absurd hbody (hno ⟨z, hz.symm⟩)
  · refine ⟨q, gap, z, hq, hgap, hstar, ?_, by simp⟩
    rw [List.find?_append, Option.or_eq_some_iff] at hbody
    exact hbody.resolve_right fun h => hno List.suffix_rfl h.2

theorem staticDef_append_of {e : Unstatic} {x y : Text} (hx : e.StaticDef x) : e.StaticDef (x ++ y) := by
  obtain ⟨u, w, ⟨rfl, hbol⟩, q, gap, rest, hq, hgap, hstar, hbody, rfl⟩ := hx
  refine ⟨u, _, ⟨by rw [List.append_assoc], hbol⟩, q, gap, rest ++ y, hq, hgap, hstar, ?_, by simp⟩
  rw [List.find?_append, hbody]
  rfl

/-- The pass leaves no static definition of the function, or it dies before the export line is there. -/
def Unstatic.UnstaticOrDead (e : Unstatic) (t : Tree) : Prop :=
  (∃ r, Ends e.expose t r ∧ ¬ e.StaticDef (r.text e.src)) ∨
    ((e.expose t).2 = false ∧ ∀ m ∈ states e.expose t, e.exported m = false)

section Pass

variable {e : Unstatic} {t r : Tree}

/-- Where the check finds something the pass dies, and the export line is not there. -/
theorem expose_dies (hfile : t.isFile e.src = true) (hx : e.exported t = false)
    (hstatic : e.stillStatic (e.perl (t.text e.src)) = true) :
    (e.expose t).2 = false ∧ ∀ m ∈ states e.expose t, e.exported m = false := by
  have hguarded : ∀ {s : Tree}, Ends (guarded e.hasCflags e.addCflags) t s →
      e.exported s = false ∧ s.text e.src = t.text e.src := by
    intro s hs
    rw [ends_guarded.1 hs]
    split
    · exact ⟨hx, rfl⟩
    · rw [Unstatic.addCflags, Tree.append, Unstatic.exported_put_makefile]
      exact ⟨hx, Tree.text_put_ne (e.src_ne_makefile e) _⟩
  have hcheck : ∀ {s : Tree}, s.text e.src = t.text e.src →
      e.stillStatic ((s.modify e.src e.perl).text e.src) = true := fun hs => by
    rw [Tree.modify, Tree.text_put_self, hs, hstatic]
  constructor
  · rw [Bool.eq_false_iff]
    intro hend
    have hends : Ends e.expose t (last t (e.expose t).1) := ⟨hend, rfl⟩
    unfold Unstatic.expose at hends
    rw [ends_branch, hfile, Bool.not_true, if_neg (by simp), ends_branch, hx, if_neg (by simp)] at hends
    obtain ⟨s₁, h₁, hends⟩ := ends_seq.1 hends
    obtain ⟨s₂, h₂, hends⟩ := ends_seq.1 hends
    rw [← ends_edit.1 h₂, ends_branch, if_pos (hcheck (hguarded h₁).2)] at hends
    exact ends_die hends
  · intro m hm
    unfold Unstatic.expose at hm
    rw [mem_states_branch, hfile, Bool.not_true, if_neg (by simp), mem_states_branch, hx, if_neg (by simp)] at hm
    rcases mem_states_seq.1 hm with hm | ⟨s₁, h₁, hm⟩
    · unfold guarded at hm
      rw [mem_states_branch] at hm
      split at hm
      · rw [mem_states_skip.1 hm, hx]
      · rcases mem_states_edit.1 hm with rfl | rfl
        · exact hx
        · rw [Unstatic.addCflags, Tree.append, Unstatic.exported_put_makefile, hx]
    rcases mem_states_seq.1 hm with hm | ⟨s₂, h₂, hm⟩
    · rcases mem_states_edit.1 hm with rfl | rfl
      · exact (hguarded h₁).1
      · rw [Unstatic.exported_perl, (hguarded h₁).1]
    · rw [← ends_edit.1 h₂, mem_states_branch, if_pos (hcheck (hguarded h₁).2)] at hm
      rw [mem_states_die.1 hm, Unstatic.exported_perl, (hguarded h₁).1]

/-- The export line adds no definition. -/
theorem staticDef_export {x : Text} (h : e.StaticDef (x ++ '\n' :: (e.exportMark ++ ";".toList ++ ['\n']))) :
    e.StaticDef x := by
  have hfunc : '\x7b' ∉ e.func := fun h => absurd (List.all_eq_true.1 e.func_ok _ h) (by decide)
  have hnl : '\n' ∉ e.exportMark ++ ";".toList := by
    rw [List.mem_append, not_or]
    exact ⟨e.exportMark_noNewline, by decide⟩
  have hmark : ∀ y, ¬ "static".toList <+: e.exportMark ++ ";".toList ++ y := fun y h => by
    unfold Unstatic.exportMark at h
    exact absurd (List.cons_prefix_cons.1 h).1 (by decide)
  have hend : ∀ c ∈ ['\n'], isSpace c = true := List.all_eq_true.1 (by decide)
  have hbrace : '\x7b' ∉ e.exportMark ++ ";".toList ++ ['\n'] := by
    unfold Unstatic.exportMark
    simp only [-String.reduceToList, List.mem_append, not_or, hfunc, not_false_eq_true, and_true]
    exact ⟨⟨⟨not_mem_lit (by decide), not_mem_lit (by decide)⟩, not_mem_lit (by decide)⟩, by decide⟩
  exact staticDef_append h hbrace ((quiet_inline hnl (hmark _) _).append (quiet_blank hend _ _))

theorem text_exposed (e : Unstatic) (t : Tree) : (e.addExport (e.substituted t)).text e.src =
    e.perl (t.text e.src) ++ '\n' :: (e.exportMark ++ ";".toList ++ ['\n']) := by
  rw [Unstatic.addExport, Tree.append, Tree.text_put_self, Unstatic.text_substituted]

/-- Where the check finds nothing, what the substitution misses is left. -/
theorem expose_leaves (he : e.Steady) (hfile : t.isFile e.src = true) (hx : e.exported t = false)
    (hs : e.stillStatic (e.perl (t.text e.src)) = false) (hmissed : e.Missed (t.text e.src)) :
    ¬ e.UnstaticOrDead t := by
  have hends := (Unstatic.expose_ends hfile hx hs).1
  rintro (⟨r, hr, hno⟩ | ⟨hdead, -⟩)
  · rw [hr.unique hends, text_exposed] at hno
    exact hno (staticDef_append_of ((staticDef_perl he _).2 hmissed))
  · rw [hends.1] at hdead
    cases hdead

end Pass

/-- A pass over a file with a static definition of the function leaves none, or dies before the export line, exactly
when the file has no export line yet and, if the substitution misses a definition, the check sees some line. -/
theorem unstatic_or_die_iff (e : Unstatic) (t : Tree) (he : e.Steady) (hfile : t.isFile e.src = true)
    (hdef : e.StaticDef (t.text e.src)) :
    e.UnstaticOrDead t ↔ e.exported t = false ∧ (e.Missed (t.text e.src) → e.Seen (t.text e.src)) := by
  cases hx : e.exported t with
  | true =>
    have hskip : Ends e.expose t t := by
      unfold Unstatic.expose
      rw [ends_branch, if_neg (by simp [hfile]), ends_branch, if_pos hx]
      exact ends_skip.2 rfl
    refine ⟨?_, fun h => absurd h.1 (by simp)⟩
    rintro (⟨r, hr, hno⟩ | ⟨hdead, -⟩)
    · rw [hr.unique hskip] at hno
      exact absurd hdef hno
    · rw [hskip.1] at hdead
      cases hdead
  | false =>
    simp only [true_and]
    rw [← staticDef_perl he, ← stillStatic_perl he]
    cases hs : e.stillStatic (e.perl (t.text e.src)) with
    | true => exact ⟨fun _ _ => rfl, fun _ => Or.inr (expose_dies hfile hx hs)⟩
    | false =>
      constructor
      · exact fun hdone hleft => absurd hdone (expose_leaves he hfile hx hs ((staticDef_perl he _).1 hleft))
      · intro hleft
        refine Or.inl ⟨_, (Unstatic.expose_ends hfile hx hs).1, fun hdef' => ?_⟩
        rw [text_exposed] at hdef'
        exact absurd (hleft (staticDef_export hdef')) (by simp)

/-! ## Two layouts of a definition with a qualifier -/

/-- The last entry of the script's table. -/
def endGrace : Unstatic :=
  ⟨"fs/nfsd".toList, "nfs4state".toList, "void".toList, "nfsd4_end_grace".toList, by decide, by decide⟩

def sourceTree (x : Text) : Tree := ⟨fun _ => true, fun p => if p = endGrace.src then some x else none⟩

theorem sourceTree_text (x : Text) : (sourceTree x).text endGrace.src = x := by
  simp [sourceTree, Tree.text]

def inlineText (gap : Text) : Text :=
  "static".toList ++ (" inline ".toList ++ ("void".toList ++ (gap ++ ("nfsd4_end_grace".toList ++
    '(' :: "void)\n\x7b\n\x7d\n".toList))))

theorem inlineText_defines {g : Text} (hgap : ∀ c ∈ g, isSpace c = true) (hne : g ≠ []) :
    PlaceIn (inlineText g) [] (inlineText g) ∧ endGrace.Defines (inlineText g) := by
  have hone : " inline ".toList.all (fun c => c ≠ ';' ∧ c ≠ '\x7b' ∧ c ≠ '\x7d') = true := by decide
  have hq : Qualifiers " inline ".toList :=
    ⟨⟨' ', rfl, Or.inl rfl⟩, ⟨' ', rfl, Or.inl rfl⟩, by decide,
      fun c hc => of_decide_eq_true (List.all_eq_true.1 hone c hc)⟩
  exact ⟨⟨rfl, rfl⟩, " inline ".toList, g, "void)\n\x7b\n\x7d\n".toList, hq, hgap, Or.inl hne, by decide, rfl⟩

/-- All on one line: the pass dies. -/
theorem inline_one_line_dead : endGrace.UnstaticOrDead (sourceTree (inlineText [' '])) := by
  obtain ⟨hplace, hdef⟩ := inlineText_defines (g := [' ']) (List.all_eq_true.1 (by decide)) (by decide)
  refine (unstatic_or_die_iff _ _ (by decide) (by rfl) ?_).2 ⟨?_, fun _ => ?_⟩
  · rw [sourceTree_text]
    exact ⟨_, _, hplace, hdef⟩
  · decide
  · rw [sourceTree_text]
    exact ⟨_, _, hplace, by decide, by decide⟩

/-- With the name on the next line the definition stays static, and the pass goes on. -/
theorem inline_two_lines_left : endGrace.StaticDef ((sourceTree (inlineText ['\n'])).text endGrace.src) ∧
    ¬ endGrace.UnstaticOrDead (sourceTree (inlineText ['\n'])) := by
  obtain ⟨hplace, hdef⟩ := inlineText_defines (g := ['\n']) (List.all_eq_true.1 (by decide)) (by decide)
  have hmissed : endGrace.Missed (inlineText ['\n']) := ⟨_, _, hplace, hdef, by decide⟩
  have htext := sourceTree_text (inlineText ['\n'])
  refine ⟨htext ▸ ⟨_, _, hplace, hdef⟩, expose_leaves (by decide) (by rfl) (by decide) ?_ ?_⟩
  · rw [htext]
    decide
  · rw [htext]
    exact hmissed

end NfsPlayground.Wiring
