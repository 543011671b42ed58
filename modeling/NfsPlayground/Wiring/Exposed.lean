import NfsPlayground.Wiring.Unmoved

/-!
# Exposing is resumable

The loop over `UNSTATIC` recognises an entry by its export line. The substitution neither makes nor loses such a line
(`exported_perl`), and a second substitution finds nothing more (`perl_idem`, for names that cannot be mistaken for a
`static` or a `VISIBLE_IF_KUNIT` at the beginning of a line); so a pass can be interrupted anywhere and run again.
-/

namespace NfsPlayground.Wiring

open Lines Pattern Resume

/-- A text that, at the beginning of a line, begins neither `VISIBLE_IF_KUNIT` nor `static`. -/
def Steady (x : Text) : Prop := 3 ≤ x.length ∧ x.head? ≠ some 'V' ∧ ¬ "sta".toList <+: x

instance (x : Text) : Decidable (Steady x) := inferInstanceAs (Decidable (_ ∧ _))

/-- The return type and the name are steady, and the name of the object is part of a line. -/
def Unstatic.Steady (e : Unstatic) : Prop := Wiring.Steady e.rettype ∧ Wiring.Steady e.func ∧ '\n' ∉ e.obj

instance (e : Unstatic) : Decidable e.Steady := inferInstanceAs (Decidable (_ ∧ _))

/-! ## Export lines -/

/-- Editing a line neither makes nor loses an export mark. -/
theorem lineEdit_exportMark (e : Unstatic) {l l' : Text} (h : LineEdit l l') :
    found [.lit e.exportMark] none l' = found [.lit e.exportMark] none l := by
  rcases h with rfl | ⟨s, rfl, rfl⟩
  · rfl
  obtain ⟨m, hm⟩ : ∃ m, e.exportMark = 'E' :: 'X' :: m := ⟨_, rfl⟩
  have hvis : e.exportMark <:+: "VISIBLE_IF_KUNIT".toList ++ s ↔ e.exportMark <:+: s := by
    rw [hm]
    simp [List.infix_cons_iff, List.cons_prefix_cons]
  have hstatic : e.exportMark <:+: "static".toList ++ s ↔ e.exportMark <:+: s := by
    rw [hm]
    simp [List.infix_cons_iff, List.cons_prefix_cons]
  rw [Bool.eq_iff_iff, found_lit_iff, found_lit_iff, hvis, hstatic]

theorem any_congr {p : Text → Bool} : ∀ {ls ms : List Text}, List.Forall₂ (fun l m => p m = p l) ls ms →
    ms.any p = ls.any p
  | _, _, .nil => rfl
  | _, _, .cons h hs => by rw [List.any_cons, List.any_cons, h, any_congr hs]

/-- The substitution neither makes nor loses an export line. -/
theorem perl_exportMark (e i : Unstatic) (x : Text) :
    grep [.lit e.exportMark] (i.perl x) = grep [.lit e.exportMark] x :=
  any_congr ((perl_lines i x).imp fun _ _ h => lineEdit_exportMark e h)

/-! ## A second substitution finds nothing -/

/-- No `V` at the beginning of a line; the flag says whether the text begins one. -/
def NoV : Bool → Text → Prop
  | _, [] => True
  | b, c :: w => (b = true → c ≠ 'V') ∧ NoV (c == '\n') w

/-- What a swapped text begins with, it has from the text before, unless it is a `VISIBLE_IF_KUNIT`. -/
theorem Swapped.begins {b : Bool} {t u : Text} (h : Swapped b t u) : ∀ {w : Text}, NoV b w → w <+: u → w <+: t := by
  induction h with
  | nil b =>
    intro w _ hw
    exact hw
  | keep b c h ih =>
    intro w hV hw
    cases w with
    | nil => exact List.nil_prefix
    | cons d w =>
      obtain ⟨rfl, hw'⟩ := List.cons_prefix_cons.1 hw
      exact List.cons_prefix_cons.2 ⟨rfl, ih hV.2 hw'⟩
  | swap h ih =>
    intro w hV hw
    cases w with
    | nil => exact List.nil_prefix
    | cons d w =>
      have hd : d = 'V' := (List.cons_prefix_cons.1 hw).1
      exact absurd hd (hV.1 rfl)

theorem noV_blank {ws y : Text} (hws : ∀ c ∈ ws, isSpace c = true) (hy : ∀ b, NoV b y) : ∀ b, NoV b (ws ++ y) := by
  induction ws with
  | nil => exact hy
  | cons c ws ih =>
    intro b
    refine ⟨fun _ hc => ?_, ih (fun d hd => hws d (List.mem_cons_of_mem _ hd)) _⟩
    have := hws c List.mem_cons_self
    rw [hc] at this
    cases this

/-- Inside a line a `V` does no harm. -/
theorem noV_inside : ∀ {x : Text}, '\n' ∉ x → ∀ {y : Text}, NoV false y → NoV false (x ++ y)
  | [], _, _, hy => hy
  | c :: x, hx, _, hy => by
    simp only [List.mem_cons, not_or] at hx
    refine ⟨fun h => absurd h (by decide), ?_⟩
    rw [beq_false_of_ne (Ne.symm hx.1)]
    exact noV_inside hx.2 hy

theorem noV_inline {x : Text} (hx : '\n' ∉ x) (hne : x ≠ []) (hV : x.head? ≠ some 'V') {y : Text} (hy : NoV false y)
    (b : Bool) : NoV b (x ++ y) := by
  cases x with
  | nil => exact absurd rfl hne
  | cons c x =>
    have hin := noV_inside hx hy
    exact ⟨fun _ h => hV (by rw [h]; rfl), hin.2⟩

namespace Unstatic

variable {e : Unstatic}

theorem rettype_noNewline (e : Unstatic) : '\n' ∉ e.rettype := by
  intro h
  exact absurd (List.all_eq_true.1 e.rettype_ok _ h) (by decide)

theorem func_noNewline (e : Unstatic) : '\n' ∉ e.func := by
  intro h
  exact absurd (List.all_eq_true.1 e.func_ok _ h) (by decide)

end Unstatic

theorem Steady.ne_nil {x : Text} (h : Steady x) : x ≠ [] := fun hx => by
  have := h.1
  simp [hx] at this

theorem noV_definition {e : Unstatic} (he : e.Steady) {ws ws' : Text} (hb : Unstatic.Blank ws ws') :
    NoV true ("static".toList ++ e.tail ws ws') := by
  unfold Unstatic.tail
  simp only [List.append_assoc]
  refine noV_inline (by decide) (by decide) (by decide) (noV_blank hb.left ?_ _) _
  refine noV_inline e.rettype_noNewline he.1.ne_nil he.1.2.1 (noV_blank hb.right ?_ _)
  exact noV_inline e.func_noNewline he.2.1.ne_nil he.2.1.2.1 ⟨fun h => absurd h (by decide), trivial⟩

/-- A place where the substitution finds nothing: inside a line, or before something else than `static`. -/
theorem definition_miss {e : Unstatic} {prev : Option Char} {w : Text}
    (h : atBol prev = false ∨ ¬ "static".toList <+: w) : matchHere e.definition prev w = none := by
  rw [Option.eq_none_iff_forall_ne_some]
  rintro ⟨ss, rest⟩ hm
  obtain ⟨hbol, ws, ws', -, rfl, -⟩ := Unstatic.definition_match hm
  rcases h with h | h
  · rw [hbol] at h
    cases h
  · exact h ⟨e.tail ws ws' ++ rest, by rw [List.append_assoc]⟩

/-- Inside `x`, with `y` behind it, no line begins with `static`. -/
def Quiet (prev : Option Char) (x y : Text) : Prop :=
  ∀ a b, x = a ++ b → b ≠ [] → atBol (lastOr prev a) = true → ¬ "static".toList <+: b ++ y

theorem Quiet.append {prev : Option Char} {x₁ x₂ y : Text} (h₁ : Quiet prev x₁ (x₂ ++ y))
    (h₂ : Quiet (lastOr prev x₁) x₂ y) : Quiet prev (x₁ ++ x₂) y := by
  intro a b hab hb hbol
  rcases List.append_eq_append_iff.1 hab with ⟨a', rfl, hx₂⟩ | ⟨b', rfl, rfl⟩
  · exact h₂ a' b hx₂ hb (by rwa [← lastOr_append])
  · by_cases hb' : b' = []
    · subst hb'
      refine h₂ [] x₂ rfl (by simpa using hb) ?_
      rwa [lastOr_append]
    · rw [List.append_assoc]
      exact h₁ a b' rfl hb' hbol

theorem quiet_blank {ws : Text} (hws : ∀ c ∈ ws, isSpace c = true) (prev : Option Char) (y : Text) :
    Quiet prev ws y := by
  rintro a b rfl hb -
  cases b with
  | nil => exact absurd rfl hb
  | cons c b =>
    intro h
    have hc : 's' = c := (List.cons_prefix_cons.1 h).1
    have := hws c (by simp)
    rw [← hc] at this
    cases this

theorem not_atBol_lastOr : ∀ {a : Text} {prev : Option Char}, '\n' ∉ a → a ≠ [] → atBol (lastOr prev a) = false
  | [c], _, h, _ => by
    simp only [List.mem_singleton] at h
    simpa [atBol] using Ne.symm h
  | c :: d :: a, _, h, _ => by
    rw [lastOr_cons]
    exact not_atBol_lastOr (fun hd => h (List.mem_cons_of_mem _ hd)) (by simp)

/-- Part of a line, where the line may begin with it. -/
theorem quiet_inline {x y : Text} (hx : '\n' ∉ x) (hs : ¬ "static".toList <+: x ++ y) (prev : Option Char) :
    Quiet prev x y := by
  rintro a b rfl hb hbol
  by_cases ha : a = []
  · rwa [ha] at hs
  · rw [not_atBol_lastOr (fun h => hx (List.mem_append_left _ h)) ha] at hbol
    cases hbol

/-- Part of a line that does not begin with it. -/
theorem quiet_inside {x : Text} (hx : '\n' ∉ x) {c : Char} (hc : c ≠ '\n') (y : Text) : Quiet (some c) x y := by
  rintro a b rfl hb hbol
  have hca : '\n' ∉ c :: a := by
    simp only [List.mem_cons, not_or]
    exact ⟨Ne.symm hc, fun h => hx (List.mem_append_left _ h)⟩
  have := @not_atBol_lastOr (c :: a) none hca (by simp)
  rw [lastOr_cons, hbol] at this
  cases this

/-- Nothing that begins with a steady text begins with `static`. -/
theorem Steady.not_static {x : Text} (h : Steady x) (y : Text) : ¬ "static".toList <+: x ++ y := by
  intro hp
  refine h.2.2 (List.prefix_of_prefix_length_le (List.IsPrefix.trans ?_ hp) (List.prefix_append x y) h.1)
  decide

/-- What a match puts back. -/
theorem quiet_tail {e : Unstatic} (he : e.Steady) {ws ws' : Text} (hb : Unstatic.Blank ws ws') (prev : Option Char)
    (y : Text) : Quiet prev (e.tail ws ws') y := by
  unfold Unstatic.tail
  have hparen : ¬ "static".toList <+: "(".toList ++ y := fun h =>
    absurd (List.cons_prefix_cons.1 h).1 (by decide)
  refine Quiet.append (Quiet.append (Quiet.append (Quiet.append (quiet_blank hb.left _ _) ?_) ?_) ?_) ?_
  · exact quiet_inline e.rettype_noNewline (he.1.not_static _) _
  · exact quiet_blank hb.right _ _
  · exact quiet_inline e.func_noNewline (he.2.1.not_static _) _
  · exact quiet_inline (by decide) hparen _

theorem Quiet.noMatch {e : Unstatic} : ∀ {x : Text} {prev : Option Char} {y : Text}, Quiet prev x y →
    NoMatch e.definition (lastOr prev x) y → NoMatch e.definition prev (x ++ y)
  | [], _, _, _, hy => hy
  | c :: x, prev, y, hq, hy => by
    refine ⟨definition_miss ?_, Quiet.noMatch (fun a b hab hb hbol => hq (c :: a) b ?_ hb hbol) hy⟩
    · cases hbol : atBol prev with
      | false => exact Or.inl rfl
      | true => exact Or.inr (hq [] (c :: x) rfl (List.cons_ne_nil _ _) hbol)
    · rw [hab, List.cons_append]

theorem noMatch_visible {e : Unstatic} (he : e.Steady) {ws ws' : Text} (hb : Unstatic.Blank ws ws') {u : Text}
    {prev : Option Char} (hu : NoMatch e.definition (some '(') u) :
    NoMatch e.definition prev ("VISIBLE_IF_KUNIT".toList ++ e.tail ws ws' ++ u) := by
  have hvisible : ¬ "static".toList <+: "VISIBLE_IF_KUNIT".toList ++ (e.tail ws ws' ++ u) := fun h =>
    absurd (List.cons_prefix_cons.1 h).1 (by decide)
  refine Quiet.noMatch (Quiet.append (quiet_inline (by decide) hvisible _) (quiet_tail he hb _ _)) ?_
  have hlast : lastOr prev ("VISIBLE_IF_KUNIT".toList ++ e.tail ws ws') = some '(' := by
    rw [Unstatic.tail, ← List.append_assoc, lastOr_append]
    rfl
  rwa [hlast]

/-- Where the text before has no match, the text after has none. -/
theorem definition_miss_swapped {e : Unstatic} (he : e.Steady) {prev : Option Char} {c : Char} {t u : Text}
    (hm : matchHere e.definition prev (c :: t) = none) (h : Swapped (c == '\n') t u) :
    matchHere e.definition prev (c :: u) = none := by
  rw [Option.eq_none_iff_forall_ne_some]
  rintro ⟨ss, rest⟩ hmu
  obtain ⟨hu, hf⟩ := match_sound hmu
  obtain ⟨hbol, ws, ws', hb, hss, -⟩ := Unstatic.fits_definition hf
  have hV := noV_definition he hb
  have hpre : ss.flatten <+: c :: t := by
    rw [hss] at hu ⊢
    exact (Swapped.keep true c h).begins hV ⟨rest, hu.symm⟩
  obtain ⟨rest', hrest'⟩ := hpre
  have hbefore : ∀ a ∈ e.definition, a.looksAhead = false := by simp [Unstatic.definition, Atom.looksAhead]
  have hsome := match_complete (hf.before hbefore rest')
  rw [hrest', hm] at hsome
  cases hsome

/-- The substitution leaves no match. -/
theorem perl_noMatch {e : Unstatic} (he : e.Steady) (x : Text) : NoMatch e.definition none (e.perl x) := by
  refine (replaceAll_rule (motive := fun prev t u => Swapped (atBol prev) t u ∧ NoMatch e.definition prev u)
    (fun _ _ _ _ h => Unstatic.definition_ne h) (fun _ => ⟨.nil _, trivial⟩) ?_ ?_ x none).2
  · exact fun prev c t u hm h => ⟨.keep _ c h.1, definition_miss_swapped he hm h.1, h.2⟩
  · intro prev t ss rest u hm h
    obtain ⟨hbol, ws, ws', hb, rfl, hss, hv⟩ := Unstatic.definition_match hm
    have hlast : lastOr prev ss.flatten = some '(' := by
      rw [hss, Unstatic.tail, ← List.append_assoc, lastOr_append]
      rfl
    rw [hlast] at h
    refine ⟨?_, ?_⟩
    · rw [hv, hbol, List.append_assoc, List.append_assoc]
      exact .swap (Swapped.append (e.tail ws ws') (some 'c') (by
        rw [Unstatic.tail, lastOr_append]
        exact h.1))
    · rw [hv]
      exact noMatch_visible he hb h.2

theorem perl_idem {e : Unstatic} (he : e.Steady) (x : Text) : e.perl (e.perl x) = e.perl x :=
  replaceAll_noMatch (perl_noMatch he x)

/-! ## One pass of the loop -/

namespace Unstatic

theorem cflags_noNewline {e : Unstatic} (he : e.Steady) : '\n' ∉ e.cflags := by
  have hobj := he.2.2
  unfold cflags
  simp [hobj]

theorem exportMark_noNewline (e : Unstatic) : '\n' ∉ e.exportMark := by
  have hfunc := e.func_noNewline
  unfold exportMark
  simp [hfunc]

theorem exportMark_ne (e : Unstatic) : e.exportMark ≠ [] := by
  unfold exportMark
  simp

theorem cflags_ne (e : Unstatic) : e.cflags ≠ [] := by
  unfold cflags
  simp

theorem hasCflags_addCflags {e : Unstatic} (he : e.Steady) (t : Tree) : e.hasCflags (e.addCflags t) = true := by
  unfold hasCflags addCflags grep Tree.append
  rw [Tree.text_put_self, anyLine_append_line (found_lit_nil e.cflags_ne) _ (cflags_noNewline he),
    found_lit_iff.2 List.infix_rfl, Bool.or_true]

theorem exported_addExport (e : Unstatic) (t : Tree) : e.exported (e.addExport t) = true := by
  have hnl : '\n' ∉ e.exportMark ++ ";".toList := by simp [e.exportMark_noNewline]
  unfold exported addExport grep Tree.append
  rw [Tree.text_put_self, anyLine_append_line (found_lit_nil e.exportMark_ne) _ hnl,
    found_lit_iff.2 (List.prefix_append _ _).isInfix, Bool.or_true]

theorem src_ne_makefile (e i : Unstatic) : e.src ≠ i.makefile := Wiring.src_ne_makefile e.dir e.obj i

/-- What each edit of a pass keeps, the pass keeps. -/
theorem expose_keeps {I : Tree → Prop} (e : Unstatic) (hmakefile : ∀ t, I t → I (e.addCflags t))
    (hperl : ∀ t, I t → I (t.modify e.src e.perl)) (hexport : ∀ t, I t → I (e.addExport t)) : Keeps I e.expose :=
  keeps_branch keeps_die (keeps_branch keeps_skip (keeps_seq (keeps_guarded hmakefile)
    (keeps_seq (keeps_edit hperl) (keeps_branch keeps_die (keeps_edit hexport)))))

/-- A pass leaves every file alone but its source and its Makefile. -/
theorem expose_untouched (e : Unstatic) {p : Path} (hsrc : p ≠ e.src) (hmakefile : p ≠ e.makefile) :
    Untouched e.expose p := fun _ =>
  e.expose_keeps (fun t ht => by rwa [addCflags, Tree.append, Tree.file_put_ne hmakefile])
    (fun t ht => by rwa [Tree.modify, Tree.file_put_ne hsrc])
    fun t ht => by rwa [addExport, Tree.append, Tree.file_put_ne hsrc]

/-- The pass is done: the source is there and has its export line. -/
def Exported (e : Unstatic) (t : Tree) : Prop := t.isFile e.src = true ∧ e.exported t = true

theorem isFile_put_of (p q : Path) (x : Text) {t : Tree} (h : t.isFile q = true) : (t.put p x).isFile q = true := by
  rw [Tree.isFile_put, h, Bool.or_true]

theorem exported_put_makefile (e i : Unstatic) (t : Tree) (x : Text) :
    e.exported (t.put i.makefile x) = e.exported t := by
  rw [exported, Tree.text_put_ne (e.src_ne_makefile i), exported]

theorem exported_perl (e i : Unstatic) (t : Tree) : e.exported (t.modify i.src i.perl) = e.exported t := by
  unfold exported Tree.modify
  by_cases hp : e.src = i.src
  · rw [hp, Tree.text_put_self, perl_exportMark]
  · rw [Tree.text_put_ne hp]

/-- An export line stays when another is added. -/
theorem exported_addExport_of (e i : Unstatic) {t : Tree} (h : e.exported t = true) :
    e.exported (i.addExport t) = true := by
  unfold exported addExport Tree.append at *
  by_cases hp : e.src = i.src
  · rw [hp] at h ⊢
    unfold grep at h ⊢
    rw [Tree.text_put_self, anyLine_append (found_lit_nil e.exportMark_ne), h, Bool.true_or]
  · rwa [Tree.text_put_ne hp]

/-- What a pass has done the others keep. -/
theorem exported_keeps (e i : Unstatic) : Keeps e.Exported i.expose :=
  i.expose_keeps (fun _ ht => ⟨isFile_put_of _ _ _ ht.1, by rw [addCflags, Tree.append, exported_put_makefile, ht.2]⟩)
    (fun _ ht => ⟨isFile_put_of _ _ _ ht.1, by rw [exported_perl, ht.2]⟩)
    fun _ ht => ⟨isFile_put_of _ _ _ ht.1, exported_addExport_of e i ht.2⟩

/-- The edits of a pass, up to the export line which says that they have been made. -/
theorem exposeStatic_resumable {e : Unstatic} (he : e.Steady) :
    Resumable (branch e.exported skip e.exposeStatic) fun t => e.exported t = true := by
  refine unless_resumable fun t r hx hr => ?_
  obtain ⟨t₁, h₁, h⟩ := ends_seq.1 hr
  obtain ⟨t₂, h₂, h⟩ := ends_seq.1 h
  have hcflags := guarded_resumable fun t (_ : e.hasCflags t = false) => hasCflags_addCflags he t
  have hedit : t₁.modify e.src e.perl = t₂ := ends_edit.1 h₂
  rw [ends_branch] at h
  split at h
  · exact absurd h ends_die
  rename_i hstatic
  have hexport : e.addExport t₂ = r := ends_edit.1 h
  -- neither the Makefile nor the substitution bears on the export line
  have hx₁ : e.exported t₁ = false := by
    rw [ends_guarded.1 h₁]
    split
    · exact hx
    · rw [addCflags, Tree.append, exported_put_makefile, hx]
  have hx₂ : e.exported t₂ = false := by rw [← hedit, exported_perl, hx₁]
  have hlast : Ends (branch (fun t => e.stillStatic (t.text e.src)) die (edit e.addExport)) t₂ r := by
    rw [ends_branch, if_neg hstatic]
    exact h
  have hend₁ : Ends e.exposeStatic t₁ r :=
    ends_seq.2 ⟨t₁, hcflags.settled (hcflags.reaches h₁), ends_seq.2 ⟨t₂, h₂, hlast⟩⟩
  have hend₂ : Ends e.exposeStatic t₂ r := by
    have hmk : e.hasCflags t₂ = true := by
      have hdone := hcflags.reaches h₁
      unfold hasCflags at hdone ⊢
      rwa [← hedit, Tree.modify, Tree.text_put_ne (e.src_ne_makefile e).symm]
    have hagain : t₂.modify e.src e.perl = t₂ := by
      rw [← hedit, Tree.modify, Tree.modify, Tree.text_put_self, perl_idem he, Tree.put_put]
    exact ends_seq.2 ⟨t₂, hcflags.settled hmk, ends_seq.2 ⟨t₂, ends_edit.2 hagain, hlast⟩⟩
  refine ⟨by rw [← hexport, exported_addExport], fun m hm => ?_⟩
  rcases mem_states_seq.1 hm with hm | ⟨t₁', h₁', hm⟩
  · unfold guarded at hm
    rw [mem_states_branch] at hm
    split at hm
    · rw [mem_states_skip.1 hm]
      exact Or.inr ⟨hx, hr⟩
    · rename_i hc
      rcases mem_states_edit.1 hm with rfl | rfl
      · exact Or.inr ⟨hx, hr⟩
      · rw [ends_guarded.1 h₁, if_neg hc] at hx₁ hend₁
        exact Or.inr ⟨hx₁, hend₁⟩
  · rw [← h₁.unique h₁'] at hm
    rcases mem_states_seq.1 hm with hm | ⟨t₂', h₂', hm⟩
    · rcases mem_states_edit.1 hm with rfl | rfl
      · exact Or.inr ⟨hx₁, hend₁⟩
      · rw [hedit]
        exact Or.inr ⟨hx₂, hend₂⟩
    · rw [← h₂.unique h₂', mem_states_branch, if_neg hstatic] at hm
      rcases mem_states_edit.1 hm with rfl | rfl
      · exact Or.inr ⟨hx₂, hend₂⟩
      · exact Or.inl hexport

/-- A pass can be interrupted anywhere and run again. -/
theorem expose_resumable {e : Unstatic} (he : e.Steady) : Resumable e.expose e.Exported := by
  have hfile : Keeps (fun t : Tree => (!t.isFile e.src) = false) (branch e.exported skip e.exposeStatic) := by
    refine keeps_branch keeps_skip (keeps_seq (keeps_guarded fun t ht => ?_) (keeps_seq (keeps_edit fun t ht => ?_)
      (keeps_branch keeps_die (keeps_edit fun t ht => ?_))))
    all_goals
      simp only [Bool.not_eq_false'] at ht ⊢
      exact isFile_put_of _ _ _ ht
  have h := (exposeStatic_resumable he).check hfile
  simp only [Bool.not_eq_false'] at h
  exact h

/-- The tree after the substitution, which has no export line yet. -/
def substituted (e : Unstatic) (t : Tree) : Tree :=
  (if e.hasCflags t then t else e.addCflags t).modify e.src e.perl

theorem text_substituted (e : Unstatic) (t : Tree) : (e.substituted t).text e.src = e.perl (t.text e.src) := by
  unfold substituted Tree.modify
  rw [Tree.text_put_self]
  split
  · rfl
  · rw [addCflags, Tree.append, Tree.text_put_ne (e.src_ne_makefile e)]

/-- A pass over an entry whose definition the substitution finds, and where it can be interrupted. -/
theorem expose_ends {e : Unstatic} {t : Tree} (hf : t.isFile e.src = true) (hx : e.exported t = false)
    (hs : e.stillStatic (e.perl (t.text e.src)) = false) :
    Ends e.expose t (e.addExport (e.substituted t)) ∧ e.substituted t ∈ states e.expose t := by
  have hcflags : Ends (guarded e.hasCflags e.addCflags) t (if e.hasCflags t then t else e.addCflags t) :=
    ends_guarded.2 rfl
  have hperl : Ends (edit fun t => t.modify e.src e.perl) (if e.hasCflags t then t else e.addCflags t)
      (e.substituted t) := ends_edit.2 rfl
  unfold expose exposeStatic
  rw [ends_branch, mem_states_branch, if_neg (by simp [hf]), if_neg (by simp [hf]), ends_branch, mem_states_branch,
    if_neg (by simp [hx]), if_neg (by simp [hx])]
  constructor
  · refine ends_seq.2 ⟨_, hcflags, ends_seq.2 ⟨_, hperl, ?_⟩⟩
    rw [ends_branch, text_substituted, if_neg (by simp [hs])]
    exact ends_edit.2 rfl
  · exact mem_states_seq.2 (Or.inr ⟨_, hcflags, mem_states_seq.2 (Or.inl hperl.mem_states)⟩)

/-- So can the loop. -/
theorem loop_expose_resumable {es : List Unstatic} (hes : ∀ e ∈ es, e.Steady) :
    Resumable (loop Unstatic.expose es) fun t => ∀ e ∈ es, e.Exported t :=
  Resumable.loop (fun e he => expose_resumable (hes e he)) (List.pairwise_of_forall fun e i => exported_keeps e i)

end Unstatic

end NfsPlayground.Wiring
