import Mathlib.Data.List.Forall2
import NfsPlayground.Wiring.Expose

/-!
# The loop moves no source line

The substitution replaces the `static` at the beginning of some lines and puts everything else of its match back
(`Swapped`, `perl_swapped`). So it changes a text line by line (`swapped_editedFrom`), and since everything else the
loop does is to append behind a newline, each original line stays where it is (`wiring_moves_no_line`). -/

namespace NfsPlayground.Wiring

open Lines Pattern Resume

/-- The line, but for a leading `static` that has become `VISIBLE_IF_KUNIT`. -/
def LineEdit (l l' : Text) : Prop :=
  l' = l ∨ ∃ s, l = "static".toList ++ s ∧ l' = "VISIBLE_IF_KUNIT".toList ++ s

theorem LineEdit.refl (l : Text) : LineEdit l l := Or.inl rfl

theorem LineEdit.trans {l₁ l₂ l₃ : Text} (h : LineEdit l₁ l₂) (h' : LineEdit l₂ l₃) : LineEdit l₁ l₃ := by
  rcases h with rfl | ⟨s, rfl, rfl⟩
  · exact h'
  · rcases h' with rfl | ⟨s', hs, -⟩
    · exact Or.inr ⟨s, rfl, rfl⟩
    · -- a line that starts with `V` does not start with `static`
      simp at hs

/-! ## The matches of the substitution -/

namespace Unstatic

variable (e : Unstatic)

/-- What the substitution matches, after the `static`. -/
def tail (ws ws' : Text) : Text := ws ++ e.rettype ++ ws' ++ e.func ++ "(".toList

/-- White space as the groups capture it. -/
structure Blank (ws ws' : Text) : Prop where
  ne : ws ≠ []
  left : ∀ c ∈ ws, isSpace c = true
  right : ∀ c ∈ ws', isSpace c = true

variable {e}

theorem fits_definition {prev : Option Char} {ss : List Text} {rest : Text} (h : Fits e.definition prev ss rest) :
    atBol prev = true ∧ ∃ ws ws', Blank ws ws' ∧ ss.flatten = "static".toList ++ e.tail ws ws' ∧
      e.visible ss = "VISIBLE_IF_KUNIT".toList ++ e.tail ws ws' := by
  obtain ⟨_, _, rfl, ⟨rfl, hbol⟩, h⟩ := fits_cons.1 h
  obtain ⟨_, _, rfl, rfl, h⟩ := fits_cons.1 h
  obtain ⟨_, _, rfl, ⟨c, rfl, hc⟩, h⟩ := fits_cons.1 h
  obtain ⟨ws, _, rfl, hws, h⟩ := fits_cons.1 h
  obtain ⟨_, _, rfl, rfl, h⟩ := fits_cons.1 h
  obtain ⟨ws', _, rfl, hws', h⟩ := fits_cons.1 h
  obtain ⟨_, _, rfl, rfl, h⟩ := fits_cons.1 h
  obtain ⟨_, _, rfl, rfl, h⟩ := fits_cons.1 h
  cases fits_nil.1 h
  refine ⟨hbol, c :: ws, ws', ⟨by simp, fun d hd => ?_, hws'⟩, ?_, ?_⟩
  · rcases List.mem_cons.1 hd with rfl | hd
    · exact hc
    · exact hws d hd
  · simp only [tail, List.flatten_cons, List.flatten_nil, List.append_nil, List.nil_append, List.append_assoc,
      List.cons_append]
  · show "VISIBLE_IF_KUNIT".toList ++ ([c] ++ ws) ++ e.rettype ++ ws' ++ e.func ++ "(".toList = _
    simp only [tail, List.append_assoc, List.cons_append, List.nil_append]

/-- Every match is one `static` at the beginning of a line and what the groups put back. -/
theorem definition_match {prev : Option Char} {t : Text} {ss : List Text} {rest : Text}
    (h : matchHere e.definition prev t = some (ss, rest)) :
    atBol prev = true ∧ ∃ ws ws', Blank ws ws' ∧ t = "static".toList ++ e.tail ws ws' ++ rest ∧
      ss.flatten = "static".toList ++ e.tail ws ws' ∧ e.visible ss = "VISIBLE_IF_KUNIT".toList ++ e.tail ws ws' := by
  obtain ⟨ht, hf⟩ := match_sound h
  obtain ⟨hbol, ws, ws', hb, hss, hv⟩ := fits_definition hf
  exact ⟨hbol, ws, ws', hb, by rw [ht, hss], hss, hv⟩

theorem definition_ne {prev : Option Char} {t : Text} {ss : List Text} {rest : Text}
    (h : matchHere e.definition prev t = some (ss, rest)) : ss.flatten ≠ [] := by
  obtain ⟨-, ws, ws', -, -, hss, -⟩ := definition_match h
  rw [hss]
  simp

end Unstatic

/-! ## The substitution, character by character -/

/-- The second text is the first with some `static` at the beginning of a line replaced; the flag says whether the
first character begins a line. -/
inductive Swapped : Bool → Text → Text → Prop
  | nil (b : Bool) : Swapped b [] []
  | keep (b : Bool) (c : Char) {t u : Text} : Swapped (c == '\n') t u → Swapped b (c :: t) (c :: u)
  | swap {t u : Text} : Swapped false t u → Swapped true ("static".toList ++ t) ("VISIBLE_IF_KUNIT".toList ++ u)

theorem Swapped.append : ∀ (v : Text) (prev : Option Char) {t u : Text}, Swapped (atBol (lastOr prev v)) t u →
    Swapped (atBol prev) (v ++ t) (v ++ u)
  | [], _, _, _, h => h
  | c :: v, _, _, _, h => .keep _ c (Swapped.append v (some c) h)

theorem perl_swapped (e : Unstatic) (x : Text) : Swapped true x (e.perl x) := by
  refine replaceAll_rule (motive := fun prev t u => Swapped (atBol prev) t u)
    (fun _ _ _ _ h => Unstatic.definition_ne h) (fun _ => .nil _) (fun prev c t u _ h => .keep _ c h) ?_ x none
  intro prev t ss rest u hm h
  obtain ⟨hbol, ws, ws', -, rfl, hss, hv⟩ := Unstatic.definition_match hm
  rw [hv, hbol, List.append_assoc, List.append_assoc]
  refine .swap ?_
  rw [hss, lastOr_append] at h
  exact Swapped.append (e.tail ws ws') (some 'c') h

/-! ## Line by line -/

/-- Lines that agree on the first and are edited from the second on, or are edited from the first on. -/
def EditedFrom : Bool → List Text → List Text → Prop
  | true, ls, ms => List.Forall₂ LineEdit ls ms
  | false, [], ms => ms = []
  | false, l :: ls, ms => ∃ ms', ms = l :: ms' ∧ List.Forall₂ LineEdit ls ms'

theorem EditedFrom.push {c : Char} : ∀ {ls ms : List Text}, EditedFrom false ls ms → ∀ b,
    EditedFrom b (push c ls) (push c ms)
  | [], _, h, b => by
    rw [show _ = [] from h]
    cases b with
    | true => exact .cons (.refl _) .nil
    | false => exact ⟨[], rfl, .nil⟩
  | l :: ls, _, ⟨ms', hms, h⟩, b => by
    subst hms
    cases b with
    | true => exact .cons (.refl _) h
    | false => exact ⟨ms', rfl, h⟩

/-- A newline-free text in front of another goes in front of its first line. -/
theorem lines_inline_append : ∀ {v : Text}, '\n' ∉ v → ∀ t, v ≠ [] →
    lines (v ++ t) = (v ++ (lines t).headD []) :: (lines t).tail
  | [c], h, t, _ => by
    simp only [List.mem_singleton] at h
    rw [List.singleton_append, lines_cons (Ne.symm h)]
    cases lines t <;> rfl
  | c :: d :: v, h, t, _ => by
    simp only [List.mem_cons, not_or] at h
    rw [List.cons_append, lines_cons (Ne.symm h.1),
      lines_inline_append (v := d :: v) (by simp [h.2]) t (by simp)]
    rfl

theorem swapped_editedFrom {b : Bool} {t u : Text} (h : Swapped b t u) : EditedFrom b (lines t) (lines u) := by
  induction h with
  | nil b => cases b <;> simp [EditedFrom]
  | keep b c h ih =>
    by_cases hc : c = '\n'
    · subst hc
      cases b with
      | true => exact .cons (.refl _) ih
      | false => exact ⟨_, rfl, ih⟩
    · rw [lines_cons hc, lines_cons hc]
      rw [beq_false_of_ne hc] at ih
      exact ih.push b
  | @swap t u h ih =>
    rw [lines_inline_append (by decide) t (by simp), lines_inline_append (by decide) u (by simp)]
    cases hl : lines t with
    | nil =>
      rw [hl] at ih
      rw [show lines u = [] from ih]
      exact .cons (Or.inr ⟨[], rfl, rfl⟩) .nil
    | cons l ls =>
      rw [hl] at ih
      obtain ⟨ms, hms, h⟩ := ih
      rw [hms]
      exact .cons (Or.inr ⟨l, rfl, rfl⟩) h

/-- The substitution edits each line in its place. -/
theorem perl_lines (e : Unstatic) (x : Text) : List.Forall₂ LineEdit (lines x) (lines (e.perl x)) :=
  swapped_editedFrom (perl_swapped e x)

/-! ## The loop -/

/-- The first lines of `y` are the lines of `x`, each at most edited; what was added comes after them. -/
def Unmoved (x y : Text) : Prop := List.Forall₂ LineEdit (lines x) ((lines y).take (lines x).length)

theorem lineEdits_trans : ∀ {ls ms ns : List Text}, List.Forall₂ LineEdit ls ms → List.Forall₂ LineEdit ms ns →
    List.Forall₂ LineEdit ls ns
  | _, _, _, .nil, .nil => .nil
  | _, _, _, .cons h hs, .cons h' hs' => .cons (h.trans h') (lineEdits_trans hs hs')

theorem Unmoved.refl (x : Text) : Unmoved x x := by
  rw [Unmoved, List.take_length]
  exact List.forall₂_same.2 fun l _ => .refl l

theorem Unmoved.perl {x y : Text} (h : Unmoved x y) (e : Unstatic) : Unmoved x (e.perl y) :=
  lineEdits_trans h (List.forall₂_take _ (perl_lines e y))

/-- What is appended behind a newline comes after the lines that are there. -/
theorem Unmoved.append {x y : Text} (h : Unmoved x y) (u : Text) : Unmoved x (y ++ '\n' :: u) := by
  have hle : (lines x).length ≤ (lines y).length := by
    have := h.length_eq
    rw [List.length_take] at this
    omega
  have hlines : ∃ more, lines (y ++ '\n' :: u) = lines y ++ more := by
    rw [show y ++ '\n' :: u = (y ++ ['\n']) ++ u by simp, lines_append u (closed_append_newline y),
      lines_append_newline]
    split
    · exact ⟨[[]] ++ lines u, by rw [List.append_assoc]⟩
    · exact ⟨lines u, rfl⟩
  obtain ⟨more, hmore⟩ := hlines
  rw [Unmoved, hmore, List.take_append_of_le_length hle]
  exact h

/-- A C source file is no Makefile. -/
theorem src_ne_makefile (dir obj : Text) (e : Unstatic) : ((dir, obj ++ ".c".toList) : Path) ≠ e.makefile := by
  intro h
  have := congrArg (fun p : Path => p.2.getLast?) h
  simp [Unstatic.makefile] at this

/-- One pass of the loop keeps the lines of every source file in their places. -/
theorem expose_keeps_unmoved (x dir obj : Text) (e : Unstatic) :
    Keeps (fun m => Unmoved x (m.text (dir, obj ++ ".c".toList))) e.expose := by
  have hput : ∀ (m : Tree) (y : Text), Unmoved x (m.text (dir, obj ++ ".c".toList)) →
      (∀ z, Unmoved x z → m.text e.src = z → Unmoved x y) →
      Unmoved x ((m.put e.src y).text (dir, obj ++ ".c".toList)) := by
    intro m y hm hy
    by_cases hp : ((dir, obj ++ ".c".toList) : Path) = e.src
    · rw [hp] at hm ⊢
      rw [Tree.text_put_self]
      exact hy _ hm rfl
    · rwa [Tree.text_put_ne hp]
  refine keeps_branch keeps_die (keeps_branch keeps_skip (keeps_seq (keeps_guarded fun m hm => ?_)
    (keeps_seq (keeps_edit fun m hm => ?_) (keeps_branch keeps_die (keeps_edit fun m hm => ?_)))))
  · rw [Unstatic.addCflags, Tree.append, Tree.text_put_ne (src_ne_makefile dir obj e)]
    exact hm
  · exact hput m _ hm fun z hz heq => heq ▸ hz.perl e
  · exact hput m _ hm fun z hz heq => heq ▸ hz.append _

/-- **The wiring moves no source line.** Whatever a source file holds, and whatever the entries of the loop: after the
loop, and wherever it is interrupted, each line of the file is still the line of that number, with at most a leading
`static` replaced, and what was added comes after the last one. -/
theorem wiring_moves_no_line (es : List Unstatic) (t : Tree) (dir obj : Text) :
    ∀ m ∈ states (loop Unstatic.expose es) t,
      Unmoved (t.text (dir, obj ++ ".c".toList)) (m.text (dir, obj ++ ".c".toList)) :=
  keeps_loop (fun e _ => expose_keeps_unmoved _ dir obj e) t (.refl _)

/-- A tree with one source file: a forward declaration and a definition in two lines, without a final newline. -/
def twoLineTree : Tree where
  isDir d := d = "fs".toList
  file := fun p =>
    if p = ("fs".toList, "inode.c".toList) then some "static int f(void);\nstatic int\nf(void)\n{}".toList else none

theorem wiring_moves_no_line_two : Unmoved (twoLineTree.text ("fs".toList, "inode".toList ++ ".c".toList))
    ((last twoLineTree (loop Unstatic.expose [⟨"fs".toList, "inode".toList, "int".toList, "f".toList, by decide,
      by decide⟩] twoLineTree).1).text ("fs".toList, "inode".toList ++ ".c".toList)) :=
  wiring_moves_no_line _ _ _ _ _ (Ends.mem_states ⟨by decide, rfl⟩)

end NfsPlayground.Wiring
