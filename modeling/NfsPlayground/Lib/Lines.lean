import Mathlib.Data.List.Basic
import Mathlib.Data.List.Infix
import Mathlib.Data.List.TakeWhile

/-!
# Lines of a text

A text is a list of characters. `lines` splits it as the line-oriented tools do: a newline ends a line, and what comes
after the last newline is a line if it is not empty. `Closed t` says that `t` does not end in the middle of a line,
so that what is appended begins a line of its own.
-/

namespace Lines

abbrev Text := List Char

instance : LawfulBEq Text := inferInstance

/-- Puts a character in front of the first line. -/
def push (c : Char) : List Text → List Text
  | [] => [[c]]
  | l :: ls => (c :: l) :: ls

def lines : Text → List Text
  | [] => []
  | c :: t => if c = '\n' then [] :: lines t else push c (lines t)

/-- The lines written out, each with its newline. -/
def unlines (ls : List Text) : Text := (ls.map (· ++ ['\n'])).flatten

/-- Empty, or ending in a newline. -/
def Closed (t : Text) : Prop := ∀ c ∈ t.getLast?, c = '\n'

instance (t : Text) : Decidable (Closed t) :=
  match h : t.getLast? with
  | none => .isTrue (by simp [Closed, h])
  | some c => decidable_of_iff (c = '\n') (by simp [Closed, h])

@[simp] theorem lines_nil : lines [] = [] := rfl

@[simp] theorem lines_newline (t : Text) : lines ('\n' :: t) = [] :: lines t := rfl

theorem lines_cons {c : Char} (hc : c ≠ '\n') (t : Text) : lines (c :: t) = push c (lines t) := if_neg hc

theorem lines_cons_ne_nil (c : Char) (t : Text) : lines (c :: t) ≠ [] := by
  rw [lines]
  split
  · simp
  · cases lines t <;> simp [push]

theorem push_append {ls : List Text} (h : ls ≠ []) (c : Char) (ms : List Text) :
    push c (ls ++ ms) = push c ls ++ ms := by
  cases ls with
  | nil => exact absurd rfl h
  | cons l ls => rfl

theorem closed_nil : Closed [] := by simp [Closed]

theorem closed_append_newline (t : Text) : Closed (t ++ ['\n']) := by simp [Closed]

theorem Closed.append {t u : Text} (ht : Closed t) (hu : Closed u) : Closed (t ++ u) := by
  cases u with
  | nil => rwa [List.append_nil]
  | cons c u =>
    unfold Closed at hu ⊢
    rwa [List.getLast?_append_of_ne_nil _ (List.cons_ne_nil c u)]

theorem closed_cons {c d : Char} {t : Text} : Closed (c :: d :: t) ↔ Closed (d :: t) := by
  simp [Closed, List.getLast?_cons_cons]

/-- The lines of a text are those of a closed part and those of the rest. -/
theorem lines_append : ∀ {t : Text} (u : Text), Closed t → lines (t ++ u) = lines t ++ lines u
  | [], _, _ => rfl
  | [c], u, h => by
    have hc : c = '\n' := h c (by simp)
    subst hc
    rfl
  | c :: d :: t, u, h => by
    have ih := lines_append (t := d :: t) u (closed_cons.1 h)
    by_cases hc : c = '\n'
    · subst hc
      rw [List.cons_append, lines_newline, ih, lines_newline, List.cons_append]
    · rw [List.cons_append, lines_cons hc, ih, lines_cons hc, push_append (lines_cons_ne_nil d t)]

/-- A line, written out with its newline. -/
theorem lines_line : ∀ {l : Text}, '\n' ∉ l → lines (l ++ ['\n']) = [l]
  | [], _ => rfl
  | c :: l, h => by
    simp only [List.mem_cons, not_or] at h
    rw [List.cons_append, lines_cons (Ne.symm h.1), lines_line h.2]
    rfl

theorem lines_unlines : ∀ {ls : List Text}, (∀ l ∈ ls, '\n' ∉ l) → lines (unlines ls) = ls
  | [], _ => rfl
  | l :: ls, h => by
    have ih := lines_unlines fun m hm => h m (List.mem_cons_of_mem _ hm)
    rw [unlines, List.map_cons, List.flatten_cons, lines_append _ (closed_append_newline l),
      lines_line (h l List.mem_cons_self)]
    exact congrArg (l :: ·) ih

theorem lines_single : ∀ {l : Text}, '\n' ∉ l → l ≠ [] → lines l = [l]
  | [c], h, _ => by
    simp only [List.mem_singleton] at h
    simp [lines, push, Ne.symm h]
  | c :: d :: l, h, _ => by
    simp only [List.mem_cons, not_or] at h
    rw [lines_cons (Ne.symm h.1), lines_single (l := d :: l) (by simp [h.2]) (by simp)]
    rfl

/-- The newline after an open text ends its last line, after a closed one it is an empty line. -/
theorem lines_append_newline : ∀ (t : Text),
    lines (t ++ ['\n']) = if Closed t then lines t ++ [[]] else lines t
  | [] => by simp [closed_nil]
  | [c] => by
    by_cases hc : c = '\n'
    · subst hc
      rfl
    · have hopen : ¬ Closed [c] := fun h => hc (h c (by simp))
      rw [if_neg hopen, List.cons_append, lines_cons hc, lines_cons hc]
      rfl
  | c :: d :: t => by
    have ih := lines_append_newline (d :: t)
    by_cases hc : c = '\n'
    · subst hc
      rw [List.cons_append, lines_newline, ih, lines_newline]
      simp only [closed_cons]
      split <;> rfl
    · rw [List.cons_append, lines_cons hc, ih, lines_cons hc]
      simp only [closed_cons]
      split
      · exact push_append (lines_cons_ne_nil d t) c _
      · rfl

/-- The lines of a text written out give it back, with a newline at its end. -/
theorem unlines_lines : ∀ t : Text, unlines (lines t) = if Closed t then t else t ++ ['\n']
  | [] => by simp [unlines, closed_nil]
  | [c] => by
    by_cases hc : c = '\n'
    · subst hc
      simp [unlines, lines, Closed]
    · simp [unlines, lines, push, Closed, hc]
  | c :: d :: t => by
    have ih := unlines_lines (d :: t)
    simp only [closed_cons]
    by_cases hc : c = '\n'
    · subst hc
      rw [lines_newline, unlines, List.map_cons, List.flatten_cons, ← unlines, ih]
      split <;> rfl
    · obtain ⟨l, ls, hl⟩ := List.exists_cons_of_ne_nil (lines_cons_ne_nil d t)
      rw [hl, unlines] at ih
      rw [lines_cons hc, hl, push, unlines, List.map_cons, List.flatten_cons, List.cons_append, List.cons_append]
      rw [List.map_cons, List.flatten_cons] at ih
      rw [ih]
      split <;> rfl

/-- An open text is a closed part and a last line. -/
theorem exists_last_line : ∀ {t : Text}, ¬ Closed t → ∃ u l, t = u ++ l ∧ Closed u ∧ '\n' ∉ l ∧ l ≠ []
  | [], h => absurd closed_nil h
  | [c], h => by
    refine ⟨[], [c], rfl, closed_nil, fun hc => h fun d hd => ?_, by simp⟩
    simp only [List.mem_singleton] at hc
    simp only [List.getLast?_singleton, Option.mem_def, Option.some.injEq] at hd
    rw [← hd, hc]
  | c :: d :: t, h => by
    obtain ⟨u, l, htu, hu, hl, hne⟩ := exists_last_line (t := d :: t) fun h' => h (closed_cons.2 h')
    by_cases hc : c = '\n'
    · refine ⟨c :: u, l, by rw [htu]; rfl, ?_, hl, hne⟩
      cases u with
      | nil => simp [Closed, hc]
      | cons e u => exact closed_cons.2 hu
    cases u with
    | nil =>
      refine ⟨[], c :: l, by rw [htu]; rfl, closed_nil, ?_, by simp⟩
      simp only [List.mem_cons, not_or]
      exact ⟨Ne.symm hc, hl⟩
    | cons e u => exact ⟨c :: e :: u, l, by rw [htu]; rfl, closed_cons.2 hu, hl, hne⟩

/-- A line holds no newline. -/
theorem noNewline_of_mem_lines : ∀ {t l : Text}, l ∈ lines t → '\n' ∉ l
  | c :: t, l, h => by
    by_cases hc : c = '\n'
    · subst hc
      rcases List.mem_cons.1 h with rfl | h
      · exact List.not_mem_nil
      · exact noNewline_of_mem_lines h
    rw [lines_cons hc] at h
    have hnl : ∀ {m : Text}, '\n' ∉ m → '\n' ∉ c :: m := fun hm => by simp [Ne.symm hc, hm]
    cases hl : lines t with
    | nil =>
      rw [hl, push, List.mem_singleton] at h
      rw [h]
      exact hnl List.not_mem_nil
    | cons m ms =>
      rw [hl, push] at h
      rcases List.mem_cons.1 h with rfl | h
      · exact hnl (noNewline_of_mem_lines (by rw [hl]; exact List.mem_cons_self))
      · exact noNewline_of_mem_lines (by rw [hl]; exact List.mem_cons_of_mem _ h)

theorem begins_with_head : ∀ {t l : Text} {ls : List Text}, lines t = l :: ls → l <+: t
  | c :: t, l, ls, h => by
    by_cases hc : c = '\n'
    · subst hc
      rw [lines_newline] at h
      cases h
      exact List.nil_prefix
    · rw [lines_cons hc] at h
      cases hl : lines t with
      | nil =>
        rw [hl] at h
        cases h
        exact ⟨t, rfl⟩
      | cons m ms =>
        rw [hl] at h
        cases h
        exact List.cons_prefix_cons.2 ⟨rfl, begins_with_head hl⟩

/-- A line is part of the text. -/
theorem infix_of_mem_lines : ∀ {t l : Text}, l ∈ lines t → l <:+: t
  | c :: t, l, h => by
    by_cases hc : c = '\n'
    · subst hc
      rcases List.mem_cons.1 h with rfl | h
      · exact List.nil_infix
      · exact List.infix_cons (infix_of_mem_lines h)
    · cases hl : lines (c :: t) with
      | nil => simp [hl] at h
      | cons m ms =>
        rw [hl] at h
        rcases List.mem_cons.1 h with rfl | hms
        · exact (begins_with_head hl).isInfix
        · refine List.infix_cons (infix_of_mem_lines ?_)
          rw [lines_cons hc] at hl
          cases hlt : lines t with
          | nil =>
            rw [hlt] at hl
            cases hl
            exact absurd hms List.not_mem_nil
          | cons k ks =>
            rw [hlt] at hl
            cases hl
            exact List.mem_cons_of_mem _ hms

/-! ## Where lines begin -/

/-- What comes before the first newline. -/
def firstLine (t : Text) : Text := t.takeWhile (· != '\n')

theorem firstLine_noNewline (t : Text) : '\n' ∉ firstLine t := fun h => by
  have := List.mem_takeWhile_imp h
  simp at this

theorem firstLine_inline {l : Text} (hl : '\n' ∉ l) : firstLine l = l := by
  exact List.takeWhile_eq_self_iff.2 fun c hc => bne_iff_ne.2 (ne_of_mem_of_not_mem hc hl)

theorem firstLine_append {l : Text} (hl : '\n' ∉ l) (t : Text) : firstLine (l ++ '\n' :: t) = l := by
  rw [firstLine, List.takeWhile_append_of_pos fun c hc => bne_iff_ne.2 (ne_of_mem_of_not_mem hc hl)]
  simp

theorem lines_break {l : Text} (hl : '\n' ∉ l) (t : Text) : lines (l ++ '\n' :: t) = l :: lines t := by
  have h := lines_append t (closed_append_newline l)
  rwa [lines_line hl, List.append_assoc] at h

theorem lines_firstLine {t : Text} (ht : t ≠ []) : ∃ ls, lines t = firstLine t :: ls := by
  by_cases hn : '\n' ∈ t
  · obtain ⟨l, u, rfl, hl⟩ := List.eq_append_cons_of_mem hn
    exact ⟨lines u, by rw [firstLine_append hl, lines_break hl]⟩
  · exact ⟨[], by rw [firstLine_inline hn, lines_single hn ht]⟩

/-- The lines of a text are what stands behind its closed parts. -/
theorem mem_lines_iff_place {l : Text} : ∀ {t : Text},
    l ∈ lines t ↔ ∃ u w, t = u ++ w ∧ Closed u ∧ w ≠ [] ∧ l = firstLine w := by
  intro t
  constructor
  · induction hn : t.length using Nat.strong_induction_on generalizing t with
    | _ n ih =>
      intro hl
      by_cases hnl : '\n' ∈ t
      · obtain ⟨m, u, rfl, hm⟩ := List.eq_append_cons_of_mem hnl
        rw [lines_break hm] at hl
        rcases List.mem_cons.1 hl with rfl | hl
        · exact ⟨[], _, rfl, closed_nil, by simp, (firstLine_append hm u).symm⟩
        · obtain ⟨v, w, rfl, hv, hw, hlw⟩ := ih u.length (by simp [← hn]; omega) rfl hl
          refine ⟨m ++ ['\n'] ++ v, w, by simp, (closed_append_newline m).append hv, hw, hlw⟩
      · by_cases ht : t = []
        · simp [ht] at hl
        · rw [lines_single hnl ht, List.mem_singleton] at hl
          exact ⟨[], t, rfl, closed_nil, ht, by rw [hl, firstLine_inline hnl]⟩
  · rintro ⟨u, w, rfl, hu, hw, rfl⟩
    obtain ⟨ls, hls⟩ := lines_firstLine hw
    rw [lines_append w hu, hls]
    exact List.mem_append_right _ List.mem_cons_self

/-! ## Splitting at the first character of another kind -/

/-- A text splits in one way only into characters that satisfy `p` and a rest that begins with one that does not. -/
theorem split_unique {p : Char → Bool} : ∀ {a b x y : Text}, a ++ x = b ++ y → (∀ c ∈ a, p c = true) →
    (∀ c ∈ b, p c = true) → (∀ c ∈ x.head?, p c = false) → (∀ c ∈ y.head?, p c = false) → a = b ∧ x = y
  | [], [], _, _, h, _, _, _, _ => ⟨rfl, h⟩
  | [], d :: b, x, y, h, _, hb, hx, _ => by
    rw [List.nil_append] at h
    have hd : p d = false := hx d (by rw [h]; rfl)
    rw [hb d List.mem_cons_self] at hd
    cases hd
  | c :: a, [], x, y, h, ha, _, _, hy => by
    rw [List.nil_append] at h
    have hc : p c = false := hy c (by rw [← h]; rfl)
    rw [ha c List.mem_cons_self] at hc
    cases hc
  | c :: a, d :: b, x, y, h, ha, hb, hx, hy => by
    simp only [List.cons_append, List.cons.injEq] at h
    obtain ⟨rfl, h⟩ := h
    obtain ⟨rfl, rfl⟩ := split_unique h (fun e he => ha e (List.mem_cons_of_mem _ he))
      (fun e he => hb e (List.mem_cons_of_mem _ he)) hx hy
    exact ⟨rfl, rfl⟩

/-! ## Literals

Deciding something about the text of a string literal decodes the string; what follows goes back to the characters it is
written from.
-/

theorem not_mem_lit {c : Char} {l : Text} (h : c ∉ l) : c ∉ (String.ofList l).toList := by rwa [String.toList_ofList]

theorem head_lit {c : Char} {l : Text} (x : Text) : ((String.ofList (c :: l)).toList ++ x).head? = some c := by
  rw [String.toList_ofList]
  rfl

/-- A list of string literals, as the texts they are written from. -/
theorem texts_nil : ([] : List String).map String.toList = [] := rfl

theorem texts_cons {l : Text} {ss : List String} {ls : List Text} (h : ss.map String.toList = ls) :
    (String.ofList l :: ss).map String.toList = l :: ls := by
  rw [List.map_cons, String.toList_ofList, h]

/-- What holds of the texts holds of the literals; deciding it there decodes no string. -/
theorem of_texts {P : List Text → Prop} {ss : List String} {ls : List Text} (h : ss.map String.toList = ls)
    (hP : P ls) : P (ss.map String.toList) := h ▸ hP

theorem of_texts₃ {P : List Text → List Text → List Text → Prop} {ss ss' ss'' : List String}
    {ls ls' ls'' : List Text} (h : ss.map String.toList = ls) (h' : ss'.map String.toList = ls')
    (h'' : ss''.map String.toList = ls'') (hP : P ls ls' ls'') :
    P (ss.map String.toList) (ss'.map String.toList) (ss''.map String.toList) := h ▸ h' ▸ h'' ▸ hP

/-! ## Searching the lines -/

/-- Some line satisfies `p`. -/
def anyLine (p : Text → Bool) (t : Text) : Bool := (lines t).any p

/-- What is appended after a newline adds its own lines; the newline at most adds an empty one. -/
theorem anyLine_append {p : Text → Bool} (hp : p [] = false) (t u : Text) :
    anyLine p (t ++ '\n' :: u) = (anyLine p t || anyLine p u) := by
  unfold anyLine
  rw [show t ++ '\n' :: u = (t ++ ['\n']) ++ u by simp, lines_append u (closed_append_newline t),
    lines_append_newline, List.any_append]
  split <;> simp [hp]

theorem anyLine_line {p : Text → Bool} {l : Text} (hl : '\n' ∉ l) : anyLine p (l ++ ['\n']) = p l := by
  simp [anyLine, lines_line hl]

theorem anyLine_unlines {p : Text → Bool} {ls : List Text} (h : ∀ l ∈ ls, '\n' ∉ l) :
    anyLine p (unlines ls) = ls.any p := by
  rw [anyLine, lines_unlines h]

theorem anyLine_append_line {p : Text → Bool} (hp : p [] = false) (x : Text) {l : Text} (hl : '\n' ∉ l) :
    anyLine p (x ++ '\n' :: (l ++ ['\n'])) = (anyLine p x || p l) := by
  rw [anyLine_append hp, anyLine_line hl]

theorem anyLine_append_lines {p : Text → Bool} (hp : p [] = false) (x : Text) {ls : List Text}
    (hls : ∀ l ∈ ls, '\n' ∉ l) : anyLine p (x ++ '\n' :: unlines ls) = (anyLine p x || ls.any p) := by
  rw [anyLine_append hp, anyLine_unlines hls]

/-- A line that is not empty is there when some line equals it. -/
theorem mem_lines_iff (l t : Text) : l ∈ lines t ↔ anyLine (· == l) t = true := by
  simp [anyLine]

end Lines
