import NfsPlayground.Lib.Lines

/-!
# Lines with their newlines

What a program that reads a file line by line gets: each line with the newline that ends it, and a last line without
one as it is. `Cut` says which lists of texts a text can be read as; writing them out and reading them again gives the
list back (`pieces_of_cut`).
-/

namespace Lines

/-- The lines of a text, each with the newline that ends it. -/
def pieces : Text → List Text
  | [] => []
  | c :: t => if c = '\n' then ['\n'] :: pieces t else push c (pieces t)

/-- A line without the newline that ends it. -/
def chomp (l : Text) : Text := if l.getLast? = some '\n' then l.dropLast else l

/-! ## Pieces -/

theorem pieces_cons {c : Char} (hc : c ≠ '\n') (t : Text) : pieces (c :: t) = push c (pieces t) := if_neg hc

theorem pieces_ne_nil (c : Char) (t : Text) : pieces (c :: t) ≠ [] := by
  rw [pieces]
  split
  · simp
  · cases pieces t <;> simp [push]

theorem flatten_push (c : Char) (ls : List Text) : (push c ls).flatten = c :: ls.flatten := by
  cases ls <;> rfl

@[simp] theorem flatten_pieces : ∀ t : Text, (pieces t).flatten = t
  | [] => rfl
  | c :: t => by
    by_cases hc : c = '\n'
    · subst hc
      exact congrArg ('\n' :: ·) (flatten_pieces t)
    · rw [pieces_cons hc, flatten_push, flatten_pieces t]

theorem pieces_append : ∀ {t : Text} (u : Text), Closed t → pieces (t ++ u) = pieces t ++ pieces u
  | [], _, _ => rfl
  | [c], u, h => by
    have hc : c = '\n' := h c (by simp)
    subst hc
    rfl
  | c :: d :: t, u, h => by
    have ih := pieces_append (t := d :: t) u (closed_cons.1 h)
    by_cases hc : c = '\n'
    · subst hc
      exact congrArg (['\n'] :: ·) ih
    · rw [List.cons_append, pieces_cons hc, ih, pieces_cons hc, push_append (pieces_ne_nil d t)]

theorem pieces_line : ∀ {l : Text}, '\n' ∉ l → pieces (l ++ ['\n']) = [l ++ ['\n']]
  | [], _ => rfl
  | c :: l, h => by
    simp only [List.mem_cons, not_or] at h
    rw [List.cons_append, pieces_cons (Ne.symm h.1), pieces_line h.2]
    rfl

theorem pieces_break {l : Text} (hl : '\n' ∉ l) (t : Text) : pieces (l ++ '\n' :: t) = (l ++ ['\n']) :: pieces t := by
  have h := pieces_append t (closed_append_newline l)
  rwa [pieces_line hl, List.append_assoc] at h

@[simp] theorem chomp_line (l : Text) : chomp (l ++ ['\n']) = l := by simp [chomp]

theorem chomp_push {c : Char} (hc : c ≠ '\n') (l : Text) : chomp (c :: l) = c :: chomp l := by
  cases l with
  | nil => simp [chomp, hc]
  | cons d l =>
    unfold chomp
    rw [List.getLast?_cons_cons]
    split <;> rfl

/-- The pieces without their newlines are the lines. -/
theorem map_chomp_pieces : ∀ t : Text, (pieces t).map chomp = lines t
  | [] => rfl
  | c :: t => by
    by_cases hc : c = '\n'
    · subst hc
      exact congrArg ([] :: ·) (map_chomp_pieces t)
    · rw [pieces_cons hc, lines_cons hc, ← map_chomp_pieces t]
      cases pieces t with
      | nil => simp [push, chomp, hc]
      | cons l ls => simp [push, chomp_push hc]

theorem closed_of_mem_pieces {t p : Text} (ht : Closed t) (hp : p ∈ pieces t) : p ≠ [] ∧ Closed p := by
  induction hn : t.length using Nat.strong_induction_on generalizing t with
  | _ n ih =>
    by_cases hnl : '\n' ∈ t
    · obtain ⟨l, u, rfl, hl⟩ := List.eq_append_cons_of_mem hnl
      rw [pieces_break hl] at hp
      rcases List.mem_cons.1 hp with rfl | hp
      · exact ⟨by simp, closed_append_newline l⟩
      · refine ih u.length (by simp [← hn]; omega) ?_ hp rfl
        cases u with
        | nil => exact closed_nil
        | cons c u =>
          unfold Closed at ht ⊢
          rwa [show l ++ '\n' :: c :: u = (l ++ ['\n']) ++ c :: u by simp,
            List.getLast?_append_of_ne_nil _ (List.cons_ne_nil c u)] at ht
    · cases t with
      | nil => simp [pieces] at hp
      | cons c t =>
        exact absurd (List.mem_of_getLast? ((List.getLast?_eq_some_getLast (List.cons_ne_nil c t)).trans
          (congrArg some (ht _ (List.getLast?_eq_some_getLast (List.cons_ne_nil c t)))))) hnl

/-! ## What a text can be read as -/

/-- Lines with their newlines, the last of them perhaps without. -/
inductive Cut : List Text → Prop
  | nil : Cut []
  | last {l : Text} (hl : '\n' ∉ l) (hne : l ≠ []) : Cut [l]
  | line {l : Text} {ls : List Text} (hl : '\n' ∉ l) (h : Cut ls) : Cut ((l ++ ['\n']) :: ls)

theorem pieces_single {l : Text} (hl : '\n' ∉ l) (hne : l ≠ []) : pieces l = [l] := by
  induction l with
  | nil => exact absurd rfl hne
  | cons c l ih =>
    simp only [List.mem_cons, not_or] at hl
    cases l with
    | nil => rw [pieces_cons (Ne.symm hl.1)]; rfl
    | cons d l => rw [pieces_cons (Ne.symm hl.1), ih hl.2 (List.cons_ne_nil d l)]; rfl

theorem pieces_of_cut {ls : List Text} (h : Cut ls) : pieces ls.flatten = ls := by
  induction h with
  | nil => rfl
  | last hl hne => simpa using pieces_single hl hne
  | @line l ls hl _ ih =>
    rw [List.flatten_cons, List.append_assoc, List.singleton_append, pieces_break hl, ih]

theorem cut_pieces (t : Text) : Cut (pieces t) := by
  induction hn : t.length using Nat.strong_induction_on generalizing t with
  | _ n ih =>
    by_cases hnl : '\n' ∈ t
    · obtain ⟨l, u, rfl, hl⟩ := List.eq_append_cons_of_mem hnl
      rw [pieces_break hl]
      exact .line hl (ih u.length (by simp [← hn]; omega) u rfl)
    · by_cases ht : t = []
      · rw [ht]
        exact .nil
      · rw [pieces_single hnl ht]
        exact .last hnl ht

/-- A line that others follow ends in a newline. -/
theorem Cut.head_line {l m : Text} {ls : List Text} (h : Cut (l :: m :: ls)) : ∃ k, l = k ++ ['\n'] ∧ '\n' ∉ k := by
  cases h with
  | line hl _ => exact ⟨_, rfl, hl⟩

theorem Cut.tail {l : Text} {ls : List Text} (h : Cut (l :: ls)) : Cut ls := by
  cases h with
  | last => exact .nil
  | line _ h => exact h

/-- What follows a first line may be replaced, by nothing where nothing followed. -/
theorem Cut.replace_tail {l : Text} {ls ms : List Text} (h : Cut (l :: ls)) (hms : Cut ms) (hnil : ls = [] → ms = []) :
    Cut (l :: ms) := by
  cases h with
  | last hl hne =>
    rw [hnil rfl]
    exact .last hl hne
  | line hl _ => exact .line hl hms

end Lines
