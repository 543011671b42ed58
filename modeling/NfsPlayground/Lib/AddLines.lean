import Mathlib.Data.List.Nodup
import NfsPlayground.Lib.Lines

/-!
# Adding the lines that are missing

`addLines x os` appends those of the lines `os` that the text does not have, as a loop over `grep -qx` and `echo >>`
does. On a closed text the loop can be interrupted anywhere and run again (`addLines_again`). On an open one the first
line that is added runs into the last line of the text, and is added again: `addLines_again_iff` says exactly when the
second run makes up for it, for a loop whose lines are different but for the last, which may come more than once.
-/

namespace Lines

/-- `echo "$o" >> file`, unless `grep -qx "$o" file` finds it. -/
def addLine (x o : Text) : Text := if o ∈ lines x then x else x ++ (o ++ ['\n'])

def addLines (x : Text) (os : List Text) : Text := os.foldl addLine x

theorem addLines_append (x : Text) (os ps : List Text) : addLines x (os ++ ps) = addLines (addLines x os) ps :=
  List.foldl_append

theorem addLine_of_mem {x o : Text} (h : o ∈ lines x) : addLine x o = x := if_pos h

theorem addLine_of_not_mem {x o : Text} (h : o ∉ lines x) : addLine x o = x ++ (o ++ ['\n']) := if_neg h

/-- The text has all the lines already. -/
theorem addLines_of_mem {x : Text} : ∀ {os : List Text}, (∀ o ∈ os, o ∈ lines x) → addLines x os = x
  | [], _ => rfl
  | o :: os, h => by
    rw [List.forall_mem_cons] at h
    show addLines (addLine x o) os = x
    rw [addLine_of_mem h.1, addLines_of_mem h.2]

theorem closed_append {t u : Text} (h : Closed u) (hne : u ≠ []) : Closed (t ++ u) := fun c hc => by
  rw [List.getLast?_append_of_ne_nil _ hne] at hc
  exact h c hc

theorem closed_append_line (x o : Text) : Closed (x ++ (o ++ ['\n'])) :=
  closed_append (closed_append_newline o) (by simp)

theorem closed_addLine {x : Text} (hx : Closed x) (o : Text) : Closed (addLine x o) := by
  unfold addLine
  split
  · exact hx
  · exact closed_append_line x o

theorem closed_addLines {x : Text} (hx : Closed x) : ∀ os : List Text, Closed (addLines x os)
  | [] => hx
  | o :: os => closed_addLines (x := addLine x o) (closed_addLine hx o) os
termination_by os => os.length

/-! ## A closed text -/

theorem mem_lines_addLine {x o : Text} (hx : Closed x) (ho : '\n' ∉ o) (l : Text) :
    l ∈ lines (addLine x o) ↔ l ∈ lines x ∨ l = o := by
  unfold addLine
  split
  · rename_i hmem
    exact ⟨Or.inl, fun h => h.elim id fun heq => heq ▸ hmem⟩
  · rw [lines_append _ hx, lines_line ho, List.mem_append, List.mem_singleton]

/-- What is added to a closed text is there, and nothing is lost. -/
theorem mem_lines_addLines {l : Text} : ∀ {os : List Text} {x : Text}, Closed x → (∀ o ∈ os, '\n' ∉ o) →
    (l ∈ lines (addLines x os) ↔ l ∈ lines x ∨ l ∈ os)
  | [], x, _, _ => by simp [addLines]
  | o :: os, x, hx, ho => by
    rw [List.forall_mem_cons] at ho
    show l ∈ lines (addLines (addLine x o) os) ↔ _
    rw [mem_lines_addLines (closed_addLine hx o) ho.2, mem_lines_addLine hx ho.1, List.mem_cons, or_assoc]

/-- A loop over a closed text that is interrupted and run again ends with what one run gives. -/
theorem addLines_again {x : Text} {os ps : List Text} (hx : Closed x) (ho : ∀ o ∈ os, '\n' ∉ o) :
    addLines (addLines x os) (os ++ ps) = addLines x (os ++ ps) := by
  have hall : ∀ o ∈ os, o ∈ lines (addLines x os) := fun o h => (mem_lines_addLines hx ho).2 (Or.inr h)
  rw [addLines_append, addLines_of_mem hall, addLines_append]

/-! ## An open text -/

/-- The first line that is missing, if any. -/
theorem first_missing (x : Text) : ∀ os : List Text, (∀ o ∈ os, o ∈ lines x) ∨
    ∃ ps o qs, os = ps ++ o :: qs ∧ (∀ p ∈ ps, p ∈ lines x) ∧ o ∉ lines x
  | [] => Or.inl (by simp)
  | o :: os => by
    by_cases h : o ∈ lines x
    · rcases first_missing x os with hall | ⟨ps, p, qs, rfl, hps, hp⟩
      · exact Or.inl (List.forall_mem_cons.2 ⟨h, hall⟩)
      · exact Or.inr ⟨o :: ps, p, qs, rfl, List.forall_mem_cons.2 ⟨h, hps⟩, hp⟩
    · exact Or.inr ⟨[], o, os, rfl, by simp, h⟩

theorem prefix_addLines : ∀ (os : List Text) (x : Text), x <+: addLines x os
  | [], _ => List.prefix_rfl
  | o :: os, x => by
    refine List.IsPrefix.trans ?_ (prefix_addLines os (addLine x o))
    unfold addLine
    split
    · exact List.prefix_rfl
    · exact List.prefix_append _ _

theorem addLines_missing {x : Text} {ps qs : List Text} {o : Text} (hps : ∀ p ∈ ps, p ∈ lines x) (ho : o ∉ lines x) :
    addLines x (ps ++ o :: qs) = addLines (x ++ (o ++ ['\n'])) qs := by
  rw [addLines_append, addLines_of_mem hps]
  show addLines (addLine x o) qs = _
  rw [addLine_of_not_mem ho]

/-- The loop changes nothing exactly when no line is missing. -/
theorem addLines_eq_self {x : Text} {os : List Text} : addLines x os = x ↔ ∀ o ∈ os, o ∈ lines x := by
  refine ⟨fun h => ?_, addLines_of_mem⟩
  rcases first_missing x os with hall | ⟨ps, o, qs, rfl, hps, ho⟩
  · exact hall
  · have hlen := (prefix_addLines qs (x ++ (o ++ ['\n']))).length_le
    rw [← addLines_missing hps ho, h] at hlen
    simp only [List.length_append, List.length_cons] at hlen
    omega

/-- The lines of an open text, and what they are once a line runs into the last. -/
theorem lines_open {x : Text} (hx : ¬ Closed x) : ∃ l, l ≠ [] ∧ lines x = (lines x).dropLast ++ [l] ∧
    ∀ o, '\n' ∉ o → lines (x ++ (o ++ ['\n'])) = (lines x).dropLast ++ [l ++ o] := by
  obtain ⟨u, l, rfl, hu, hl, hne⟩ := exists_last_line hx
  have hlines : lines (u ++ l) = lines u ++ [l] := by rw [lines_append l hu, lines_single hl hne]
  refine ⟨l, hne, by rw [hlines, List.dropLast_concat], fun o ho => ?_⟩
  rw [hlines, List.dropLast_concat, List.append_assoc, ← List.append_assoc l, lines_append _ hu,
    lines_line (by simp [hl, ho])]

section Again

variable {ds : List Text} {o : Text} {n : Nat}

/-- A line of the loop that comes again is the last one. -/
theorem comes_again (hds : ds.Nodup) (ho : o ∉ ds) {ps qs : List Text} {p : Text}
    (h : ds ++ List.replicate n o = ps ++ p :: qs) (hp : p ∈ qs) :
    p = o ∧ 2 ≤ n ∧ ds ⊆ ps ∧ ∀ q ∈ qs, q = o := by
  rcases List.append_eq_append_iff.1 h with ⟨cs, rfl, hrep⟩ | ⟨cs, rfl, hcons⟩
  · have hall : ∀ q ∈ cs ++ p :: qs, q = o := fun q hq => List.eq_of_mem_replicate (hrep ▸ hq)
    have hlen := congrArg List.length hrep
    have hpos := List.length_pos_of_mem hp
    simp only [List.length_replicate, List.length_append, List.length_cons] at hlen
    exact ⟨hall p (by simp), by omega, List.subset_append_left _ _, fun q hq => hall q (by simp [hq])⟩
  · cases cs with
    | nil =>
      have hall : ∀ q ∈ p :: qs, q = o := fun q hq => by
        rw [hcons, List.nil_append] at hq
        exact List.eq_of_mem_replicate hq
      have hlen := congrArg List.length hcons
      have hpos := List.length_pos_of_mem hp
      simp only [List.nil_append, List.length_replicate, List.length_cons] at hlen
      exact ⟨hall p List.mem_cons_self, by omega, by simp, fun q hq => hall q (List.mem_cons_of_mem _ hq)⟩
    | cons c cs =>
      obtain ⟨rfl, rfl⟩ := List.cons.inj hcons
      have hnot := (List.nodup_cons.1 (List.nodup_append.1 hds).2.1).1
      rcases List.mem_append.1 hp with hp | hp
      · exact absurd hp hnot
      · rw [List.eq_of_mem_replicate hp] at ho
        exact absurd (by simp) ho

/-- Before the last line comes the first time, the others have come. -/
theorem before_repeated (ho : o ∉ ds) {ps qs : List Text} (h : ds ++ List.replicate n o = ps ++ o :: qs)
    (hp : o ∉ ps) : List.replicate n o = o :: qs := by
  rcases List.append_eq_append_iff.1 h with ⟨cs, rfl, hrep⟩ | ⟨cs, rfl, hcons⟩
  · cases cs with
    | nil => exact hrep
    | cons c cs =>
      have hc : c = o := List.eq_of_mem_replicate (by rw [hrep]; exact List.mem_cons_self)
      exact absurd (by simp [hc]) hp
  · cases cs with
    | nil => exact hcons.symm
    | cons c cs =>
      obtain ⟨rfl, -⟩ := List.cons.inj hcons
      exact absurd (by simp) ho

/-- A line that is added more than once is added once. -/
theorem addLines_replicate {x : Text} (hx : Closed x) (ho : '\n' ∉ o) : ∀ k,
    addLines x (List.replicate (k + 1) o) = addLine x o
  | k => by
    show addLines (addLine x o) (List.replicate k o) = _
    refine addLines_of_mem fun p hp => ?_
    rw [List.eq_of_mem_replicate hp]
    exact (mem_lines_addLine hx ho o).2 (Or.inr rfl)

/-- When a loop that was interrupted after the lines `os` and is run again ends with what one run gives: if nothing had
been added, if the text was closed, or if all that was missing was a line that the loop adds twice. -/
theorem addLines_again_iff (hds : ds.Nodup) (ho : o ∉ ds) (hne : o ≠ []) (hnl : ∀ d ∈ ds, '\n' ∉ d)
    (honl : '\n' ∉ o) {x : Text} {os ps : List Text} (h : ds ++ List.replicate n o = os ++ ps) :
    addLines (addLines x os) (ds ++ List.replicate n o) = addLines x (ds ++ List.replicate n o) ↔
      addLines x os = x ∨ Closed x ∨ (2 ≤ n ∧ ∀ d ∈ ds, d ∈ (lines x).dropLast) := by
  have hallnl : ∀ p ∈ ds ++ List.replicate n o, '\n' ∉ p := by
    intro p hp
    rcases List.mem_append.1 hp with hp | hp
    · exact hnl p hp
    · rwa [List.eq_of_mem_replicate hp]
  by_cases hx : Closed x
  · refine iff_of_true ?_ (Or.inr (Or.inl hx))
    rw [h]
    exact addLines_again hx fun p hp => hallnl p (by rw [h]; simp [hp])
  rcases first_missing x os with hall | ⟨qs, p, rs, rfl, hqs, hp⟩
  · exact iff_of_true (by rw [addLines_of_mem hall]) (Or.inl (addLines_of_mem hall))
  obtain ⟨l, hl, hlines, hrun⟩ := lines_open hx
  rw [List.append_assoc, List.cons_append] at h
  have hpnl : '\n' ∉ p := hallnl p (by rw [h]; simp)
  have hrsnl : ∀ q ∈ rs ++ ps, '\n' ∉ q := fun q hq => hallnl q (by
    rw [h]
    exact List.mem_append_right _ (List.mem_cons_of_mem _ hq))
  have hclosed := closed_append_line x p
  have hself : p ≠ l ++ p := fun heq => hl (by simpa using congrArg List.length heq)
  have hpdrop : p ∉ (lines x).dropLast := fun hmem => hp (List.mem_of_mem_dropLast hmem)
  rw [addLines_missing hqs hp]
  have hresult : addLines x (ds ++ List.replicate n o) = addLines (x ++ (p ++ ['\n'])) (rs ++ ps) := by
    rw [h, addLines_missing hqs hp]
  rw [hresult]
  have hchanged : addLines (x ++ (p ++ ['\n'])) rs ≠ x := fun heq => hx (heq ▸ closed_addLines hclosed rs)
  simp only [hchanged, hx, false_or]
  constructor
  · intro heq
    -- the second run has all the lines, so the first has them
    have hmem : ∀ q ∈ ds ++ List.replicate n o, q ∈ (lines x).dropLast ∨ q = l ++ p ∨ q ∈ rs ++ ps := by
      intro q hq
      have := (mem_lines_addLines (closed_addLines hclosed rs) hallnl).2 (Or.inr hq)
      rw [heq, mem_lines_addLines hclosed hrsnl, hrun p hpnl, List.mem_append, List.mem_singleton] at this
      tauto
    have hagain : p ∈ rs ++ ps := by
      rcases hmem p (by rw [h]; simp) with h' | h' | h'
      · exact absurd h' hpdrop
      · exact absurd h' hself
      · exact h'
    obtain ⟨rfl, hn, hsub, hrest⟩ := comes_again hds ho h hagain
    refine ⟨hn, fun d hd => ?_⟩
    rcases hmem d (List.mem_append_left _ hd) with h' | rfl | h'
    · exact h'
    · have hdx := hqs _ (hsub hd)
      rw [hlines, List.mem_append, List.mem_singleton, List.append_right_eq_self] at hdx
      exact hdx.resolve_right hne
    · rw [hrest d h'] at hd
      exact absurd hd ho
  · rintro ⟨hn, hdrop⟩
    have hpo : p = o := by
      have hmem : p ∈ ds ++ List.replicate n o := by rw [h]; simp
      rcases List.mem_append.1 hmem with hd | hrep
      · exact absurd (hdrop p hd) hpdrop
      · exact List.eq_of_mem_replicate hrep
    subst hpo
    have hrep := before_repeated ho h fun hmem => hp (hqs p hmem)
    have hrest : rs ++ ps = List.replicate (n - 2 + 1) p := by
      rw [show n - 2 + 1 = n - 1 by omega]
      simpa using congrArg List.tail hrep.symm
    have hdmem : ∀ d ∈ ds, d ∈ lines (addLines (x ++ (p ++ ['\n'])) rs) := fun d hd =>
      (mem_lines_addLines hclosed fun q hq => hrsnl q (by simp [hq])).2
        (Or.inl (by rw [hrun p hpnl]; simp [hdrop d hd]))
    rw [addLines_append, addLines_of_mem hdmem, show n = n - 1 + 1 by omega,
      addLines_replicate (closed_addLines hclosed rs) honl, hrest, addLines_replicate hclosed honl]
    -- the second time is on the first run or on the second
    cases rs with
    | nil => rfl
    | cons q rs =>
      have hrs : q :: rs = List.replicate (rs.length + 1) p := by
        refine List.eq_replicate_iff.2 ⟨rfl, fun r hr => List.eq_of_mem_replicate (n := n - 2 + 1) ?_⟩
        rw [← hrest]
        exact List.mem_append_left _ hr
      rw [hrs, addLines_replicate hclosed honl]
      exact addLine_of_mem ((mem_lines_addLine hclosed honl p).2 (Or.inr rfl))

end Again

end Lines
