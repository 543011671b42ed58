import NfsPlayground.Lib.PyText

/-!
# The `_require` lines of a case

`scripts/kunit/xfstests-port-status.py` finds the `_require` lines of a test source with one multi-line regular
expression. Its leading `\s*` runs over newlines, so that a match may begin lines before the one it ends in; stripped,
the matches are the stripped `_require` lines all the same (`map_strip_finditer`).
-/

namespace NfsPlayground.Ports

open Lines PyText

/-- `t.strip()` -/
def strip (t : Text) : Text := (t.dropWhile isPySpace).rdropWhile isPySpace

/-- `[a-z0-9_]` -/
def isNameChar (c : Char) : Bool := c.isLower || c.isDigit || c == '_'

/-- `_require_[a-z0-9_]+|_fixed_by_[a-z0-9_]+` matches at the start of the text. -/
def beginsRequire (t : Text) : Bool :=
  ["_require_".toList, "_fixed_by_".toList].any fun p => p.isPrefixOf t && (t.drop p.length).head?.any isNameChar

/-- What `req_re` matches at the start of a line: its `\s*` takes all the space there is, over newlines too. -/
def reqMatch (t : Text) : Option Text :=
  if beginsRequire (t.dropWhile isPySpace) then
    some (t.takeWhile isPySpace ++ firstLine (t.dropWhile isPySpace))
  else none

/--
`m.group(0) for m in req_re.finditer(src)`. The flag says that a line begins, the number how many characters the last
match still covers.
-/
def finditer : Bool → Nat → Text → List Text
  | _, _, [] => []
  | _, n + 1, c :: t => finditer (c == '\n') n t
  | begins, 0, c :: t =>
    match if begins then reqMatch (c :: t) else none with
    | some m => m :: finditer (c == '\n') (m.length - 1) t
    | none => finditer (c == '\n') 0 t

/-- `" ".join(m.group(0).strip() for m in req_re.finditer(src))` -/
def requires (src : Text) : Text := [' '].intercalate ((finditer true 0 src).map strip)

/-- The line is a `_require` or `_fixed_by` line. -/
def isRequireLine (l : Text) : Bool := beginsRequire (l.dropWhile isPySpace)

/-- The `_require` and `_fixed_by` lines of a source. -/
def requireLines (src : Text) : List Text := (lines src).filter isRequireLine

/-! ## Where a match begins -/

theorem beginsRequire_iff {t : Text} : beginsRequire t = true ↔
    ∃ p ∈ ["_require_".toList, "_fixed_by_".toList], ∃ c u, t = p ++ c :: u ∧ isNameChar c = true := by
  simp only [beginsRequire, List.any_eq_true, Bool.and_eq_true, List.isPrefixOf_iff_prefix]
  constructor
  · rintro ⟨p, hp, ⟨u, rfl⟩, hc⟩
    rw [List.drop_left] at hc
    cases u with
    | nil => cases hc
    | cons c u => exact ⟨p, hp, c, u, rfl, hc⟩
  · rintro ⟨p, hp, c, u, rfl, hc⟩
    exact ⟨p, hp, ⟨c :: u, rfl⟩, by rw [List.drop_left]; exact hc⟩

theorem head_of_beginsRequire {t : Text} (h : beginsRequire t = true) : t.head? = some '_' := by
  obtain ⟨p, hp, c, u, rfl, -⟩ := beginsRequire_iff.1 h
  simp only [List.mem_cons, List.not_mem_nil, or_false] at hp
  rcases hp with rfl | rfl
  · rfl
  · rfl

theorem beginsRequire_append {t : Text} (h : beginsRequire t = true) (u : Text) : beginsRequire (t ++ u) = true := by
  obtain ⟨p, hp, c, v, rfl, hc⟩ := beginsRequire_iff.1 h
  exact beginsRequire_iff.2 ⟨p, hp, c, v ++ u, by simp, hc⟩

/-- Only the first line decides. -/
theorem beginsRequire_firstLine {t : Text} (h : beginsRequire t = true) : beginsRequire (firstLine t) = true := by
  obtain ⟨p, hp, c, u, rfl, hc⟩ := beginsRequire_iff.1 h
  have hline : ∀ b ∈ p ++ [c], (b != '\n') = true := by
    intro b hb
    rcases List.mem_append.1 hb with hb | hb
    · have hall : ∀ q ∈ ["_require_".toList, "_fixed_by_".toList], q.all (· != '\n') = true := by decide
      exact List.all_eq_true.1 (hall p hp) b hb
    · rw [List.mem_singleton.1 hb, bne_iff_ne]
      rintro rfl
      cases hc
  have hsplit : firstLine (p ++ c :: u) = p ++ c :: firstLine u := by
    rw [← List.singleton_append, ← List.append_assoc, firstLine, List.takeWhile_append_of_pos hline, List.append_assoc]
    rfl
  exact beginsRequire_iff.2 ⟨p, hp, c, firstLine u, hsplit, hc⟩

theorem dropWhile_of_beginsRequire {t : Text} (h : beginsRequire t = true) : t.dropWhile isPySpace = t := by
  obtain ⟨u, rfl⟩ := List.head?_eq_some_iff.1 (head_of_beginsRequire h)
  rw [List.dropWhile_cons_of_neg (by decide)]

/-! ## Space before a line -/

theorem strip_space {a : Text} (ha : ∀ c ∈ a, isPySpace c = true) (t : Text) : strip (a ++ t) = strip t := by
  rw [strip, List.dropWhile_append_of_pos ha, strip]

theorem isRequireLine_space {a : Text} (ha : ∀ c ∈ a, isPySpace c = true) (t : Text) :
    isRequireLine (a ++ t) = isRequireLine t := by
  rw [isRequireLine, List.dropWhile_append_of_pos ha, isRequireLine]

theorem requireLines_break {l : Text} (hl : '\n' ∉ l) (t : Text) :
    requireLines (l ++ '\n' :: t) = [l].filter isRequireLine ++ requireLines t := by
  rw [requireLines, lines_break hl, ← List.singleton_append, List.filter_append, requireLines]

theorem requireLines_single {l : Text} (hl : '\n' ∉ l) : requireLines l = [l].filter isRequireLine := by
  cases l with
  | nil => rfl
  | cons c l => rw [requireLines, lines_single hl (List.cons_ne_nil c l)]

/-- A space changes no stripped line. -/
theorem strip_requireLines_space {c : Char} (hc : isPySpace c = true) (t : Text) :
    (requireLines (c :: t)).map strip = (requireLines t).map strip := by
  have hspace : ∀ b ∈ [c], isPySpace b = true := fun b hb => by rwa [List.mem_singleton.1 hb]
  have hline : ∀ l : Text, ([c :: l].filter isRequireLine).map strip = ([l].filter isRequireLine).map strip := by
    intro l
    have hreq := isRequireLine_space hspace l
    have hstrip := strip_space hspace l
    rw [List.singleton_append] at hreq hstrip
    by_cases h : isRequireLine l = true
    · simp [hreq, hstrip, h]
    · simp [hreq, h]
  by_cases hcn : c = '\n'
  · subst hcn
    exact congrArg _ (requireLines_break (l := []) List.not_mem_nil t)
  · by_cases hn : '\n' ∈ t
    · obtain ⟨l, u, rfl, hl⟩ := List.eq_append_cons_of_mem hn
      have hcl : '\n' ∉ c :: l := by simp [Ne.symm hcn, hl]
      rw [← List.cons_append, requireLines_break hcl, requireLines_break hl, List.map_append, List.map_append, hline]
    · have hct : '\n' ∉ c :: t := by simp [Ne.symm hcn, hn]
      rw [requireLines_single hct, requireLines_single hn, hline]

theorem strip_requireLines_spaces {a : Text} (ha : ∀ c ∈ a, isPySpace c = true) (t : Text) :
    (requireLines (a ++ t)).map strip = (requireLines t).map strip := by
  induction a with
  | nil => rfl
  | cons c a ih =>
    rw [List.cons_append, strip_requireLines_space (ha c (by simp)), ih fun b hb => ha b (List.mem_cons_of_mem _ hb)]

/-! ## The scan -/

/-- The characters a match covers are passed over. -/
theorem finditer_covered {a : Text} (ha : '\n' ∉ a.getLast?) (t : Text) {begins : Bool} (hb : a = [] → begins = false) :
    finditer begins a.length (a ++ t) = finditer false 0 t := by
  induction a generalizing begins with
  | nil => rw [hb rfl, List.length_nil, List.nil_append]
  | cons c a ih =>
    rw [List.length_cons, List.cons_append, finditer]
    refine ih ?_ ?_
    · cases a with
      | nil => simp
      | cons d a => rwa [List.getLast?_cons_cons] at ha
    · rintro rfl
      simpa using ha

/-- Inside a line nothing matches before the next line begins. -/
theorem finditer_inside {l : Text} (hl : '\n' ∉ l) (t : Text) :
    finditer false 0 (l ++ '\n' :: t) = finditer true 0 t := by
  induction l with
  | nil => rfl
  | cons c l ih =>
    simp only [List.mem_cons, not_or] at hl
    have hc : (c == '\n') = false := by simpa using Ne.symm hl.1
    rw [List.cons_append, finditer, if_neg Bool.false_ne_true, hc]
    exact ih hl.2

theorem finditer_last {l : Text} (hl : '\n' ∉ l) : finditer false 0 l = [] := by
  induction l with
  | nil => rfl
  | cons c l ih =>
    simp only [List.mem_cons, not_or] at hl
    have hc : (c == '\n') = false := by simpa using Ne.symm hl.1
    rw [finditer, if_neg Bool.false_ne_true, hc]
    exact ih hl.2

theorem finditer_match {m t : Text} (hm : reqMatch (m ++ t) = some m) (hlast : '\n' ∉ m.getLast?) (hne : m ≠ []) :
    finditer true 0 (m ++ t) = m :: finditer false 0 t := by
  obtain ⟨c, a, rfl⟩ := List.exists_cons_of_ne_nil hne
  rw [List.cons_append] at hm ⊢
  rw [finditer, if_pos rfl, hm]
  refine congrArg _ (finditer_covered ?_ t ?_)
  · cases a with
    | nil => simp
    | cons d a => rwa [List.getLast?_cons_cons] at hlast
  · rintro rfl
    simpa using hlast

theorem finditer_no_match {c : Char} {t : Text} (h : reqMatch (c :: t) = none) :
    finditer true 0 (c :: t) = finditer (c == '\n') 0 t := by rw [finditer, if_pos rfl, h]

theorem isRequireLine_append {l : Text} (h : isRequireLine l = true) (u : Text) : isRequireLine (l ++ u) = true := by
  have hne : (l.dropWhile isPySpace).isEmpty = false := by
    have hhead := head_of_beginsRequire h
    cases hl : l.dropWhile isPySpace with
    | nil =>
      rw [hl] at hhead
      cases hhead
    | cons c t => rfl
  rw [isRequireLine, List.dropWhile_append, hne, if_neg Bool.false_ne_true]
  exact beginsRequire_append h u

section

variable {src : Text} (ih : ∀ u : Text, u.length < src.length →
  (finditer true 0 u).map strip = (requireLines u).map strip)

include ih

/-- A match takes the space before the first `_require` line and that line. -/
theorem map_strip_of_match (h : isRequireLine src = true) :
    (finditer true 0 src).map strip = (requireLines src).map strip := by
  let a := src.takeWhile isPySpace
  let rest := src.dropWhile isPySpace
  have hsrc : src = a ++ rest := List.takeWhile_append_dropWhile.symm
  have ha : ∀ c ∈ a, isPySpace c = true := fun c hc => List.mem_takeWhile_imp hc
  have hfirst : beginsRequire (firstLine rest) = true := beginsRequire_firstLine h
  have hline : [firstLine rest].filter isRequireLine = [firstLine rest] := by
    have hreq : isRequireLine (firstLine rest) = true := by rwa [isRequireLine, dropWhile_of_beginsRequire hfirst]
    rw [List.filter_cons_of_pos hreq, List.filter_nil]
  have hne : firstLine rest ≠ [] := fun hnil => by
    rw [hnil] at hfirst
    cases hfirst
  have hlast : '\n' ∉ (a ++ firstLine rest).getLast? := fun hmem => by
    rw [List.getLast?_append_of_ne_nil _ hne] at hmem
    exact firstLine_noNewline rest (List.mem_of_getLast? hmem)
  have hmatch : reqMatch src = some (a ++ firstLine rest) := if_pos h
  have hrhs : (requireLines src).map strip = (requireLines rest).map strip := by
    rw [hsrc]
    exact strip_requireLines_spaces ha rest
  by_cases hn : '\n' ∈ rest
  · obtain ⟨l, u, hrest, hl⟩ := List.eq_append_cons_of_mem hn
    have hfl : firstLine rest = l := by rw [hrest, firstLine_append hl]
    rw [hfl] at hline hlast hmatch hne
    have hcut : src = (a ++ l) ++ '\n' :: u := by rw [hsrc, hrest, List.append_assoc]
    have hshort : u.length < src.length := by
      rw [hcut]
      simp
      omega
    have hscan : finditer true 0 src = (a ++ l) :: finditer true 0 u := by
      have hscan := finditer_match (hcut ▸ hmatch) hlast (by simp [hne])
      rw [← hcut] at hscan
      exact hscan
    rw [hrhs, hscan, hrest, requireLines_break hl, hline, List.map_cons, List.map_append, strip_space ha, ih u hshort]
    rfl
  · have hfl : firstLine rest = rest := firstLine_inline hn
    rw [hfl] at hline hne
    rw [hfl, ← hsrc] at hlast hmatch
    have hscan : finditer true 0 src = [src] := by
      have hscan := finditer_match (t := []) (by rwa [List.append_nil]) hlast (by rw [hsrc]; simp [hne])
      rwa [List.append_nil] at hscan
    have hstrip : strip src = strip rest := by
      rw [hsrc]
      exact strip_space ha rest
    rw [hrhs, hscan, requireLines_single hn, hline, List.map_singleton, List.map_singleton, hstrip]

/-- Where nothing matches, the first line is none of them. -/
theorem map_strip_of_no_match (h : isRequireLine src = false) :
    (finditer true 0 src).map strip = (requireLines src).map strip := by
  cases src with
  | nil => rfl
  | cons c t =>
    have hmatch : reqMatch (c :: t) = none := if_neg (by rw [← isRequireLine, h]; exact Bool.false_ne_true)
    rw [finditer_no_match hmatch]
    by_cases hc : c = '\n'
    · subst hc
      rw [strip_requireLines_space rfl]
      exact ih t (by simp)
    · have hcb : (c == '\n') = false := by simpa using hc
      rw [hcb]
      by_cases hn : '\n' ∈ t
      · obtain ⟨l, u, rfl, hl⟩ := List.eq_append_cons_of_mem hn
        have hcl : '\n' ∉ c :: l := by simp [Ne.symm hc, hl]
        have hline : isRequireLine (c :: l) = false := by
          rw [Bool.eq_false_iff]
          intro htrue
          have := isRequireLine_append htrue ('\n' :: u)
          rw [List.cons_append, h] at this
          cases this
        rw [finditer_inside hl, ← List.cons_append, requireLines_break hcl, List.filter_cons_of_neg (by simp [hline])]
        refine ih u ?_
        simp
        omega
      · have hct : '\n' ∉ c :: t := by simp [Ne.symm hc, hn]
        rw [finditer_last hn, requireLines_single hct, List.filter_cons_of_neg (by simp [h])]
        rfl

end

/-- Stripped, the matches are the `_require` lines. -/
theorem map_strip_finditer (src : Text) : (finditer true 0 src).map strip = (requireLines src).map strip := by
  induction hn : src.length using Nat.strong_induction_on generalizing src with
  | _ n ih =>
    have hrest : ∀ u : Text, u.length < src.length → (finditer true 0 u).map strip = (requireLines u).map strip :=
      fun u hu => ih u.length (hn ▸ hu) u rfl
    cases h : isRequireLine src with
    | true => exact map_strip_of_match hrest h
    | false => exact map_strip_of_no_match hrest h

/-- The joined lines all begin as their calls do. -/
theorem head_of_mem_requireLines {src l : Text} (h : l ∈ (requireLines src).map strip) : l.head? = some '_' := by
  obtain ⟨m, hm, rfl⟩ := List.mem_map.1 h
  have hreq : beginsRequire (m.dropWhile isPySpace) = true := (List.mem_filter.1 hm).2
  obtain ⟨u, hu⟩ := List.head?_eq_some_iff.1 (head_of_beginsRequire hreq)
  have hne : (m.dropWhile isPySpace).rdropWhile isPySpace ≠ [] := by
    rw [ne_eq, List.rdropWhile_eq_nil_iff, hu]
    exact fun hall => absurd (hall '_' (by simp)) (by decide)
  obtain ⟨v, hv⟩ := List.rdropWhile_prefix isPySpace (m.dropWhile isPySpace)
  obtain ⟨c, w, hw⟩ := List.exists_cons_of_ne_nil hne
  rw [strip, hw]
  rw [hw, hu] at hv
  cases hv
  rfl

end NfsPlayground.Ports
