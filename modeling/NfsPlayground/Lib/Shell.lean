import NfsPlayground.Lib.Lines
import Mathlib.Algebra.Ring.Nat

/-!
# A shell that reads a file of assignments

`source` is the shell's reading of a text as far as it consists of assignments of literal words: parts in single quotes
and in double quotes, escaped characters and plain ones. On anything else, where text of the file would be expanded or
run as a command, it is `none`. Of the characters `\` and `"` of the text no more come out in the values than there
are, and fewer if a value holds a single quote, since such a quote has to be escaped or in double quotes.
-/

namespace Shell

open Lines

inductive Mode
  | plain
  | single
  | double
  deriving DecidableEq

/-- Ends a word that is not quoted. -/
def isBreak (c : Char) : Bool := c = ' ' ∨ c = '\t' ∨ c = '\n'

/-- What the shell acts on outside quotes: expansions, operators and redirections. -/
def isActive (c : Char) : Bool := c ∈ ['$', '\x60', '~', '|', '&', ';', '<', '>', '(', ')']

/-- What a backslash escapes in double quotes. -/
def isEscapable (c : Char) : Bool := c ∈ ['$', '\x60', '"', '\\']

/-- The value at the front of a text, and what follows it. -/
def value : Mode → Text → Option (Text × Text)
  | .plain, [] => some ([], [])
  | .single, [] => none
  | .double, [] => none
  | .plain, ['\\'] => none
  | .plain, '\\' :: c :: t =>
    -- a backslash at the end of a line continues it
    if c = '\n' then value .plain t else (value .plain t).map fun r => (c :: r.1, r.2)
  | .plain, c :: t =>
    if c = '\'' then value .single t
    else if c = '"' then value .double t
    else if isBreak c then some ([], c :: t)
    else if isActive c then none
    else (value .plain t).map fun r => (c :: r.1, r.2)
  | .single, c :: t =>
    if c = '\'' then value .plain t else (value .single t).map fun r => (c :: r.1, r.2)
  | .double, '\\' :: c :: t =>
    if c = '\n' then value .double t
    else if isEscapable c then (value .double t).map fun r => (c :: r.1, r.2)
    else (value .double t).map fun r => ('\\' :: c :: r.1, r.2)
  | .double, c :: t =>
    if c = '"' then value .plain t
    else if c = '$' ∨ c = '\x60' then none
    else (value .double t).map fun r => (c :: r.1, r.2)

/-- The name of a variable. -/
def isName (name : Text) : Bool :=
  !name.isEmpty && name.all (fun c => c.isAlphanum || c == '_') && !name.head?.any Char.isDigit

/-- How many backslashes and double quotes a text holds. -/
def escapes (t : Text) : Nat := t.countP fun c => c = '\\' ∨ c = '"'

@[simp] theorem escapes_nil : escapes [] = 0 := rfl

theorem escapes_cons (c : Char) (t : Text) : escapes (c :: t) = escapes t + if c = '\\' ∨ c = '"' then 1 else 0 := by
  simp [escapes, List.countP_cons]

@[simp] theorem escapes_append (t u : Text) : escapes (t ++ u) = escapes t + escapes u := by simp [escapes]

/-- How many of them a value and what follows it leave over: one is left in double quotes, which end with it, and one if
the value holds a single quote, which has to be escaped or in double quotes. -/
structure Spent (m : Mode) (t v r : Text) : Prop where
  length : r.length ≤ t.length
  total : escapes v + escapes r + (if m = .double then 1 else 0) ≤ escapes t
  quote : '\'' ∈ v → escapes v + escapes r + 1 ≤ escapes t

/-- A character that does not come out. -/
theorem Spent.skip {m m' : Mode} {t v r : Text} (h : Spent m t v r) (c : Char) (hm : m' = m ∨ c = '"') :
    Spent m' (c :: t) v r := by
  have hlen := h.length
  have htotal := h.total
  refine ⟨Nat.le_succ_of_le hlen, ?_, fun hq => ?_⟩
  · rw [escapes_cons]
    rcases hm with rfl | rfl
    · omega
    · simp only [or_true, if_true]
      split <;> omega
  · have hquote := h.quote hq
    rw [escapes_cons]
    omega

/-- A character that comes out as it is. -/
theorem Spent.keep {m : Mode} {t v r : Text} (h : Spent m t v r) {c : Char} (hc : c ≠ '\'' ∨ m = .double) :
    Spent m (c :: t) (c :: v) r := by
  have hlen := h.length
  have htotal := h.total
  refine ⟨Nat.le_succ_of_le hlen, ?_, fun hq => ?_⟩
  · rw [escapes_cons, escapes_cons]
    omega
  · rw [escapes_cons, escapes_cons]
    rcases hc with hc | rfl
    · have hquote := h.quote ((List.mem_cons.1 hq).resolve_left (Ne.symm hc))
      omega
    · simp only [if_true] at htotal
      omega

/-- A character that comes out because it is escaped. -/
theorem Spent.escaped {m : Mode} {t v r : Text} (h : Spent m t v r) (c : Char) :
    Spent m ('\\' :: c :: t) (c :: v) r := by
  have hlen := h.length
  have htotal := h.total
  refine ⟨by simp only [List.length_cons]; omega, ?_, fun _ => ?_⟩
  · simp only [escapes_cons, true_or, if_true]
    omega
  · simp only [escapes_cons, true_or, if_true]
    omega

theorem map_cons_eq_some {x : Option (Text × Text)} {c : Char} {v r : Text}
    (h : (x.map fun p => (c :: p.1, p.2)) = some (v, r)) : ∃ w, x = some (w, r) ∧ v = c :: w := by
  obtain ⟨p, hp, he⟩ := Option.map_eq_some_iff.1 h
  cases he
  exact ⟨p.1, hp, rfl⟩

theorem value_spent {m : Mode} {t v r : Text} (h : value m t = some (v, r)) : Spent m t v r := by
  fun_induction value m t generalizing v r with
  | case1 =>
    cases h
    exact ⟨Nat.le_refl _, Nat.le_refl _, fun hq => by cases hq⟩
  | case2 | case3 | case4 => cases h
  | case5 t ih => exact ((ih h).skip '\n' (Or.inl rfl)).skip '\\' (Or.inl rfl)
  | case6 c t _ ih =>
    obtain ⟨w, hw, rfl⟩ := map_cons_eq_some h
    exact (ih hw).escaped c
  | case7 t _ _ ih =>
    have hs := ih h
    exact ⟨Nat.le_succ_of_le hs.length, hs.total, hs.quote⟩
  | case8 t _ _ _ ih => exact (ih h).skip '"' (Or.inr rfl)
  | case9 c t =>
    cases h
    exact ⟨Nat.le_refl _, by simp, fun hq => by cases hq⟩
  | case10 => cases h
  | case11 c t _ _ hc _ _ _ ih =>
    obtain ⟨w, hw, rfl⟩ := map_cons_eq_some h
    exact (ih hw).keep (Or.inl hc)
  | case12 t ih =>
    have hs := ih h
    exact ⟨Nat.le_succ_of_le hs.length, hs.total, hs.quote⟩
  | case13 c t hc ih =>
    obtain ⟨w, hw, rfl⟩ := map_cons_eq_some h
    exact (ih hw).keep (Or.inl hc)
  | case14 t ih => exact ((ih h).skip '\n' (Or.inl rfl)).skip '\\' (Or.inl rfl)
  | case15 c t _ _ ih =>
    obtain ⟨w, hw, rfl⟩ := map_cons_eq_some h
    exact (ih hw).escaped c
  | case16 c t _ _ ih =>
    obtain ⟨p, hp, he⟩ := Option.map_eq_some_iff.1 h
    cases he
    exact ((ih hp).keep (Or.inr rfl)).keep (Or.inr rfl)
  | case17 t _ ih => exact (ih h).skip '"' (Or.inr rfl)
  | case18 => cases h
  | case19 c t _ _ _ ih =>
    obtain ⟨w, hw, rfl⟩ := map_cons_eq_some h
    exact (ih hw).keep (Or.inr rfl)

/-! ## Files of assignments -/

/-- The assignments of a text, each of a name and a value, or `none`. -/
def source (t : Text) : Option (List (Text × Text)) :=
  match t with
  | [] => some []
  | c :: t =>
    if isBreak c then source t
    else
      match _hrest : (c :: t).dropWhile (· ≠ '=') with
      | [] => none
      | _ :: rest =>
        if isName ((c :: t).takeWhile (· ≠ '=')) then
          match _hvalue : value .plain rest with
          | some (v, after) => (source after).map (((c :: t).takeWhile (· ≠ '='), v) :: ·)
          | none => none
        else none
termination_by t.length
decreasing_by
  · simp
  · have hdrop := (List.dropWhile_sublist (fun d => decide (d ≠ '=')) (l := c :: t)).length_le
    have hlen := (value_spent _hvalue).length
    rw [_hrest, List.length_cons] at hdrop
    omega

/-- A line `NAME='value'`. -/
def assignment (name v : Text) : Text := name ++ '=' :: '\'' :: v ++ ['\'', '\n']

theorem value_single {v : Text} (hv : '\'' ∉ v) (rest : Text) :
    value .single (v ++ '\'' :: '\n' :: rest) = some (v, '\n' :: rest) := by
  induction v with
  | nil => simp [value, isBreak]
  | cons c v ih =>
    simp only [List.mem_cons, not_or] at hv
    rw [List.cons_append, value, if_neg (Ne.symm hv.1), ih hv.2]
    rfl

theorem isName_iff {name : Text} : isName name = true ↔
    name ≠ [] ∧ (∀ c ∈ name, (c.isAlphanum || c == '_') = true) ∧ ∀ c ∈ name.head?, c.isDigit = false := by
  cases name with
  | nil => simp [isName]
  | cons c t => simp [isName]

theorem not_isBreak_of_word {c : Char} (h : (c.isAlphanum || c == '_') = true) : isBreak c = false ∧ c ≠ '=' := by
  constructor
  · simp only [isBreak, decide_eq_false_iff_not]
    rintro (rfl | rfl | rfl) <;> exact absurd h (by decide)
  · rintro rfl
    exact absurd h (by decide)

/-- A name, up to the equals sign. -/
theorem span_name {name : Text} (hname : isName name = true) (rest : Text) :
    (name ++ '=' :: rest).takeWhile (· ≠ '=') = name ∧ (name ++ '=' :: rest).dropWhile (· ≠ '=') = '=' :: rest := by
  have hall : ∀ c ∈ name, decide (c ≠ '=') = true := fun c hc =>
    decide_eq_true (not_isBreak_of_word ((isName_iff.1 hname).2.1 c hc)).2
  constructor
  · rw [List.takeWhile_append_of_pos hall]
    simp
  · rw [List.dropWhile_append_of_pos hall]
    simp

/-- A word of the text: what is read of it, and what comes of the rest. -/
theorem source_word {c d : Char} {t rest v after : Text} (hc : isBreak c = false)
    (hrest : (c :: t).dropWhile (· ≠ '=') = d :: rest) (hname : isName ((c :: t).takeWhile (· ≠ '=')) = true)
    (hvalue : value .plain rest = some (v, after)) :
    source (c :: t) = (source after).map (((c :: t).takeWhile (· ≠ '='), v) :: ·) := by
  rw [source, if_neg (by simp [hc])]
  split
  · rename_i hnil
    rw [hrest] at hnil
    cases hnil
  · rename_i hcons
    rw [hrest] at hcons
    cases hcons
    rw [if_pos hname]
    split
    · rename_i hsome
      rw [hvalue] at hsome
      cases hsome
      rfl
    · rename_i hnone
      rw [hvalue] at hnone
      cases hnone

/-- A value without a single quote is read as it is written. -/
theorem source_assignment {name v : Text} (hname : isName name = true) (hv : '\'' ∉ v) (rest : Text) :
    source (assignment name v ++ rest) = (source rest).map ((name, v) :: ·) := by
  obtain ⟨hne, hall, -⟩ := isName_iff.1 hname
  obtain ⟨c, t, rfl⟩ := List.exists_cons_of_ne_nil hne
  have hbreak := (not_isBreak_of_word (hall c List.mem_cons_self)).1
  have htext : assignment (c :: t) v ++ rest = (c :: t) ++ '=' :: ('\'' :: (v ++ '\'' :: '\n' :: rest)) := by
    simp [assignment]
  obtain ⟨htake, hdrop⟩ := span_name hname ('\'' :: (v ++ '\'' :: '\n' :: rest))
  have hvalue : value .plain ('\'' :: (v ++ '\'' :: '\n' :: rest)) = some (v, '\n' :: rest) := by
    rw [value, if_pos rfl, value_single hv]
    all_goals simp
  have hnewline : source ('\n' :: rest) = source rest := by rw [source, if_pos (by decide)]
  rw [List.cons_append] at htake hdrop htext
  rw [htext, source_word hbreak hdrop (by rw [htake]; exact hname) hvalue, htake, hnewline]

/-- No more backslashes and double quotes come out in the values than the text holds, and fewer if there is a single
quote. -/
theorem source_spent {t : Text} {ps : List (Text × Text)} (h : source t = some ps) :
    (ps.map fun p => escapes p.2).sum ≤ escapes t ∧
      ((∃ p ∈ ps, '\'' ∈ p.2) → (ps.map fun p => escapes p.2).sum < escapes t) := by
  fun_induction source t generalizing ps with
  | case1 =>
    cases h
    simp
  | case2 c t _ ih =>
    obtain ⟨hle, hlt⟩ := ih h
    rw [escapes_cons]
    exact ⟨by omega, fun hq => by have := hlt hq; omega⟩
  | case3 => cases h
  | case4 c t _ d rest hrest _ v after hvalue ih =>
    obtain ⟨qs, hqs, rfl⟩ := Option.map_eq_some_iff.1 h
    obtain ⟨hle, hlt⟩ := ih hqs
    have hs := value_spent hvalue
    have htotal := hs.total
    have hdrop : escapes (d :: rest) ≤ escapes (c :: t) := by
      rw [← hrest]
      exact List.Sublist.countP_le (List.dropWhile_sublist _)
    have hcons := escapes_cons d rest
    simp only [List.map_cons, List.sum_cons, List.mem_cons, exists_eq_or_imp]
    refine ⟨by omega, ?_⟩
    rintro (hq | hq)
    · have hquote := hs.quote hq
      omega
    · have hrestlt := hlt hq
      omega
  | _ => cases h

/-- A line for each of the assignments. -/
def assignments (ps : List (Text × Text)) : Text := ps.flatMap fun p => assignment p.1 p.2

theorem escapes_name {name : Text} (h : isName name = true) : escapes name = 0 := by
  refine List.countP_eq_zero.2 fun c hc => ?_
  have hword := (isName_iff.1 h).2.1 c hc
  simp only [decide_eq_true_eq]
  rintro (rfl | rfl) <;> exact absurd hword (by decide)

/-- A file of assignments has the backslashes and double quotes of its values. -/
theorem escapes_assignments {ps : List (Text × Text)} (hnames : ∀ p ∈ ps, isName p.1 = true) :
    escapes (assignments ps) = (ps.map fun p => escapes p.2).sum := by
  induction ps with
  | nil => rfl
  | cons p ps ih =>
    rw [List.forall_mem_cons] at hnames
    rw [assignments, List.flatMap_cons, ← assignments, escapes_append, ih hnames.2, List.map_cons, List.sum_cons,
      assignment]
    simp [escapes_name hnames.1, escapes_cons]

theorem source_assignments {ps : List (Text × Text)} (hnames : ∀ p ∈ ps, isName p.1 = true)
    (hquotes : ∀ p ∈ ps, '\'' ∉ p.2) : source (assignments ps) = some ps := by
  induction ps with
  | nil => rw [assignments, List.flatMap_nil, source]
  | cons p ps ih =>
    rw [List.forall_mem_cons] at hnames hquotes
    rw [assignments, List.flatMap_cons, ← assignments, source_assignment hnames.1 hquotes.1, ih hnames.2 hquotes.2]
    rfl

/-- A file of assignments is read as it was written exactly when no value holds a single quote. -/
theorem source_assignments_iff {ps : List (Text × Text)} (hnames : ∀ p ∈ ps, isName p.1 = true) :
    source (assignments ps) = some ps ↔ ∀ p ∈ ps, '\'' ∉ p.2 := by
  refine ⟨fun h p hp hq => ?_, source_assignments hnames⟩
  have hlt := (source_spent h).2 ⟨p, hp, hq⟩
  rw [escapes_assignments hnames] at hlt
  omega

end Shell
