import NfsPlayground.Wiring.Stages

/-!
# The per-case init of the suites

Every `kunit_suite` of a port is to call `xfstests_nfs_case_init()` before each case. The script decides once for the
whole file whether its suites have an `.init` (`hasInit`), and otherwise edits every line that sets `.test_cases`
(`addInit`).

A source is read as a list of pieces: suite initialisers with one field on a line (`Suite`), and other text. What the
edit makes of the line of a field is `addInit_field`; `every_suite_wired_iff` says for which sources every suite of the
copy is `Wired`.
-/

namespace NfsPlayground.Wiring

open Lines Pattern Resume

/-- The line `.name = value,` of an initialiser. -/
structure Field where
  indent : Text
  name : Text
  gap : Text
  value : Text
  indent_ok : ∀ c ∈ indent, isSpace c = true ∧ c ≠ '\n'
  name_ok : name ≠ [] ∧ ∀ c ∈ name, isWordChar c = true
  gap_ok : ∀ c ∈ gap, isSpace c = true ∧ c ≠ '\n'
  value_ok : '\n' ∉ value

namespace Field

variable (f : Field)

def line : Text := f.indent ++ '.' :: (f.name ++ (f.gap ++ '=' :: f.value))

/-- The field `.init = xfstests_nfs_case_init,` laid out as the field `f`. -/
def caseInit : Field where
  indent := f.indent
  name := "init".toList
  gap := f.gap
  value := " xfstests_nfs_case_init,".toList
  indent_ok := f.indent_ok
  name_ok := ⟨by decide, List.all_eq_true.1 (by decide)⟩
  gap_ok := f.gap_ok
  value_ok := by decide

end Field

/-- An initialiser `struct kunit_suite var = { … };`, the fields before and after its `.test_cases` apart. -/
structure Suite where
  isStatic : Bool
  var : Text
  before : List Field
  cases : Field
  after : List Field
  var_ok : ∀ c ∈ var, isWordChar c = true
  cases_ok : cases.name = "test_cases".toList
  distinct : ((before ++ cases :: after).map Field.name).Nodup

namespace Suite

variable (s : Suite)

def fields : List Field := s.before ++ s.cases :: s.after

def opening : Text :=
  (if s.isStatic then "static ".toList else []) ++ "struct kunit_suite ".toList ++ s.var ++ " = \x7b".toList

/-- The lines of the initialiser, with the fields `fs`. -/
def linesWith (fs : List Field) : List Text := s.opening :: (fs.map Field.line ++ ["\x7d;".toList])

/-- The initialiser sets `.init`. -/
def HasInit : Prop := "init".toList ∈ s.fields.map Field.name

instance : Decidable s.HasInit := inferInstanceAs (Decidable (_ ∈ _))

/-- The fields as they should be in the copy: `.init` is set once, where it was not set before directly before
`.test_cases`, to `xfstests_nfs_case_init`. -/
structure Wired (fs : List Field) : Prop where
  once : (fs.map Field.name).count "init".toList = 1
  kept : s.HasInit → fs = s.fields
  added : ¬ s.HasInit → ∃ f : Field, f.name = "init".toList ∧ f.value = " xfstests_nfs_case_init,".toList ∧
    fs = s.before ++ f :: s.cases :: s.after

end Suite

/-- A part of a source. -/
inductive Piece
  | other (ls : List Text)
  | suite (s : Suite)

namespace Piece

def content : Piece → List Text
  | other ls => ls
  | suite s => s.linesWith s.fields

/-- The suites of a source. -/
def suites : List Piece → List Suite := List.filterMap fun
  | other _ => none
  | suite s => some s

/-- A line of the other text, as the edits of the script leave it. -/
def LineCopied (l : Text) (ls : List Text) : Prop := ∃ m, (m = l ∨ m = quoteNs l) ∧
  (ls = [m] ∨ ls = lines (addInit m ++ ['\n']))

/-- The lines of a part in the copy, with every suite wired. -/
inductive Copied : Piece → List Text → Prop
  | other {ls : List Text} {lss : List (List Text)} : List.Forall₂ LineCopied ls lss → Copied (other ls) lss.flatten
  | suite {s : Suite} {fs : List Field} : s.Wired fs → Copied (suite s) (s.linesWith fs)

end Piece

/-- In the copy `y` of the source every suite is wired. -/
def EverySuiteWired (ps : List Piece) (y : Text) : Prop :=
  ∃ lss, List.Forall₂ Piece.Copied ps lss ∧ lines y = lss.flatten

/-! ## The edit of one line -/

/-- `^\(\s*\)\.test_cases\(\s*\)=` -/
def SetsCases (l : Text) : Prop := ∃ s₁ s₂ v, (∀ c ∈ s₁, isSpace c = true) ∧ (∀ c ∈ s₂, isSpace c = true) ∧
  l = s₁ ++ (".test_cases".toList ++ (s₂ ++ '=' :: v))

theorem fits_cases {prev : Option Char} {ss : List Text} {rest : Text}
    (h : Fits [.bol, .many isSpace, .lit ".test_cases".toList, .many isSpace, .lit "=".toList] prev ss rest) :
    ∃ s₁ s₂, ss = [[], s₁, ".test_cases".toList, s₂, ['=']] ∧ (∀ c ∈ s₁, isSpace c = true) ∧
      ∀ c ∈ s₂, isSpace c = true := by
  obtain ⟨_, _, rfl, ⟨rfl, -⟩, h⟩ := fits_cons.1 h
  obtain ⟨s₁, _, rfl, h₁, h⟩ := fits_cons.1 h
  obtain ⟨_, _, rfl, rfl, h⟩ := fits_cons.1 h
  obtain ⟨s₂, _, rfl, h₂, h⟩ := fits_cons.1 h
  obtain ⟨_, _, rfl, rfl, h⟩ := fits_cons.1 h
  cases fits_nil.1 h
  exact ⟨s₁, s₂, rfl, h₁, h₂⟩

/-- The edit puts a line before a line that sets `.test_cases`, and leaves every other line as it is. -/
theorem addInit_line {l : Text} (hl : '\n' ∉ l) :
    (∃ s₁ s₂ v, (∀ c ∈ s₁, isSpace c = true) ∧ (∀ c ∈ s₂, isSpace c = true) ∧
      l = s₁ ++ (".test_cases".toList ++ (s₂ ++ '=' :: v)) ∧
      addInit l = s₁ ++ (".init".toList ++ (s₂ ++ '=' :: (" xfstests_nfs_case_init,".toList ++ '\n' :: l)))) ∨
    (¬ SetsCases l ∧ addInit l = l) := by
  by_cases hne : l = []
  · subst hne
    refine Or.inr ⟨?_, rfl⟩
    rintro ⟨s₁, s₂, v, -, -, heq⟩
    simp at heq
  unfold addInit
  rw [replaceFirst_line hl hne]
  cases hm : matchHere [.bol, .many isSpace, .lit ".test_cases".toList, .many isSpace, .lit "=".toList] none l with
  | none =>
    refine Or.inr ⟨?_, rfl⟩
    rintro ⟨s₁, s₂, v, h₁, h₂, rfl⟩
    have hfits : Fits [.bol, .many isSpace, .lit ".test_cases".toList, .many isSpace, .lit "=".toList] none
        [[], s₁, ".test_cases".toList, s₂, "=".toList] v := ⟨⟨rfl, rfl⟩, h₁, rfl, h₂, rfl, trivial⟩
    have hsome := match_complete hfits
    simp only [List.flatten_cons, List.flatten_nil, List.nil_append, List.append_nil, List.append_assoc] at hsome
    rw [show "=".toList ++ v = '=' :: v from rfl, hm] at hsome
    cases hsome
  | some r =>
    obtain ⟨ss, rest⟩ := r
    obtain ⟨hss, hf⟩ := match_sound hm
    obtain ⟨s₁, s₂, rfl, h₁, h₂⟩ := fits_cases hf
    refine Or.inl ⟨s₁, s₂, rest, h₁, h₂, by simpa using hss, ?_⟩
    rw [hss]
    simp

theorem not_wordChar_of_isSpace {c : Char} (h : isSpace c = true) : isWordChar c = false := by
  simp only [isSpace, Bool.or_eq_true, beq_iff_eq] at h
  rcases h with ((((rfl | rfl) | rfl) | rfl) | rfl) | rfl <;> decide

/-- A line that begins with something else than white space and a dot does not set `.test_cases`. -/
theorem not_setsCases {c : Char} {l : Text} (hs : isSpace c = false) (hdot : c ≠ '.') : ¬ SetsCases (c :: l) := by
  rintro ⟨s₁, s₂, v, h₁, -, heq⟩
  cases s₁ with
  | nil => exact hdot (List.cons.inj heq).1
  | cons d s₁ =>
    obtain ⟨rfl, -⟩ := List.cons.inj heq
    rw [h₁ c List.mem_cons_self] at hs
    cases hs

namespace Field

variable {f : Field}

theorem line_noNewline (f : Field) : '\n' ∉ f.line := by
  have hi : '\n' ∉ f.indent := fun h => (f.indent_ok _ h).2 rfl
  have hg : '\n' ∉ f.gap := fun h => (f.gap_ok _ h).2 rfl
  have hn : '\n' ∉ f.name := fun h => absurd (f.name_ok.2 _ h) (by decide)
  simp [line, hi, hg, hn, f.value_ok]

/-- The indentation and the name of the field can be read off its line. -/
theorem line_unique {s₁ s₂ n v : Text} (h₁ : ∀ c ∈ s₁, isSpace c = true) (h₂ : ∀ c ∈ s₂, isSpace c = true)
    (hn : ∀ c ∈ n, isWordChar c = true) (h : f.line = s₁ ++ '.' :: (n ++ (s₂ ++ '=' :: v))) :
    f.indent = s₁ ∧ f.name = n ∧ f.gap = s₂ := by
  have hblank : ∀ {s w : Text}, (∀ c ∈ s, isSpace c = true) → ∀ c ∈ (s ++ '=' :: w).head?, isWordChar c = false := by
    intro s w hs c hc
    cases s with
    | nil =>
      cases hc
      decide
    | cons d s =>
      cases hc
      exact not_wordChar_of_isSpace (hs _ List.mem_cons_self)
  obtain ⟨hindent, h⟩ := split_unique h (fun c hc => (f.indent_ok c hc).1) h₁ (by simp [isSpace]) (by simp [isSpace])
  obtain ⟨hname, h⟩ := split_unique (List.cons.inj h).2 f.name_ok.2 hn
    (hblank fun c hc => (f.gap_ok c hc).1) (hblank h₂)
  obtain ⟨hgap, -⟩ := split_unique h (fun c hc => (f.gap_ok c hc).1) h₂ (by simp [isSpace]) (by simp [isSpace])
  exact ⟨hindent, hname, hgap⟩

theorem testCases_word : ∀ c ∈ "test_cases".toList, isWordChar c = true := List.all_eq_true.1 (by decide)

theorem setsCases_iff (f : Field) : SetsCases f.line ↔ f.name = "test_cases".toList := by
  constructor
  · rintro ⟨s₁, s₂, v, h₁, h₂, heq⟩
    exact (line_unique h₁ h₂ testCases_word heq).2.1
  · intro hname
    refine ⟨f.indent, f.gap, f.value, fun c hc => (f.indent_ok c hc).1, fun c hc => (f.gap_ok c hc).1, ?_⟩
    rw [line, hname]
    rfl

/-- Of the fields only `.test_cases` is edited: the new field comes directly before it. -/
theorem addInit_field (f : Field) : lines (addInit f.line ++ ['\n']) =
    if f.name = "test_cases".toList then [f.caseInit.line, f.line] else [f.line] := by
  rcases addInit_line f.line_noNewline with ⟨s₁, s₂, v, h₁, h₂, heq, hedit⟩ | ⟨hno, hedit⟩
  · obtain ⟨hindent, hname, hgap⟩ := line_unique h₁ h₂ testCases_word heq
    have hcase : addInit f.line = (f.caseInit.line ++ ['\n']) ++ f.line := by
      rw [hedit, ← hindent, ← hgap]
      simp [caseInit, line]
    rw [if_pos hname, hcase, List.append_assoc, lines_append _ (closed_append_newline _),
      lines_line f.caseInit.line_noNewline, lines_line f.line_noNewline]
    rfl
  · rw [if_neg fun hname => hno (f.setsCases_iff.2 hname), hedit, lines_line f.line_noNewline]

/-- The guard finds a field that sets `.init`. -/
theorem found_init {f : Field} (hname : f.name = "init".toList) :
    found [.lit ".init".toList, .many isSpace, .lit "=".toList] none f.line = true := by
  refine found_iff.2 ⟨f.indent, [".init".toList, f.gap, "=".toList], f.value, ?_, rfl, fun c hc => (f.gap_ok c hc).1,
    rfl, trivial⟩
  rw [line, hname]
  simp

end Field

/-! ## The edits of the text -/

theorem quoteNs_open {l : Text} (hl : '\n' ∉ l) (hne : l ≠ []) : ¬ Closed (quoteNs l) := by
  unfold quoteNs
  split
  · intro hc
    exact absurd (hc ';' (by simp)) (by decide)
  · intro hc
    have hlast := hc _ (List.getLast?_eq_some_getLast hne)
    exact hl (hlast ▸ List.getLast_mem hne)

theorem quoteNs_noNewline {l : Text} (hl : '\n' ∉ l) : '\n' ∉ quoteNs l := by
  unfold quoteNs
  split
  · exact not_mem_lit (by decide)
  · exact hl

theorem addInit_open {l : Text} (hl : '\n' ∉ l) (hne : l ≠ []) : ¬ Closed (addInit l) := by
  have hopen : ∀ t : Text, ¬ Closed (t ++ l) := fun t hc => by
    rw [Closed, List.getLast?_append_of_ne_nil _ hne] at hc
    exact hl (hc _ (List.getLast?_eq_some_getLast hne) ▸ List.getLast_mem hne)
  rcases addInit_line hl with ⟨s₁, s₂, v, -, -, -, hedit⟩ | ⟨-, hedit⟩
  · have := hopen (s₁ ++ (".init".toList ++ (s₂ ++ '=' :: (" xfstests_nfs_case_init,".toList ++ ['\n']))))
    simpa [hedit] using this
  · rw [hedit]
    exact hopen []

/-- What the guard finds has a dot. -/
theorem found_init_dot {l : Text} (h : found [.lit ".init".toList, .many isSpace, .lit "=".toList] none l = true) :
    '.' ∈ l := by
  obtain ⟨u, ss, rest, rfl, hf⟩ := found_iff.1 h
  obtain ⟨_, _, rfl, rfl, -⟩ := fits_cons.1 hf
  simp

/-- The guard finds the same in the source and in the quoted copy. -/
theorem found_init_quoteNs (l : Text) : found [.lit ".init".toList, .many isSpace, .lit "=".toList] none (quoteNs l) =
    found [.lit ".init".toList, .many isSpace, .lit "=".toList] none l := by
  have hnone : ∀ {m : Text}, '.' ∉ m →
      found [.lit ".init".toList, .many isSpace, .lit "=".toList] none m = false := fun hm =>
    Bool.eq_false_iff.2 fun h => hm (found_init_dot h)
  unfold quoteNs
  split
  · rename_i hl
    rw [hnone (not_mem_lit (by decide)), hl, hnone (not_mem_lit (by decide))]
  · rfl

theorem hasInit_quoted (x : Text) : hasInit (sed quoteNs x) = hasInit x := by
  unfold hasInit grep anyLine
  rw [lines_sed_map (fun _ => quoteNs_open) (fun _ => quoteNs_noNewline), List.any_map]
  exact congrArg _ (funext found_init_quoteNs)

/-- What the tree makes of a line. -/
def Variant.quoteLine (v : Variant) (l : Text) : Text := if v.quoteModuleImportNs then quoteNs l else l

/-- The lines of the copied source of a port. -/
theorem lines_adapted {e : Entry} (hport : e.isPort = true) (v : Variant) (x : Text) : lines (e.adapted v x) =
    (lines x).flatMap fun l => if hasInit x then [v.quoteLine l] else lines (addInit (v.quoteLine l) ++ ['\n']) := by
  have hfixture : e.isFixture = false := by
    have h := hport
    rw [Entry.isPort, Bool.and_eq_true, Bool.not_eq_true'] at h
    exact h.2
  unfold Entry.adapted Variant.quoteLine
  simp only [hfixture, hport, Bool.false_and, Bool.true_and, Bool.false_eq_true, if_false]
  have hquoted := lines_sed_map (fun _ => quoteNs_open) (fun _ => quoteNs_noNewline) x
  cases v.quoteModuleImportNs <;> cases hinit : hasInit x <;>
    simp only [hinit, hasInit_quoted, if_true, if_false, Bool.false_eq_true, Bool.not_true, Bool.not_false]
  · exact lines_sed (fun _ => addInit_open) x
  · simp
  · rw [lines_sed (fun _ => addInit_open), hquoted, List.flatMap_map]
  · rw [hquoted, List.map_eq_flatMap]

/-! ## The suites -/

namespace Suite

variable (s : Suite)

theorem opening_noNewline : '\n' ∉ s.opening := by
  have hvar : '\n' ∉ s.var := fun h => absurd (s.var_ok _ h) (by decide)
  unfold opening
  cases s.isStatic <;> simp [hvar]

theorem opening_head : ∃ l, s.opening = 's' :: l := by
  unfold opening
  cases s.isStatic
  · exact ⟨_, rfl⟩
  · exact ⟨_, rfl⟩

/-- No line of a suite is the one that is quoted. -/
theorem quoteLine_eq (v : Variant) {fs : List Field} {l : Text} (hl : l ∈ s.linesWith fs) : v.quoteLine l = l := by
  have hhead : l.head? ≠ some 'M' := by
    rcases List.mem_cons.1 hl with rfl | hl
    · obtain ⟨w, hw⟩ := s.opening_head
      simp [hw]
    rcases List.mem_append.1 hl with hl | hl
    · obtain ⟨f, -, rfl⟩ := List.mem_map.1 hl
      unfold Field.line
      cases hi : f.indent with
      | nil => simp
      | cons c w =>
        rintro ⟨⟩
        exact absurd (f.indent_ok 'M' (by simp [hi])).1 (by decide)
    · rw [List.mem_singleton.1 hl]
      decide
  have hne : l ≠ "MODULE_IMPORT_NS(EXPORTED_FOR_KUNIT_TESTING);".toList := by
    rintro rfl
    exact hhead rfl
  unfold Variant.quoteLine quoteNs
  rw [if_neg hne, ite_self]

theorem wire_plain {c : Char} {l : Text} (hl : '\n' ∉ c :: l) (hs : isSpace c = false) (hdot : c ≠ '.') :
    lines (addInit (c :: l) ++ ['\n']) = [c :: l] := by
  rcases addInit_line hl with ⟨s₁, s₂, v, h₁, h₂, heq, -⟩ | ⟨-, hedit⟩
  · exact absurd ⟨s₁, s₂, v, h₁, h₂, heq⟩ (not_setsCases hs hdot)
  · rw [hedit, lines_line hl]

/-- In the lines of a suite the edit puts one field, directly before `.test_cases`. -/
theorem wire_lines : (s.linesWith s.fields).flatMap (fun l => lines (addInit l ++ ['\n'])) =
    s.linesWith (s.before ++ s.cases.caseInit :: s.cases :: s.after) := by
  have hother : ∀ {fs : List Field}, (∀ f ∈ fs, f.name ≠ "test_cases".toList) →
      (fs.map Field.line).flatMap (fun l => lines (addInit l ++ ['\n'])) = fs.map Field.line := by
    intro fs hfs
    rw [List.flatMap_map, List.map_eq_flatMap]
    exact List.flatMap_congr fun f hf => by rw [f.addInit_field, if_neg (hfs f hf)]
  have hdistinct := s.distinct
  rw [List.map_append, List.map_cons, List.nodup_append, List.nodup_cons, s.cases_ok] at hdistinct
  obtain ⟨-, ⟨hafter, -⟩, hbefore⟩ := hdistinct
  have hb : ∀ f ∈ s.before, f.name ≠ "test_cases".toList := fun f hf =>
    hbefore _ (List.mem_map_of_mem hf) _ List.mem_cons_self
  have ha : ∀ f ∈ s.after, f.name ≠ "test_cases".toList := fun f hf heq =>
    hafter (heq ▸ List.mem_map_of_mem hf)
  have hopening : lines (addInit s.opening ++ ['\n']) = [s.opening] := by
    obtain ⟨w, hw⟩ := s.opening_head
    have hnl := s.opening_noNewline
    rw [hw] at hnl ⊢
    exact wire_plain hnl (by decide) (by decide)
  have hclosing : lines (addInit "\x7d;".toList ++ ['\n']) = ["\x7d;".toList] :=
    wire_plain (by decide) (by decide) (by decide)
  unfold linesWith fields
  simp only [List.flatMap_cons, List.flatMap_append, List.map_append, List.map_cons, List.flatMap_nil, hopening,
    hother hb, hother ha, hclosing, s.cases.addInit_field, s.cases_ok, if_true]
  simp

theorem wired_added (hno : ¬ s.HasInit) : s.Wired (s.before ++ s.cases.caseInit :: s.cases :: s.after) where
  once := by
    unfold HasInit fields at hno
    rw [List.map_append, List.map_cons, List.mem_append, List.mem_cons, not_or, not_or] at hno
    obtain ⟨hb, hc, ha⟩ := hno
    rw [List.map_append, List.map_cons, List.map_cons, List.count_append, List.count_cons, List.count_cons,
      List.count_eq_zero_of_not_mem hb, List.count_eq_zero_of_not_mem ha, s.cases_ok]
    rfl
  kept h := absurd h hno
  added _ := ⟨s.cases.caseInit, rfl, rfl, rfl⟩

theorem wired_kept (h : s.HasInit) : s.Wired s.fields where
  once := List.count_eq_one_of_mem s.distinct h
  kept _ := rfl
  added hno := absurd h hno

/-- A suite gains a line when it had no `.init`. -/
theorem length_wired {s : Suite} {fs : List Field} (h : s.Wired fs) :
    (s.linesWith fs).length = (s.linesWith s.fields).length + if s.HasInit then 0 else 1 := by
  split
  · rename_i hinit
    rw [h.kept hinit, Nat.add_zero]
  · rename_i hno
    obtain ⟨f, -, -, rfl⟩ := h.added hno
    simp [linesWith, fields]
    omega

end Suite

/-! ## The copied source -/

theorem portEntry_isPort (port : Port) : (portEntry port).isPort = true := by
  have hstem : (portEntry port).stem = "xfstests/generic/".toList ++ port.name := rfl
  have hport : "xfstests/".toList <+: (portEntry port).stem := ⟨"generic/".toList ++ port.name, by rw [hstem]; simp⟩
  have hfixture : (portEntry port).isFixture = false := by
    rw [Entry.isFixture, beq_eq_false_iff_ne, hstem]
    simp
  rw [Entry.isPort, hfixture, List.isPrefixOf_iff_prefix.2 hport]
  rfl

theorem lines_ne_nil (t : Text) : lines (t ++ ['\n']) ≠ [] := by
  cases t with
  | nil => simp
  | cons c t => exact lines_cons_ne_nil c _

namespace Piece

/-- If the edit is allowed on the other lines and wires every suite, the copy is as it should be. -/
theorem copied_of {g : Text → List Text} (hline : ∀ l, LineCopied l (g l)) : ∀ {ps : List Piece},
    (∀ s ∈ suites ps, ∃ fs, s.Wired fs ∧ (s.linesWith s.fields).flatMap g = s.linesWith fs) →
    ∃ lss, List.Forall₂ Copied ps lss ∧ (ps.flatMap content).flatMap g = lss.flatten
  | [], _ => ⟨[], .nil, rfl⟩
  | other ls :: ps, h => by
    obtain ⟨lss, hcopied, heq⟩ := @copied_of g hline ps h
    have hother : Copied (other ls) (ls.map g).flatten :=
      .other (List.forall₂_map_right_iff.2 (List.forall₂_same.2 fun l _ => hline l))
    refine ⟨_ :: lss, .cons hother hcopied, ?_⟩
    rw [List.flatMap_cons, List.flatMap_append, heq, List.flatten_cons, content, List.flatMap_def]
  | suite s :: ps, h => by
    obtain ⟨fs, hwired, hs⟩ := h s List.mem_cons_self
    obtain ⟨lss, hcopied, heq⟩ := @copied_of g hline ps fun s hs => h s (List.mem_cons_of_mem _ hs)
    refine ⟨_ :: lss, .cons (.suite hwired) hcopied, ?_⟩
    rw [List.flatMap_cons, List.flatMap_append, heq, List.flatten_cons, content, hs]

theorem LineCopied.length {l : Text} {ls : List Text} (h : LineCopied l ls) : 1 ≤ ls.length := by
  obtain ⟨m, -, rfl | rfl⟩ := h
  · exact Nat.le_refl 1
  · exact List.length_pos_iff.2 (lines_ne_nil _)

theorem length_copied_lines : ∀ {ls : List Text} {lss : List (List Text)}, List.Forall₂ LineCopied ls lss →
    ls.length ≤ lss.flatten.length
  | _, _, .nil => Nat.le_refl 0
  | _, _, .cons h hs => by
    have h₁ := h.length
    have h₂ := length_copied_lines hs
    rw [List.flatten_cons, List.length_append, List.length_cons]
    omega

/-- A copy that is as long as the source had an `.init` in every suite. -/
theorem copied_length : ∀ {ps : List Piece} {lss : List (List Text)}, List.Forall₂ Copied ps lss →
    (ps.flatMap content).length ≤ lss.flatten.length ∧
      (lss.flatten.length ≤ (ps.flatMap content).length → ∀ s ∈ suites ps, s.HasInit)
  | [], _, .nil => ⟨Nat.le_refl 0, fun _ s hs => absurd hs List.not_mem_nil⟩
  | other ls :: ps, _, .cons (.other hls) h => by
    obtain ⟨hle, hall⟩ := copied_length h
    have hlen := length_copied_lines hls
    rw [List.flatMap_cons, List.length_append, List.flatten_cons, List.length_append, content]
    refine ⟨by omega, fun hge => hall (by omega)⟩
  | suite s :: ps, _, .cons (.suite hs) h => by
    obtain ⟨hle, hall⟩ := copied_length h
    have hlen := Suite.length_wired hs
    rw [List.flatMap_cons, List.length_append, List.flatten_cons, List.length_append, content]
    refine ⟨by omega, fun hge s' hs' => ?_⟩
    rcases List.mem_cons.1 hs' with rfl | hs'
    · by_contra hno
      rw [if_neg hno] at hlen
      omega
    · exact hall (by omega) s' hs'

end Piece

section Copy

variable {e : Entry} {x : Text} {ps : List Piece}

/-- The guard finds the `.init` of a suite. -/
theorem hasInit_of_suite (hps : lines x = ps.flatMap Piece.content) {s : Suite} (hs : s ∈ Piece.suites ps)
    (h : s.HasInit) : hasInit x = true := by
  obtain ⟨p, hp, hsome⟩ := List.mem_filterMap.1 hs
  cases p with
  | other ls => cases hsome
  | suite s' =>
    cases hsome
    obtain ⟨f, hf, hname⟩ := List.mem_map.1 h
    have hmem : f.line ∈ lines x := by
      rw [hps]
      refine List.mem_flatMap.2 ⟨_, hp, List.mem_cons_of_mem _ (List.mem_append_left _ (List.mem_map_of_mem hf))⟩
    exact List.any_eq_true.2 ⟨f.line, hmem, Field.found_init hname⟩

theorem adapted_wired_iff (hport : e.isPort = true) (v : Variant) (hps : lines x = ps.flatMap Piece.content) :
    EverySuiteWired ps (e.adapted v x) ↔ hasInit x = false ∨ ∀ s ∈ Piece.suites ps, s.HasInit := by
  have hquote : ∀ l, v.quoteLine l = l ∨ v.quoteLine l = quoteNs l := fun l => by
    unfold Variant.quoteLine
    split
    · exact Or.inr rfl
    · exact Or.inl rfl
  unfold EverySuiteWired
  rw [lines_adapted hport, hps]
  cases hinit : hasInit x with
  | false =>
    simp only [Bool.false_eq_true, if_false, true_or, iff_true]
    obtain ⟨lss, hcopied, heq⟩ := @Piece.copied_of (fun l => lines (addInit (v.quoteLine l) ++ ['\n']))
      (fun l => ⟨_, hquote l, Or.inr rfl⟩) ps fun s hs => by
        have hno : ¬ s.HasInit := fun h => by
          rw [hasInit_of_suite hps hs h] at hinit
          cases hinit
        refine ⟨_, s.wired_added hno, ?_⟩
        rw [← s.wire_lines]
        exact List.flatMap_congr fun l hl => by rw [s.quoteLine_eq v hl]
    exact ⟨lss, hcopied, heq⟩
  | true =>
    simp only [if_true, Bool.true_eq_false, false_or]
    constructor
    · rintro ⟨lss, hcopied, heq⟩
      have hlen := congrArg List.length heq
      rw [← List.map_eq_flatMap, List.length_map] at hlen
      exact (Piece.copied_length hcopied).2 (by omega)
    · intro hall
      obtain ⟨lss, hcopied, heq⟩ := @Piece.copied_of (fun l => [v.quoteLine l])
        (fun l => ⟨_, hquote l, Or.inl rfl⟩) ps fun s hs => by
          refine ⟨_, s.wired_kept (hall s hs), ?_⟩
          rw [← List.map_eq_flatMap]
          exact (List.map_congr_left fun l hl => s.quoteLine_eq v hl).trans (List.map_id _)
      exact ⟨lss, hcopied, heq⟩

end Copy

/-- After the loop the source of a port is there as it is adapted. -/
theorem installed_source {repo : Repo} {v : Variant} {port : Port} {x : Text} {t r : Tree} (hport : port ∈ repo.ports)
    (hx : repo.c (portEntry port).stem = some x) (hr : Ends (installAll repo v (tests repo)) t r) :
    r.text (portEntry port).sourceFile = (portEntry port).adapted v x := by
  have hmem : portEntry port ∈ tests repo :=
    List.mem_append_right _ (List.mem_cons_of_mem _ (List.mem_map_of_mem hport))
  obtain ⟨-, ⟨y, hy, hfile⟩, -⟩ := (installAll_resumable repo v (tests_distinct repo)).reaches hr _ hmem
  rw [hx, Option.some.injEq] at hy
  rw [Tree.text, hfile, hy]
  rfl

/-- After the loop every suite of a port has its `.init` exactly when the guard found none in the whole source, or every
suite had one. -/
theorem every_suite_wired_iff (repo : Repo) (v : Variant) (port : Port) (x : Text) (ps : List Piece) (t r : Tree)
    (hport : port ∈ repo.ports) (hx : repo.c (portEntry port).stem = some x)
    (hps : lines x = ps.flatMap Piece.content) (hr : Ends (installAll repo v (tests repo)) t r) :
    EverySuiteWired ps (r.text (portEntry port).sourceFile) ↔
      hasInit x = false ∨ ∀ s ∈ Piece.suites ps, s.HasInit := by
  rw [installed_source hport hx hr]
  exact adapted_wired_iff (portEntry_isPort port) v hps

/-! ## Two sources -/

/-- The field `\t.name\t= value`. -/
def tabField (name value : Text) (hname : name ≠ [] ∧ ∀ c ∈ name, isWordChar c = true) (hvalue : '\n' ∉ value) :
    Field where
  indent := "\t".toList
  name := name
  gap := "\t".toList
  value := value
  indent_ok := List.forall_mem_singleton.2 (by decide)
  name_ok := hname
  gap_ok := List.forall_mem_singleton.2 (by decide)
  value_ok := hvalue

def nameField : Field := tabField "name".toList " \"a\",".toList ⟨by decide, List.all_eq_true.1 (by decide)⟩ (by decide)

def casesField : Field := tabField "test_cases".toList " a_cases,".toList ⟨by decide, Field.testCases_word⟩ (by decide)

def initField : Field :=
  tabField "init".toList " a_init,".toList ⟨by decide, List.all_eq_true.1 (by decide)⟩ (by decide)

def plainSuite : Suite :=
  ⟨true, "a_suite".toList, [nameField], casesField, [], List.all_eq_true.1 (by decide), rfl, by decide⟩

def initSuite : Suite :=
  ⟨true, "b_suite".toList, [nameField, initField], casesField, [], List.all_eq_true.1 (by decide), rfl, by decide⟩

def suitesText (ss : List Suite) : Text := unlines ((ss.map Piece.suite).flatMap Piece.content)

theorem lines_suitesText (ss : List Suite) :
    lines (suitesText ss) = (ss.map Piece.suite).flatMap Piece.content := by
  refine lines_unlines fun l hl => ?_
  obtain ⟨p, hp, hl⟩ := List.mem_flatMap.1 hl
  obtain ⟨s, -, rfl⟩ := List.mem_map.1 hp
  rcases List.mem_cons.1 hl with rfl | hl
  · exact s.opening_noNewline
  rcases List.mem_append.1 hl with hl | hl
  · obtain ⟨f, -, rfl⟩ := List.mem_map.1 hl
    exact f.line_noNewline
  · rw [List.mem_singleton.1 hl]
    decide

def firstPort : Port := ⟨"001".toList, by decide⟩

/-- A repository with one port, whose source consists of the suites. -/
def suitesRepo (ss : List Suite) : Repo :=
  ⟨fun _ => some (suitesText ss), fun _ => none, [firstPort], List.nodup_singleton _⟩

def anyTree : Tree := ⟨fun _ => true, fun _ => none⟩

/-- The loop of the script on this repository. -/
def installSuites (ss : List Suite) : Script Tree := installAll (suitesRepo ss) ⟨false, []⟩ (tests (suitesRepo ss))

theorem installSuites_ends (ss : List Suite) : ∃ r, Ends (installSuites ss) anyTree r :=
  installAll_total _ _ (fun _ _ => rfl) fun _ _ => rfl

theorem suite_wired_plain : ∃ r, Ends (installSuites [plainSuite]) anyTree r ∧
    EverySuiteWired [.suite plainSuite] (r.text (portEntry firstPort).sourceFile) := by
  obtain ⟨r, hr⟩ := installSuites_ends [plainSuite]
  have hinit : hasInit (suitesText [plainSuite]) = false := by decide
  exact ⟨r, hr, (every_suite_wired_iff _ _ _ _ _ _ _ List.mem_cons_self rfl (lines_suitesText _) hr).2 (Or.inl hinit)⟩

/-- A suite with an `.init` of its own leaves the other without. -/
theorem suite_not_wired_mixed : ∃ r, Ends (installSuites [initSuite, plainSuite]) anyTree r ∧
    ¬ EverySuiteWired [.suite initSuite, .suite plainSuite] (r.text (portEntry firstPort).sourceFile) := by
  obtain ⟨r, hr⟩ := installSuites_ends [initSuite, plainSuite]
  refine ⟨r, hr, fun hwired => ?_⟩
  have hps := lines_suitesText [initSuite, plainSuite]
  rw [installed_source List.mem_cons_self rfl hr] at hwired
  replace hwired := (adapted_wired_iff (portEntry_isPort _) _ hps).1 hwired
  have hinit : initSuite.HasInit := by decide
  have hplain : ¬ plainSuite.HasInit := by decide
  rcases hwired with hno | hall
  · rw [hasInit_of_suite hps List.mem_cons_self hinit] at hno
    cases hno
  · exact hplain (hall plainSuite (by simp [Piece.suites]))

end NfsPlayground.Wiring
