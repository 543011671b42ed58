import NfsPlayground.Wiring.Install

/-!
# Which tests end up listed

After the loop over `TESTS`, an entry is `Listed` when its object is on its line of the Makefile and its symbol has its
stanza in the Kconfig. The guards search the whole file for the name, as it grows: an entry stays out when a line that
an earlier entry added already contains it. `all_listed_iff` says that this is the only way.
-/

namespace NfsPlayground.Wiring

open Lines Pattern Resume

namespace Entry

variable (e : Entry)

/-- The Makefile and the Kconfig of the entry mention neither its name nor its symbol. -/
def Unmentioned (t : Tree) : Prop :=
  ¬ e.flat <:+: t.text e.makefile ∧ ¬ e.symbol <:+: t.text (e.kconfig t)

/-- The object is on a line of the Makefile for the symbol, and the symbol has a stanza in the Kconfig that was chosen
for it in the tree `t`. -/
def Listed (t r : Tree) : Prop :=
  e.objectLine ∈ lines (r.text e.makefile) ∧ e.configLine ∈ lines (r.text (e.kconfig t))

/-- The line of the object of `e` is taken for that of `i`. -/
def HidesObject (i : Entry) : Prop := e.subdir = i.subdir ∧ found i.object none e.objectLine = true

/-- The stanza of `e` mentions the symbol of `i`. -/
def HidesSymbol (t : Tree) (i : Entry) : Prop := e.kconfig t = i.kconfig t ∧ ∃ l ∈ e.stanza, i.symbol <:+: l

/-- Which stanza an entry is about. -/
def key (t : Tree) : Path × Text := (e.kconfig t, e.symbol)

end Entry

/-- The entries that are the first with their stanza. -/
def firsts (t : Tree) : List Entry → List Entry
  | [] => []
  | e :: es => e :: (firsts t es).filter fun i => i.key t ≠ e.key t

/-! ## The lines a pass adds -/

theorem not_mem_of_all {p : Char → Bool} {x : Text} {c : Char} (hp : p c = false) (h : x.all p = true) : c ∉ x := by
  intro hx
  rw [List.all_eq_true.1 h _ hx] at hp
  cases hp

namespace Entry

variable {e i : Entry}

/-- A character that no stem has is not in the flattened name. -/
theorem not_mem_flat (e : Entry) {c : Char} (hc : (isWordChar c || c == '/' || c == '-') = false) : c ∉ e.flat := by
  intro h
  obtain ⟨d, hd, heq⟩ := List.mem_map.1 h
  split at heq
  · subst heq
    cases hc
  · subst heq
    exact not_mem_of_all hc e.stem_ok hd

theorem flat_noNewline (e : Entry) : '\n' ∉ e.flat := e.not_mem_flat (by decide)

theorem symbol_noNewline (e : Entry) : '\n' ∉ e.symbol := not_mem_of_all (by decide) e.symbol_ok.2

theorem objectLine_noNewline (e : Entry) : '\n' ∉ e.objectLine := by
  have h₁ := e.flat_noNewline
  have h₂ := e.symbol_noNewline
  unfold objectLine
  simp [h₁, h₂]

theorem stanza_noNewline (e : Entry) : ∀ l ∈ e.stanza, '\n' ∉ l := by
  have h₁ := e.symbol_noNewline
  have h₂ := e.depends_ok
  have h₃ := e.description_ok
  have lit : ∀ {x : Text}, '\n' ∉ x → '\n' ∉ (String.ofList x).toList := not_mem_lit
  unfold stanza configLine
  simp only [List.mem_cons, forall_eq_or_imp, List.mem_append, not_or, h₁, h₂, h₃, not_false_eq_true, and_true,
    true_and, List.not_mem_nil, false_implies, implies_true, -String.reduceToList]
  exact ⟨lit (by decide), ⟨lit (by decide), lit (by decide)⟩, ⟨lit (by decide), lit (by decide)⟩, lit (by decide),
    lit (by decide), ⟨lit (by decide), lit (by decide)⟩, lit (by decide), lit (by decide)⟩

theorem flat_infix_objectLine (e : Entry) : e.flat <:+: e.objectLine :=
  ⟨"obj-$(CONFIG_".toList ++ e.symbol ++ ") += ".toList, ".o".toList, rfl⟩

theorem symbol_infix_configLine (e : Entry) : e.symbol <:+: e.configLine := ⟨"config ".toList, [], List.append_nil _⟩

/-- Two lines of objects are the same only for the same name. -/
theorem objectLine_inj (h : e.objectLine = i.objectLine) : e.flat = i.flat := by
  have hsym : ')' ∉ e.symbol := not_mem_of_all (by decide) e.symbol_ok.2
  have hflat : ')' ∉ e.flat := e.not_mem_flat (by decide)
  have htail : ')' ∉ " += ".toList ++ (e.flat ++ ".o".toList) := by simp [hflat]
  unfold objectLine at h
  simp only [List.append_assoc, List.append_right_inj] at h
  -- the symbol ends at the parenthesis
  have h' : e.symbol ++ ')' :: (" += ".toList ++ (e.flat ++ ".o".toList)) =
      i.symbol ++ ')' :: (" += ".toList ++ (i.flat ++ ".o".toList)) := h
  have heq := ((List.append_cons_inj_of_notMem hsym htail).1 h').2.2
  rwa [List.append_right_inj, List.append_left_inj] at heq

theorem configLine_inj : e.configLine = i.configLine ↔ e.symbol = i.symbol :=
  List.append_right_inj _

/-- Of the lines of a stanza only the first begins with a letter. -/
theorem eq_configLine {l : Text} (hl : l.head? = some 'c') (h : l ∈ e.stanza) : l = e.configLine := by
  have tab : ∀ {x : Text} (y : Text), ((String.ofList ('\t' :: x)).toList ++ y).head? ≠ some 'c' := fun y => by
    rw [head_lit]
    decide
  unfold stanza at h
  simp only [List.mem_cons, List.not_mem_nil, or_false, List.append_assoc, -String.reduceToList] at h
  rcases h with rfl | rfl | rfl | rfl | rfl | rfl | rfl | rfl | rfl
  · rfl
  · exact absurd hl (tab _)
  · exact absurd hl (tab _)
  · exact absurd ((congrArg List.head? (List.append_nil _)).trans hl) (tab [])
  · exact absurd ((congrArg List.head? (List.append_nil _)).trans hl) (tab [])
  · exact absurd hl (tab _)
  · cases hl
  · exact absurd ((congrArg List.head? (List.append_nil _)).trans hl) (tab [])
  · exact absurd ((congrArg List.head? (List.append_nil _)).trans hl) (tab [])

/-- So only the first starts a `config`. -/
theorem configLine_mem_stanza : i.configLine ∈ e.stanza ↔ i.symbol = e.symbol := by
  rw [← configLine_inj]
  exact ⟨eq_configLine (head_lit _), fun h => h ▸ List.mem_cons_self⟩

/-! ## What a pass does to the Makefiles and the Kconfigs -/

/-- The Makefile and the Kconfig of a directory are no sources. -/
def IsBuildFile (p : Path) : Prop := p.2 = "Makefile".toList ∨ p.2 = "Kconfig".toList

theorem IsBuildFile.ne {p : Path} (h : IsBuildFile p) (e : Entry) : p ≠ e.sourceFile ∧ p ≠ e.headerFile := by
  have hlast : p.2.getLast? = some 'e' ∨ p.2.getLast? = some 'g' := by
    rcases h with h | h <;> rw [h]
    · exact Or.inl (by decide)
    · exact Or.inr (by decide)
  constructor <;> rintro rfl
  · simp [sourceFile] at hlast
  · simp [headerFile] at hlast

/-- A pass that ends has left the build files alone but for the two additions. -/
theorem install_ends {repo : Repo} {v : Variant} {t r : Tree} (h : Ends (e.install repo v) t r) :
    ∃ m m', (∀ p, IsBuildFile p → m.file p = t.file p) ∧ m' = (if e.hasObject m then m else e.addObject m) ∧
      r = if e.hasSymbol m' then m' else e.addSymbol m' := by
  unfold install at h
  rw [ends_branch] at h
  split at h
  · exact absurd h ends_die
  obtain ⟨m₁, h₁, h⟩ := ends_seq.1 h
  obtain ⟨m₂, h₂, h⟩ := ends_seq.1 h
  obtain ⟨m₃, h₃, h⟩ := ends_seq.1 h
  refine ⟨m₂, m₃, fun p hp => ?_, ends_guarded.1 h₃, ends_guarded.1 h⟩
  have hsrc := (installSource_keeps (I := fun m => m.file p = t.file p) repo v fun m x hm => by
    rw [Tree.file_put_ne (hp.ne e).1, hm]).ends rfl h₁
  exact (installHeader_keeps (I := fun m => m.file p = t.file p) repo fun m x hm => by
    rw [Tree.file_put_ne (hp.ne e).2, hm]).ends hsrc h₂

theorem makefile_isBuildFile (e : Entry) : IsBuildFile e.makefile := Or.inl rfl

theorem kconfig_isBuildFile (e : Entry) (t : Tree) : IsBuildFile (e.kconfig t) := by
  unfold kconfig
  split <;> exact Or.inr rfl

theorem makefile_ne_kconfig (e i : Entry) (t : Tree) : e.makefile ≠ i.kconfig t := by
  intro h
  have h2 : "Makefile".toList = (i.kconfig t).2 := congrArg Prod.snd h
  unfold kconfig at h2
  split at h2
  · exact absurd h2 (show "Makefile".toList ≠ "Kconfig".toList by decide)
  · exact absurd h2 (show "Makefile".toList ≠ "Kconfig".toList by decide)

theorem text_congr {t m : Tree} {p : Path} (h : m.file p = t.file p) : m.text p = t.text p := by
  rw [Tree.text, h, Tree.text]

theorem kconfig_congr {t m : Tree} (h : m.file (e.subdir, "Kconfig".toList) = t.file (e.subdir, "Kconfig".toList)) :
    e.kconfig m = e.kconfig t := by
  unfold kconfig Tree.isFile
  rw [h]

/-- A Kconfig that is created is the one that was chosen for want of another. -/
theorem kconfig_put (e i : Entry) (t : Tree) (x : Text) : i.kconfig (t.put (e.kconfig t) x) = i.kconfig t := by
  unfold kconfig
  generalize "Kconfig".toList = k
  generalize "fs".toList = fs
  rw [Tree.isFile_put]
  by_cases hi : t.isFile (i.subdir, k)
  · simp [hi]
  by_cases he : t.isFile (e.subdir, k)
  · have hne : i.subdir ≠ e.subdir := fun heq => hi (heq ▸ he)
    simp [hi, he, hne]
  · by_cases hfs : i.subdir = fs
    · simp [hfs]
    · simp [hi, he, hfs]

section Install

variable {repo : Repo} {v : Variant} {t r : Tree}

/-- The lines of a Makefile after a pass. -/
theorem install_makefile (h : Ends (e.install repo v) t r) (i : Entry) {p : Text → Bool} (hp : p [] = false) :
    anyLine p (r.text i.makefile) =
      (anyLine p (t.text i.makefile) || (e.subdir = i.subdir && !e.hasObject t && p e.objectLine)) := by
  obtain ⟨m, m', hm, rfl, rfl⟩ := install_ends h
  have htext : ∀ j : Entry, m.text j.makefile = t.text j.makefile := fun j => text_congr (hm _ j.makefile_isBuildFile)
  have hobj : e.hasObject m = e.hasObject t := by rw [hasObject, htext, hasObject]
  have hkeep : ∀ m', (if e.hasSymbol m' then m' else e.addSymbol m').text i.makefile = m'.text i.makefile := by
    intro m'
    split
    · rfl
    · rw [addSymbol, Tree.append, Tree.text_put_ne (makefile_ne_kconfig i e m')]
  rw [hkeep, hobj]
  cases ho : e.hasObject t with
  | true => simp [htext]
  | false =>
    simp only [Bool.false_eq_true, if_false, addObject, Tree.append]
    by_cases hd : e.subdir = i.subdir
    · have hmk : i.makefile = e.makefile := by simp only [makefile, hd]
      rw [hmk, Tree.text_put_self, htext, anyLine_append_line hp _ e.objectLine_noNewline]
      simp [hd]
    · have hmk : i.makefile ≠ e.makefile := fun heq => hd (congrArg Prod.fst heq).symm
      rw [Tree.text_put_ne hmk, htext]
      simp [hd]

/-- The Kconfigs that are chosen, and their lines after a pass. -/
theorem install_kconfig (h : Ends (e.install repo v) t r) (i : Entry) :
    i.kconfig r = i.kconfig t ∧ ∀ {p : Text → Bool}, p [] = false → anyLine p (r.text (i.kconfig t)) =
      (anyLine p (t.text (i.kconfig t)) || (e.kconfig t = i.kconfig t && !e.hasSymbol t && e.stanza.any p)) := by
  obtain ⟨m, m', hm, rfl, rfl⟩ := install_ends h
  have hfile : ∀ q : Path, q.2 = "Kconfig".toList →
      (if e.hasObject m then m else e.addObject m).file q = t.file q := by
    intro q hq
    rw [← hm q (Or.inr hq)]
    split
    · rfl
    · refine Tree.file_put_ne (fun heq => ?_) _
      rw [heq] at hq
      exact absurd hq (show "Makefile".toList ≠ "Kconfig".toList by decide)
  generalize (if e.hasObject m then m else e.addObject m) = m' at hfile
  have hk : ∀ j : Entry, j.kconfig m' = j.kconfig t := fun j => kconfig_congr (hfile _ rfl)
  have htext : ∀ j : Entry, m'.text (j.kconfig t) = t.text (j.kconfig t) := fun j =>
    text_congr (hfile _ (by unfold kconfig; split <;> rfl))
  have hsym : e.hasSymbol m' = e.hasSymbol t := by rw [hasSymbol, hk, htext, hasSymbol]
  rw [hsym]
  cases hs : e.hasSymbol t with
  | true => simp [hk, htext]
  | false =>
    simp only [Bool.false_eq_true, if_false, addSymbol, Tree.append, hk]
    refine ⟨?_, fun hp => ?_⟩
    · rw [← hk e, kconfig_put, hk]
    · by_cases hd : i.kconfig t = e.kconfig t
      · rw [hd, Tree.text_put_self, htext, anyLine_append_lines hp _ e.stanza_noNewline]
        simp
      · rw [Tree.text_put_ne hd, htext]
        simp [Ne.symm hd]

/-! ## The guards and the lines after a pass -/

theorem object_not_found_nil (i : Entry) : found i.object none [] = false := by
  rw [Bool.eq_false_iff, ne_eq, found_iff]
  rintro ⟨u, ss, rest, hnil, hf⟩
  obtain ⟨s₁, _, rfl, -, hf⟩ := fits_cons.1 hf
  obtain ⟨s₂, _, rfl, ⟨c, rfl, -⟩, hf⟩ := fits_cons.1 hf
  simp at hnil

theorem symbol_not_found_nil (i : Entry) : found [.lit i.symbol] none [] = false := found_lit_nil i.symbol_ok.1

theorem install_hasObject (h : Ends (e.install repo v) t r) (i : Entry) :
    i.hasObject r = true ↔ i.hasObject t = true ∨ (e.hasObject t = false ∧ e.HidesObject i) := by
  unfold hasObject grep HidesObject
  rw [install_makefile h i i.object_not_found_nil]
  simp only [Bool.or_eq_true, Bool.and_eq_true, decide_eq_true_eq, Bool.not_eq_true', hasObject, grep]
  tauto

theorem install_objectLine (h : Ends (e.install repo v) t r) (i : Entry) :
    i.objectLine ∈ lines (r.text i.makefile) ↔ i.objectLine ∈ lines (t.text i.makefile) ∨
      (e.subdir = i.subdir ∧ e.hasObject t = false ∧ e.objectLine = i.objectLine) := by
  have hne : (([] : Text) == i.objectLine) = false := by
    unfold objectLine
    simp
  rw [mem_lines_iff, mem_lines_iff, install_makefile h i hne]
  simp only [Bool.or_eq_true, Bool.and_eq_true, decide_eq_true_eq, Bool.not_eq_true', beq_iff_eq, and_assoc]

/-- The symbol has no stanza yet. -/
def Fresh (i : Entry) (t : Tree) : Prop := i.configLine ∉ lines (t.text (i.kconfig t))

instance (i : Entry) (t : Tree) : Decidable (i.Fresh t) := inferInstanceAs (Decidable (¬ _))

/-- A stanza is found by its symbol. -/
theorem hasSymbol_of_not_fresh {i : Entry} (h : ¬ i.Fresh t) : i.hasSymbol t = true := by
  unfold hasSymbol grep anyLine
  rw [List.any_eq_true]
  exact ⟨_, not_not.1 h, found_lit_iff.2 i.symbol_infix_configLine⟩

theorem install_hasSymbol (h : Ends (e.install repo v) t r) (i : Entry) :
    i.hasSymbol r = true ↔ i.hasSymbol t = true ∨ (e.hasSymbol t = false ∧ e.HidesSymbol t i) := by
  obtain ⟨hk, hlines⟩ := install_kconfig h i
  have hany : (e.stanza.any (found [.lit i.symbol] none) = true) ↔ ∃ l ∈ e.stanza, i.symbol <:+: l := by
    simp [found_lit_iff]
  unfold HidesSymbol
  rw [← hany, hasSymbol, grep, hk, hlines i.symbol_not_found_nil]
  simp only [Bool.or_eq_true, Bool.and_eq_true, decide_eq_true_eq, Bool.not_eq_true', hasSymbol, grep]
  tauto

theorem install_fresh (h : Ends (e.install repo v) t r) (i : Entry) :
    i.Fresh r ↔ i.Fresh t ∧ ¬ (e.hasSymbol t = false ∧ i.key t = e.key t) := by
  obtain ⟨hk, hlines⟩ := install_kconfig h i
  have hne : (([] : Text) == i.configLine) = false := by
    unfold configLine
    simp
  have hany : (e.stanza.any (· == i.configLine) = true) ↔ i.symbol = e.symbol := by
    rw [← configLine_mem_stanza]
    simp
  unfold Fresh key
  rw [hk, mem_lines_iff, mem_lines_iff, hlines hne, Bool.or_eq_true, not_or, Bool.and_eq_true, Bool.and_eq_true, hany]
  simp only [decide_eq_true_eq, Bool.not_eq_true', Prod.mk.injEq]
  tauto

end Install

end Entry

/-! ## The loop -/

section Loop

variable {repo : Repo} {v : Variant}

/-- Two entries for the same object. -/
def SameObject (e i : Entry) : Prop := (e.subdir, e.flat) = (i.subdir, i.flat)

/-- A line of an object comes from the Makefile before or from an entry for the object. -/
theorem loop_objectLine (i : Entry) : ∀ {es : List Entry} {t r : Tree}, Ends (installAll repo v es) t r →
    (i.objectLine ∈ lines (t.text i.makefile) → i.objectLine ∈ lines (r.text i.makefile)) ∧
    (i.objectLine ∈ lines (r.text i.makefile) →
      i.objectLine ∈ lines (t.text i.makefile) ∨ ∃ e ∈ es, SameObject i e)
  | [], t, r, h => by
    rw [ends_skip.1 h]
    exact ⟨id, Or.inl⟩
  | e :: es, t, r, h => by
    obtain ⟨m, he, h⟩ := ends_seq.1 h
    obtain ⟨hkeep, hfrom⟩ := loop_objectLine i h
    have hm := Entry.install_objectLine he i
    refine ⟨fun hi => hkeep (hm.2 (Or.inl hi)), fun hi => ?_⟩
    rcases hfrom hi with hi | ⟨j, hj, hs⟩
    · rcases hm.1 hi with hi | ⟨hdir, -, hline⟩
      · exact Or.inl hi
      · refine Or.inr ⟨e, List.mem_cons_self, ?_⟩
        rw [SameObject, hdir, Entry.objectLine_inj hline]
    · exact Or.inr ⟨j, List.mem_cons_of_mem _ hj, hs⟩

/-- All objects end up on their lines exactly when none is found before its turn. -/
theorem objects_listed_iff : ∀ {es : List Entry} {t r : Tree}, Ends (installAll repo v es) t r →
    es.Pairwise (fun e i => ¬ SameObject e i) → (∀ e ∈ es, e.objectLine ∉ lines (t.text e.makefile)) →
    ((∀ e ∈ es, e.objectLine ∈ lines (r.text e.makefile)) ↔
      (∀ e ∈ es, e.hasObject t = false) ∧ es.Pairwise fun e i => ¬ e.HidesObject i)
  | [], _, _, _, _, _ => by simp
  | e :: es, t, r, h, hd, hnew => by
    obtain ⟨m, he, h⟩ := ends_seq.1 h
    rw [List.pairwise_cons] at hd
    have hline := Entry.install_objectLine he
    have hnew_m : ∀ i ∈ es, i.objectLine ∉ lines (m.text i.makefile) := by
      intro i hi hmem
      rcases (hline i).1 hmem with hmem | ⟨hdir, -, heq⟩
      · exact hnew i (List.mem_cons_of_mem _ hi) hmem
      · exact hd.1 i hi (by rw [SameObject, hdir, Entry.objectLine_inj heq])
    have ih := objects_listed_iff h hd.2 hnew_m
    rw [List.forall_mem_cons, List.forall_mem_cons, List.pairwise_cons, ih]
    cases ho : e.hasObject t with
    | true =>
      -- the entry is passed over, and no other entry adds its line
      refine iff_of_false (fun hall => ?_) (by simp)
      rcases (loop_objectLine e h).2 hall.1 with hmem | ⟨i, hi, hs⟩
      · rcases (hline e).1 hmem with hmem | ⟨-, hno, -⟩
        · exact hnew e List.mem_cons_self hmem
        · rw [ho] at hno
          cases hno
      · exact hd.1 i hi hs
    | false =>
      have hself : e.objectLine ∈ lines (r.text e.makefile) :=
        (loop_objectLine e h).1 ((hline e).2 (Or.inr ⟨rfl, ho, rfl⟩))
      have hobj : ∀ i : Entry, i.hasObject m = false ↔ i.hasObject t = false ∧ ¬ e.HidesObject i := fun i => by
        have := Entry.install_hasObject he i
        simp only [ho, true_and] at this
        rw [← Bool.not_eq_true, this, not_or, Bool.not_eq_true]
      simp only [hobj, hself, true_and]
      constructor
      · rintro ⟨hall, hp⟩
        exact ⟨fun i hi => (hall i hi).1, fun i hi => (hall i hi).2, hp⟩
      · rintro ⟨h₁, h₂, hp⟩
        exact ⟨fun i hi => ⟨h₁ i hi, h₂ i hi⟩, hp⟩

theorem loop_kconfig (i : Entry) : ∀ {es : List Entry} {t r : Tree}, Ends (installAll repo v es) t r →
    i.kconfig r = i.kconfig t
  | [], _, _, h => by rw [ends_skip.1 h]
  | e :: es, t, r, h => by
    obtain ⟨m, he, h⟩ := ends_seq.1 h
    rw [loop_kconfig i h, (Entry.install_kconfig he i).1]

/-- A stanza stays, and an entry that is passed over without one never gets one. -/
theorem loop_fresh (i : Entry) : ∀ {es : List Entry} {t r : Tree}, Ends (installAll repo v es) t r →
    (¬ i.Fresh t → ¬ i.Fresh r) ∧ (i.Fresh t → i.hasSymbol t = true → i.Fresh r)
  | [], _, _, h => by
    rw [ends_skip.1 h]
    exact ⟨id, fun hf _ => hf⟩
  | e :: es, t, r, h => by
    obtain ⟨m, he, h⟩ := ends_seq.1 h
    obtain ⟨hkeep, hstuck⟩ := loop_fresh i h
    have hm := Entry.install_fresh he i
    refine ⟨fun hf => hkeep fun hf' => hf (hm.1 hf').1, fun hf hs => hstuck (hm.2 ⟨hf, ?_⟩) ?_⟩
    · -- an entry for the same stanza is passed over as well
      rintro ⟨hno, hkey⟩
      have hsame : e.hasSymbol t = i.hasSymbol t := by
        simp only [Entry.key, Prod.mk.injEq] at hkey
        rw [Entry.hasSymbol, Entry.hasSymbol, hkey.1, hkey.2]
      rw [hsame, hs] at hno
      cases hno
    · exact (Entry.install_hasSymbol he i).2 (Or.inl hs)

theorem fresh_congr {e i : Entry} {t : Tree} (h : i.key t = e.key t) : i.Fresh t ↔ e.Fresh t := by
  simp only [Entry.key, Prod.mk.injEq] at h
  unfold Entry.Fresh Entry.configLine
  rw [h.1, h.2]

theorem firsts_congr {t m : Tree} (h : ∀ i : Entry, i.kconfig m = i.kconfig t) (es : List Entry) :
    firsts m es = firsts t es := by
  have hkey : ∀ i : Entry, i.key m = i.key t := fun i => by rw [Entry.key, h, Entry.key]
  induction es with
  | nil => rfl
  | cons e es ih => simp only [firsts, ih, hkey]

/-- All symbols end up with a stanza exactly when none of those that need one is found before its turn. -/
theorem symbols_listed_iff : ∀ {es : List Entry} {t r : Tree}, Ends (installAll repo v es) t r →
    ((∀ e ∈ es, ¬ e.Fresh r) ↔
      (∀ e ∈ (firsts t es).filter (·.Fresh t), e.hasSymbol t = false) ∧
        ((firsts t es).filter (·.Fresh t)).Pairwise fun e i => ¬ e.HidesSymbol t i)
  | [], _, _, _ => by simp [firsts]
  | e :: es, t, r, h => by
    obtain ⟨m, he, h⟩ := ends_seq.1 h
    have hk : ∀ i : Entry, i.kconfig m = i.kconfig t := fun i => (Entry.install_kconfig he i).1
    have hfresh := Entry.install_fresh he
    have ih := symbols_listed_iff h
    have hhide : ∀ j i : Entry, j.HidesSymbol m i ↔ j.HidesSymbol t i := fun j i => by
      unfold Entry.HidesSymbol
      rw [hk, hk]
    rw [firsts_congr hk] at ih
    rw [List.forall_mem_cons, ih]
    by_cases hf : e.Fresh t
    swap
    · -- the stanza is there already
      have hs := Entry.hasSymbol_of_not_fresh hf
      have hsame : ∀ i : Entry, i.Fresh m ↔ i.Fresh t := fun i => by simp [hfresh i, hs]
      have hsym : ∀ i : Entry, i.hasSymbol m = i.hasSymbol t := fun i => by
        have := Entry.install_hasSymbol he i
        simp only [hs, Bool.true_eq_false, false_and, or_false] at this
        exact Bool.eq_iff_iff.2 this
      have hlist : (firsts t (e :: es)).filter (·.Fresh t) = (firsts t es).filter (·.Fresh m) := by
        rw [firsts, List.filter_cons_of_neg (by simpa using hf), List.filter_filter]
        refine List.filter_congr fun i _ => ?_
        have hkey : i.Fresh t → i.key t ≠ e.key t := fun hi heq => hf ((fresh_congr heq).1 hi)
        rw [Bool.eq_iff_iff]
        simp only [hsame, Bool.and_eq_true, decide_eq_true_eq]
        exact ⟨fun hi => hi.1, fun hi => ⟨hi, hkey hi⟩⟩
      rw [hlist, and_iff_right ((loop_fresh e h).1 (mt (hsame e).1 hf))]
      simp only [hsym, hhide]
    cases hs : e.hasSymbol t with
    | true =>
      -- the entry is passed over, and stays without a stanza
      have hstuck := (loop_fresh e h).2 ((hfresh e).2 ⟨hf, by simp [hs]⟩)
        ((Entry.install_hasSymbol he e).2 (Or.inl hs))
      refine iff_of_false (fun hall => hall.1 hstuck) fun hall => ?_
      have := hall.1 e (List.mem_filter.2 ⟨List.mem_cons_self, by simpa using hf⟩)
      rw [hs] at this
      cases this
    | false =>
      have hself : ¬ e.Fresh r := (loop_fresh e h).1 fun hf' => ((hfresh e).1 hf').2 ⟨hs, rfl⟩
      have hlist : (firsts t (e :: es)).filter (·.Fresh t) = e :: (firsts t es).filter (·.Fresh m) := by
        rw [firsts, List.filter_cons_of_pos (by simpa using hf), List.filter_filter]
        refine congrArg (e :: ·) (List.filter_congr fun i _ => ?_)
        rw [Bool.eq_iff_iff]
        simp only [hfresh, hs, true_and, Bool.and_eq_true, decide_eq_true_eq, ne_eq]
      have hsym : ∀ i : Entry, i.hasSymbol m = false ↔ i.hasSymbol t = false ∧ ¬ e.HidesSymbol t i := fun i => by
        have := Entry.install_hasSymbol he i
        simp only [hs, true_and] at this
        rw [← Bool.not_eq_true, this, not_or, Bool.not_eq_true]
      rw [hlist, List.forall_mem_cons, List.pairwise_cons]
      simp only [hself, not_false_eq_true, true_and, hsym, hs, hhide]
      constructor
      · rintro ⟨hall, hp⟩
        exact ⟨fun i hi => (hall i hi).1, fun i hi => (hall i hi).2, hp⟩
      · rintro ⟨h₁, h₂, hp⟩
        exact ⟨fun i hi => ⟨h₁ i hi, h₂ i hi⟩, hp⟩

end Loop

/-! ## All entries -/

namespace Entry

variable {e : Entry} {t : Tree}

theorem Unmentioned.objectLine (h : e.Unmentioned t) : e.objectLine ∉ lines (t.text e.makefile) := fun hmem =>
  h.1 (e.flat_infix_objectLine.trans (infix_of_mem_lines hmem))

theorem Unmentioned.fresh (h : e.Unmentioned t) : e.Fresh t := fun hmem =>
  h.2 (e.symbol_infix_configLine.trans (infix_of_mem_lines hmem))

theorem Unmentioned.hasSymbol (h : e.Unmentioned t) : e.hasSymbol t = false := by
  rw [Bool.eq_false_iff, ne_eq, Entry.hasSymbol, grep, anyLine, List.any_eq_true]
  rintro ⟨l, hl, hfound⟩
  exact h.2 ((found_lit_iff.1 hfound).trans (infix_of_mem_lines hl))

theorem Unmentioned.hasObject (h : e.Unmentioned t) : e.hasObject t = false := by
  rw [Bool.eq_false_iff, ne_eq, Entry.hasObject, grep, anyLine, List.any_eq_true]
  rintro ⟨l, hl, hfound⟩
  obtain ⟨u, ss, rest, rfl, hf⟩ := found_iff.1 hfound
  obtain ⟨s, ss, rfl, rfl, -⟩ := fits_cons.1 hf
  refine h.1 (List.IsInfix.trans ?_ (infix_of_mem_lines hl))
  exact ⟨u, ss.flatten ++ rest, by simp⟩

end Entry

theorem mem_firsts {t : Tree} : ∀ {es : List Entry} {e : Entry}, e ∈ firsts t es → e ∈ es
  | e :: _, i, h => by
    rcases List.mem_cons.1 h with rfl | h
    · exact List.mem_cons_self
    · exact List.mem_cons_of_mem _ (mem_firsts (List.mem_filter.1 h).1)

/-- **Which suites are wired.** In a tree whose Makefiles and Kconfigs mention none of the entries, all entries end up
listed exactly when no entry's object line is taken for the object of a later entry in the same directory, and no stanza
that is written mentions the symbol of a later one in the same Kconfig. -/
theorem all_listed_iff (repo : Repo) (v : Variant) (es : List Entry) (t r : Tree)
    (hr : Ends (installAll repo v es) t r) (hdistinct : es.Pairwise fun e i => ¬ SameObject e i)
    (hnew : ∀ e ∈ es, e.Unmentioned t) :
    (∀ e ∈ es, e.Listed t r) ↔
      es.Pairwise (fun e i => ¬ e.HidesObject i) ∧ (firsts t es).Pairwise fun e i => ¬ e.HidesSymbol t i := by
  have hobjects := objects_listed_iff hr hdistinct fun e he => (hnew e he).objectLine
  have hsymbols := symbols_listed_iff hr
  have hall : (firsts t es).filter (·.Fresh t) = firsts t es :=
    List.filter_eq_self.2 fun e he => by simpa using (hnew e (mem_firsts he)).fresh
  rw [hall, and_iff_right fun e he => (hnew e (mem_firsts he)).hasSymbol] at hsymbols
  rw [and_iff_right fun e he => (hnew e he).hasObject] at hobjects
  rw [← hobjects, ← hsymbols, ← forall₂_and]
  refine forall₂_congr fun e _ => ?_
  rw [Entry.Listed, Entry.Fresh, not_not, loop_kconfig e hr]

/-- Of two entries, the second is not listed when the line of the first is taken for its own. -/
theorem hidden_object {repo : Repo} {v : Variant} {e i : Entry} {t r : Tree}
    (hr : Ends (installAll repo v [e, i]) t r) (hd : ¬ SameObject e i) (he : e.Unmentioned t) (hi : i.Unmentioned t)
    (h : e.HidesObject i) : i.objectLine ∉ lines (r.text i.makefile) := by
  obtain ⟨m, h₁, h₂⟩ := ends_seq.1 hr
  obtain ⟨r', h₃, h₄⟩ := ends_seq.1 h₂
  obtain rfl := ends_skip.1 h₄
  have hm : i.hasObject m = true := (Entry.install_hasObject h₁ i).2 (Or.inr ⟨he.hasObject, h⟩)
  rw [Entry.install_objectLine h₃, Entry.install_objectLine h₁]
  rintro ((hmem | ⟨hdir, -, heq⟩) | ⟨-, hno, -⟩)
  · exact hi.objectLine hmem
  · exact hd (by rw [SameObject, hdir, Entry.objectLine_inj heq])
  · rw [hm] at hno
    cases hno

/-- Nor when the stanza of the first mentions its symbol. -/
theorem hidden_symbol {repo : Repo} {v : Variant} {e i : Entry} {t r : Tree}
    (hr : Ends (installAll repo v [e, i]) t r) (hne : i.symbol ≠ e.symbol) (he : e.Unmentioned t)
    (hi : i.Unmentioned t) (h : e.HidesSymbol t i) : i.configLine ∉ lines (r.text (i.kconfig t)) := by
  obtain ⟨m, h₁, h₂⟩ := ends_seq.1 hr
  have hfresh : i.Fresh m := (Entry.install_fresh h₁ i).2 ⟨hi.fresh, fun hk => hne (congrArg Prod.snd hk.2)⟩
  have hm : i.hasSymbol m = true := (Entry.install_hasSymbol h₁ i).2 (Or.inr ⟨he.hasSymbol, h⟩)
  rw [← loop_kconfig i hr]
  exact (loop_fresh i h₂).2 hfresh hm

/-! ## Two trees -/

instance (e : Entry) (t : Tree) : Decidable (e.Unmentioned t) := inferInstanceAs (Decidable (_ ∧ _))

instance (e : Entry) (t r : Tree) : Decidable (e.Listed t r) := inferInstanceAs (Decidable (_ ∧ _))

instance (e i : Entry) : Decidable (e.HidesObject i) := inferInstanceAs (Decidable (_ ∧ _))

instance (e i : Entry) (t : Tree) : Decidable (e.HidesSymbol t i) := inferInstanceAs (Decidable (_ ∧ _))

instance (e i : Entry) : Decidable (SameObject e i) := inferInstanceAs (Decidable (_ = _))

/-- A repository whose sources are all the same, and a directory with a Makefile and a Kconfig. -/
def plainRepo : Repo := ⟨fun _ => some "int x;\n".toList, fun _ => none, [], .nil⟩

def plainTree : Tree where
  isDir d := d = "net/sunrpc".toList
  file := fun p =>
    if p = ("net/sunrpc".toList, "Makefile".toList) then some "obj-y += sched.o\n".toList
    else if p = ("net/sunrpc".toList, "Kconfig".toList) then some "config SUNRPC\n\ttristate\n".toList
    else none

def addrEntry : Entry where
  stem := "addr_test".toList
  subdir := "net/sunrpc".toList
  symbol := "ADDR_KUNIT_TEST".toList
  depends := "SUNRPC".toList
  description := "SunRPC address conversion".toList
  stem_ok := by decide
  symbol_ok := by decide
  depends_ok := by decide
  description_ok := by decide

/-- Its name and its symbol end in those of `addrEntry`. -/
def xaddrEntry : Entry where
  stem := "xaddr_test".toList
  subdir := "net/sunrpc".toList
  symbol := "XADDR_KUNIT_TEST".toList
  depends := "SUNRPC".toList
  description := "SunRPC extended addresses".toList
  stem_ok := by decide
  symbol_ok := by decide
  depends_ok := by decide
  description_ok := by decide

/-- The tree after the loop over the entries. -/
def wired (es : List Entry) : Tree := last plainTree (installAll plainRepo ⟨false, []⟩ es plainTree).1

theorem wired_ends (es : List Entry) (hdir : ∀ e ∈ es, plainTree.isDir e.subdir = true) :
    Ends (installAll plainRepo ⟨false, []⟩ es) plainTree (wired es) := by
  obtain ⟨r, hr⟩ := installAll_total plainRepo ⟨false, []⟩ hdir fun _ _ => rfl
  exact hr.ends_last

theorem addrEntry_unmentioned : addrEntry.Unmentioned plainTree := by decide

theorem xaddrEntry_unmentioned : xaddrEntry.Unmentioned plainTree := by decide

/-- In this order both are listed. -/
theorem all_listed_addr_first : addrEntry.Listed plainTree (wired [addrEntry, xaddrEntry]) ∧
    xaddrEntry.Listed plainTree (wired [addrEntry, xaddrEntry]) := by
  have hall : ∀ e ∈ [addrEntry, xaddrEntry], e.Listed plainTree (wired [addrEntry, xaddrEntry]) :=
    (all_listed_iff plainRepo ⟨false, []⟩ [addrEntry, xaddrEntry] plainTree _ (wired_ends _ (by decide)) (by decide)
      (by simp [addrEntry_unmentioned, xaddrEntry_unmentioned])).2 (by decide +kernel)
  exact ⟨hall addrEntry (by simp), hall xaddrEntry (by simp)⟩

/-- In the other, the lines of the first are taken for those of the second, which is neither built nor offered. -/
theorem addr_not_listed_last : Ends (installAll plainRepo ⟨false, []⟩ [xaddrEntry, addrEntry]) plainTree
      (wired [xaddrEntry, addrEntry]) ∧
    [xaddrEntry, addrEntry].Pairwise (fun e i => ¬ SameObject e i) ∧
    (∀ e ∈ [xaddrEntry, addrEntry], e.Unmentioned plainTree) ∧
    addrEntry.objectLine ∉ lines ((wired [xaddrEntry, addrEntry]).text addrEntry.makefile) ∧
    addrEntry.configLine ∉ lines ((wired [xaddrEntry, addrEntry]).text (addrEntry.kconfig plainTree)) ∧
    ¬ ∀ e ∈ [xaddrEntry, addrEntry], e.Listed plainTree (wired [xaddrEntry, addrEntry]) := by
  have hr := wired_ends [xaddrEntry, addrEntry] (by decide)
  have hd : ¬ SameObject xaddrEntry addrEntry := by decide
  have hobj := hidden_object hr hd xaddrEntry_unmentioned addrEntry_unmentioned (by decide)
  have hsym := hidden_symbol hr (by decide) xaddrEntry_unmentioned addrEntry_unmentioned
    ⟨rfl, xaddrEntry.configLine, Entry.configLine_mem_stanza.2 rfl, by decide⟩
  refine ⟨hr, by simpa using hd, by simp [addrEntry_unmentioned, xaddrEntry_unmentioned], hobj, hsym, fun hall => ?_⟩
  exact hobj (hall addrEntry (by simp)).1

end NfsPlayground.Wiring
