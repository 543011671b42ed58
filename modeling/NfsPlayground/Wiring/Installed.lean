import NfsPlayground.Wiring.Listed

/-!
# Installing is resumable

An entry of `TESTS` is `Installed` when its source is there as the script adapts it, its header is there, and the two
guards find its object and its symbol. The source is copied anew on every run, so an interrupted edit of it leaves no
trace (`overwrite_resumable`); the additions are recognised by their guards. What an entry has installed the entries for
other objects keep (`installed_keeps`).
-/

namespace NfsPlayground.Wiring

open Lines Pattern Resume

/-- A script that writes one file, whatever it holds. -/
theorem overwrite_resumable {a : Script Tree} {p : Path} {y : Text} (hends : ∀ t r, Ends a t r ↔ r = t.put p y)
    (hkeeps : ∀ t : Tree, Keeps (fun m => m.put p y = t.put p y) a) : Resumable a fun t => t.file p = some y where
  resumes t r he m hm := by
    rw [hends] at he ⊢
    rw [he, hkeeps t t rfl m hm]
  reaches {t r} he := by
    rw [(hends t r).1 he, Tree.file_put_self]
  settled h := (hends _ _).2 (Tree.put_self h).symm

namespace Entry

variable {e i : Entry} {repo : Repo} {v : Variant} {t r : Tree}

/-! ## The source and the header -/

/-- The copied source. -/
theorem installSource_resumable (e : Entry) (repo : Repo) (v : Variant) : Resumable (e.installSource repo v)
    fun t => ∃ x, repo.c e.stem = some x ∧ t.file e.sourceFile = some (e.adapted v x) := by
  cases hx : repo.c e.stem with
  | none =>
    have hdie : e.installSource repo v = die := by unfold installSource; rw [hx]
    simpa [hdie] using die_resumable (σ := Tree)
  | some x =>
    have h := overwrite_resumable (fun t r => installSource_ends (v := v) (t := t) (r := r) hx) fun t =>
      installSource_keeps (I := fun m => m.put e.sourceFile (e.adapted v x) = t.put e.sourceFile (e.adapted v x)) repo v
        fun m z hm => by rw [Tree.put_put, hm]
    simpa using h

/-- The copied header, for a stem that has one. -/
theorem installHeader_resumable (e : Entry) (repo : Repo) : Resumable (e.installHeader repo)
    fun t => ∀ x, repo.h e.stem = some x → t.file e.headerFile = some x := by
  unfold installHeader
  cases hx : repo.h e.stem with
  | none => simpa using skip_resumable (σ := Tree)
  | some x =>
    have h := overwrite_resumable (a := edit fun t : Tree => t.put e.headerFile x) (p := e.headerFile) (y := x)
      (fun t r => by rw [ends_edit, eq_comm]) fun t => keeps_edit fun m hm => by rw [Tree.put_put, hm]
    simpa using h

/-! ## The object and the symbol -/

/-- The guard finds the line it guards. -/
theorem object_found (e : Entry) : found e.object none e.objectLine = true := by
  refine found_iff.2 ⟨"obj-$(CONFIG_".toList ++ e.symbol ++ ") += ".toList,
    [e.flat, ['.'], "o".toList], [], ?_, rfl, ⟨'.', rfl, rfl⟩, rfl, trivial⟩
  unfold objectLine
  simp

theorem hasObject_addObject (e : Entry) (t : Tree) : e.hasObject (e.addObject t) = true := by
  unfold hasObject addObject grep Tree.append
  rw [Tree.text_put_self, anyLine_append_line e.object_not_found_nil _ e.objectLine_noNewline, object_found,
    Bool.or_true]

theorem hasObject_put {p : Path} (hp : p ≠ e.makefile) (x : Text) : e.hasObject (t.put p x) = e.hasObject t := by
  rw [hasObject, Tree.text_put_ne hp.symm, hasObject]

/-- An object stays found when the line of another is added. -/
theorem hasObject_addObject_of (i : Entry) (h : e.hasObject t = true) : e.hasObject (i.addObject t) = true := by
  unfold addObject Tree.append
  by_cases hp : i.makefile = e.makefile
  · unfold hasObject grep at h ⊢
    rw [hp, Tree.text_put_self, anyLine_append e.object_not_found_nil, h, Bool.true_or]
  · rwa [hasObject_put hp]

theorem hasSymbol_addSymbol (e : Entry) (t : Tree) : e.hasSymbol (e.addSymbol t) = true := by
  unfold hasSymbol addSymbol Tree.append
  rw [kconfig_put, Tree.text_put_self, grep, anyLine_append_lines e.symbol_not_found_nil _ e.stanza_noNewline,
    Bool.or_eq_true, List.any_eq_true]
  exact Or.inr ⟨e.configLine, configLine_mem_stanza.2 rfl, found_lit_iff.2 e.symbol_infix_configLine⟩

/-- Only a Kconfig bears on the symbol. -/
theorem hasSymbol_put {p : Path} (hp : p.2 ≠ "Kconfig".toList) (x : Text) :
    e.hasSymbol (t.put p x) = e.hasSymbol t := by
  have hne : ∀ q : Path, q.2 = "Kconfig".toList → q ≠ p := fun q hq heq => hp (heq ▸ hq)
  have hk : e.kconfig (t.put p x) = e.kconfig t := kconfig_congr (Tree.file_put_ne (hne _ rfl) x)
  have hkp : e.kconfig t ≠ p := by
    unfold kconfig
    split <;> exact hne _ rfl
  rw [hasSymbol, hk, Tree.text_put_ne hkp, hasSymbol]

/-- A symbol stays found when the stanza of another is added. -/
theorem hasSymbol_addSymbol_of (i : Entry) (h : e.hasSymbol t = true) : e.hasSymbol (i.addSymbol t) = true := by
  unfold hasSymbol at h ⊢
  unfold addSymbol Tree.append
  rw [kconfig_put]
  by_cases hp : e.kconfig t = i.kconfig t
  · rw [hp] at h ⊢
    unfold grep at h ⊢
    rw [Tree.text_put_self, anyLine_append e.symbol_not_found_nil, h, Bool.true_or]
  · rwa [Tree.text_put_ne hp]

/-! ## One pass of the loop -/

/-- A file of the directories that is neither a source nor a header of the entry, nor a build file. -/
def Leaves (e : Entry) (p : Path) : Prop := p ≠ e.sourceFile ∧ p ≠ e.headerFile ∧ ¬ IsBuildFile p

/-- A pass leaves every other file alone. -/
theorem install_untouched {p : Path} (hp : e.Leaves p) (repo : Repo) (v : Variant) :
    Untouched (e.install repo v) p := by
  obtain ⟨hsource, hheader, hbuild⟩ := hp
  have hmakefile : p ≠ e.makefile := fun heq => hbuild (heq ▸ e.makefile_isBuildFile)
  have hkconfig : ∀ t, p ≠ e.kconfig t := fun t heq => hbuild (heq ▸ e.kconfig_isBuildFile t)
  refine fun y => e.install_keeps repo v (fun t x ht => ?_) (fun t x ht => ?_) (fun t ht => ?_) fun t ht => ?_
  · rwa [Tree.file_put_ne hsource]
  · rwa [Tree.file_put_ne hheader]
  · rwa [addObject, Tree.append, Tree.file_put_ne hmakefile]
  · rwa [addSymbol, Tree.append, Tree.file_put_ne (hkconfig t)]

/-- The pass is done. -/
def Installed (e : Entry) (repo : Repo) (v : Variant) (t : Tree) : Prop :=
  t.isDir e.subdir = true ∧
    (∃ x, repo.c e.stem = some x ∧ t.file e.sourceFile = some (e.adapted v x)) ∧
    (∀ x, repo.h e.stem = some x → t.file e.headerFile = some x) ∧
    e.hasObject t = true ∧ e.hasSymbol t = true

theorem source_ne_header (e i : Entry) : e.sourceFile ≠ i.headerFile := by
  intro h
  have := congrArg (fun p : Path => p.2.getLast?) h
  simp [sourceFile, headerFile] at this

theorem not_isBuildFile_source (e : Entry) : ¬ IsBuildFile e.sourceFile := fun h => (h.ne e).1 rfl

theorem not_isBuildFile_header (e : Entry) : ¬ IsBuildFile e.headerFile := fun h => (h.ne e).2 rfl

/-- The source and the header of an entry are left alone by the entries for other objects. -/
theorem leaves_source (h : ¬ SameObject e i) : i.Leaves e.sourceFile := by
  refine ⟨fun heq => h ?_, source_ne_header e i, e.not_isBuildFile_source⟩
  simpa [sourceFile, SameObject] using heq

theorem leaves_header (h : ¬ SameObject e i) : i.Leaves e.headerFile := by
  refine ⟨(source_ne_header i e).symm, fun heq => h ?_, e.not_isBuildFile_header⟩
  simpa [headerFile, SameObject] using heq

theorem hasObject_keeps (e i : Entry) (repo : Repo) (v : Variant) :
    Keeps (fun t => e.hasObject t = true) (i.install repo v) := by
  refine i.install_keeps repo v (fun t x ht => ?_) (fun t x ht => ?_) (fun t ht => ?_) fun t ht => ?_
  · rwa [hasObject_put ((e.makefile_isBuildFile.ne i).1.symm)]
  · rwa [hasObject_put ((e.makefile_isBuildFile.ne i).2.symm)]
  · exact hasObject_addObject_of i ht
  · rwa [addSymbol, Tree.append, hasObject_put (makefile_ne_kconfig e i t).symm]

theorem hasSymbol_keeps (e i : Entry) (repo : Repo) (v : Variant) :
    Keeps (fun t => e.hasSymbol t = true) (i.install repo v) := by
  refine i.install_keeps repo v (fun t x ht => ?_) (fun t x ht => ?_) (fun t ht => ?_) fun t ht => ?_
  · rwa [hasSymbol_put fun h => i.not_isBuildFile_source (Or.inr h)]
  · rwa [hasSymbol_put fun h => i.not_isBuildFile_header (Or.inr h)]
  · rwa [addObject, Tree.append, hasSymbol_put (show "Makefile".toList ≠ "Kconfig".toList by decide)]
  · exact hasSymbol_addSymbol_of i ht

/-- What an entry has installed the entries for other objects keep. -/
theorem installed_keeps (h : ¬ SameObject e i) (repo : Repo) (v : Variant) :
    Keeps (e.Installed repo v) (i.install repo v) := by
  rintro t ⟨hdir, ⟨x, hx, hsource⟩, hheader, hobject, hsymbol⟩ m hm
  refine ⟨isDir_keeps i repo v _ _ t hdir m hm,
    ⟨x, hx, (install_untouched (leaves_source h) repo v).file hm ▸ hsource⟩,
    fun y hy => (install_untouched (leaves_header h) repo v).file hm ▸ hheader y hy,
    hasObject_keeps e i repo v t hobject m hm, hasSymbol_keeps e i repo v t hsymbol m hm⟩

/-- A pass can be interrupted anywhere and run again. -/
theorem install_resumable (e : Entry) (repo : Repo) (v : Variant) :
    Resumable (e.install repo v) (e.Installed repo v) := by
  have hobject := guarded_resumable fun t (_ : e.hasObject t = false) => hasObject_addObject e t
  have hsymbol := guarded_resumable fun t (_ : e.hasSymbol t = false) => hasSymbol_addSymbol e t
  have hmakefile : ∀ {p : Path}, ¬ IsBuildFile p → p ≠ e.makefile := fun hp heq => hp (heq ▸ e.makefile_isBuildFile)
  have hkconfig : ∀ {p : Path}, ¬ IsBuildFile p → ∀ t, p ≠ e.kconfig t := fun hp t heq =>
    hp (heq ▸ e.kconfig_isBuildFile t)
  have hbuild : ∀ {p : Path}, ¬ IsBuildFile p →
      Untouched (seq (guarded e.hasObject e.addObject) (guarded e.hasSymbol e.addSymbol)) p := fun hp y =>
    keeps_seq (keeps_guarded fun t ht => by rwa [addObject, Tree.append, Tree.file_put_ne (hmakefile hp)])
      (keeps_guarded fun t ht => by rwa [addSymbol, Tree.append, Tree.file_put_ne (hkconfig hp t)])
  have h₁ := hobject.seq hsymbol (keeps_guarded fun t ht => by
    rwa [addSymbol, Tree.append, hasObject_put (makefile_ne_kconfig e e t).symm])
  have h₂ := (installHeader_resumable e repo).seq h₁ fun t ht m hm x hx =>
    hbuild e.not_isBuildFile_header _ t (ht x hx) m hm
  have h₃ := (installSource_resumable e repo v).seq h₂ (keeps_seq
    (installHeader_keeps repo fun t y ht => by simpa only [Tree.file_put_ne (source_ne_header e e)] using ht)
    fun t ht m hm => by
      obtain ⟨x, hx, hfile⟩ := ht
      exact ⟨x, hx, hbuild e.not_isBuildFile_source _ t hfile m hm⟩)
  have hdir : Keeps (fun t : Tree => (!t.isDir e.subdir) = false) (seq (e.installSource repo v)
      (seq (e.installHeader repo) (seq (guarded e.hasObject e.addObject) (guarded e.hasSymbol e.addSymbol)))) :=
    keeps_seq (installSource_keeps repo v fun _ _ ht => ht) (keeps_seq (installHeader_keeps repo fun _ _ ht => ht)
      (keeps_seq (keeps_guarded fun _ ht => ht) (keeps_guarded fun _ ht => ht)))
  have h₄ := h₃.check hdir
  simp only [Bool.not_eq_false'] at h₄
  exact h₄

end Entry

/-- So can the loop, when no two entries are for the same object. -/
theorem installAll_resumable (repo : Repo) (v : Variant) {es : List Entry}
    (hes : es.Pairwise fun e i => ¬ SameObject e i) :
    Resumable (installAll repo v es) fun t => ∀ e ∈ es, e.Installed repo v t :=
  Resumable.loop (fun e _ => e.install_resumable repo v) (hes.imp fun h => Entry.installed_keeps h repo v)

end NfsPlayground.Wiring
