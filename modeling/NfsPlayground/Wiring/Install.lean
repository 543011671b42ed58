import NfsPlayground.Lib.Pattern
import NfsPlayground.Lib.Resume
import NfsPlayground.Wiring.Tree

/-!
# Installing the tests

The loop of the script over `TESTS`. Each entry's source is copied into the kernel tree and adapted, and the object and
the symbol of the entry are added to the Makefile and the Kconfig of its directory unless they are found there.
-/

namespace NfsPlayground.Wiring

open Lines Pattern Resume

/-- An entry `stem:subdir:symbol:depends:description` of `TESTS`. -/
structure Entry where
  stem : Text
  subdir : Text
  symbol : Text
  depends : Text
  description : Text
  stem_ok : stem.all (fun c => isWordChar c || c == '/' || c == '-') = true
  symbol_ok : symbol ≠ [] ∧ symbol.all isWordChar = true
  depends_ok : '\n' ∉ depends
  description_ok : '\n' ∉ description

/-- The name of a discovered port, without `.c`. -/
structure Port where
  name : Text
  ok : name.all (fun c => isWordChar c || c == '-') = true

/-- The files of the repository under `kunit/`, by stem, and the ports in its directory `xfstests/generic`. -/
structure Repo where
  c : Text → Option Text
  h : Text → Option Text
  ports : List Port
  ports_nodup : (ports.map Port.name).Nodup

/-- What the script reads off the tree before the loop. -/
structure Variant where
  quoteModuleImportNs : Bool
  nameiRenames : List (Text × Text)

/-! ## The edits of a source -/

/-- `s/^MODULE_IMPORT_NS(…);$/MODULE_IMPORT_NS("…");/` -/
def quoteNs (l : Text) : Text :=
  if l = "MODULE_IMPORT_NS(EXPORTED_FOR_KUNIT_TESTING);".toList then
    "MODULE_IMPORT_NS(\"EXPORTED_FOR_KUNIT_TESTING\");".toList
  else l

/-- `-e "s/\b${old}\b/${new}/g"`, for each of the pairs. -/
def renameAll (pairs : List (Text × Text)) (l : Text) : Text :=
  pairs.foldl (fun l pair => replaceAll [.bound, .lit pair.1, .bound] (fun _ => pair.2) 0 none l) l

/-- `\.init\s*=` -/
def hasInit (x : Text) : Bool := grep [.lit ".init".toList, .many isSpace, .lit "=".toList] x

/-- `s/^\(\s*\)\.test_cases\(\s*\)=/\1.init\2= xfstests_nfs_case_init,\n\1.test_cases\2=/` -/
def addInit (l : Text) : Text :=
  replaceFirst [.bol, .many isSpace, .lit ".test_cases".toList, .many isSpace, .lit "=".toList]
    (fun
      | [_, s₁, _, s₂, _] =>
        s₁ ++ ".init".toList ++ s₂ ++ "= xfstests_nfs_case_init,\n".toList ++ s₁ ++ ".test_cases".toList ++ s₂ ++
          "=".toList
      | ss => ss.flatten)
    none l

namespace Entry

variable (e : Entry)

/-- `${stem//\//_}` -/
def flat : Text := e.stem.map fun c => if c = '/' then '_' else c

def sourceFile : Path := (e.subdir, e.flat ++ ".c".toList)

def headerFile : Path := (e.subdir, e.flat ++ ".h".toList)

def isFixture : Bool := e.stem == "xfstests/nfs_fixture".toList

/-- `xfstests/*`, the fixture apart. -/
def isPort : Bool := "xfstests/".toList.isPrefixOf e.stem && !e.isFixture

def installSource (repo : Repo) (v : Variant) : Script Tree :=
  match repo.c e.stem with
  | none => die
  | some x =>
    seq (edit fun t => t.put e.sourceFile x)
      (seq (if v.quoteModuleImportNs then edit fun t => t.modify e.sourceFile (sed quoteNs) else skip)
        (seq (if e.isFixture && !v.nameiRenames.isEmpty then
            edit fun t => t.modify e.sourceFile (sed (renameAll v.nameiRenames)) else skip)
          (if e.isPort then
            guarded (fun t => hasInit (t.text e.sourceFile)) fun t => t.modify e.sourceFile (sed addInit) else skip)))

def installHeader (repo : Repo) : Script Tree :=
  match repo.h e.stem with
  | none => skip
  | some x => edit fun t => t.put e.headerFile x

/-! ## Makefile and Kconfig -/

def makefile : Path := (e.subdir, "Makefile".toList)

/-- `grep -q "${flat}.o"`: the dot stands for any character. -/
def object : List Atom := [.lit e.flat, .one fun _ => true, .lit "o".toList]

def objectLine : Text := "obj-$(CONFIG_".toList ++ e.symbol ++ ") += ".toList ++ e.flat ++ ".o".toList

def hasObject (t : Tree) : Bool := grep e.object (t.text e.makefile)

def addObject (t : Tree) : Tree := t.append e.makefile ('\n' :: (e.objectLine ++ ['\n']))

def kconfig (t : Tree) : Path :=
  if t.isFile (e.subdir, "Kconfig".toList) then (e.subdir, "Kconfig".toList) else ("fs".toList, "Kconfig".toList)

def configLine : Text := "config ".toList ++ e.symbol

/-- The lines of the stanza after the empty one. -/
def stanza : List Text := [
  e.configLine,
  "\ttristate \"KUnit tests for ".toList ++ e.description ++ "\" if !KUNIT_ALL_TESTS".toList,
  "\tdepends on ".toList ++ e.depends ++ " && KUNIT".toList,
  "\tdefault KUNIT_ALL_TESTS".toList,
  "\thelp".toList,
  "\t  This builds the KUnit tests for ".toList ++ e.description ++ ".".toList,
  [],
  "\t  For more information on KUnit and unit tests in general, refer".toList,
  "\t  to the KUnit documentation in Documentation/dev-tools/kunit/.".toList]

def hasSymbol (t : Tree) : Bool := grep [.lit e.symbol] (t.text (e.kconfig t))

def addSymbol (t : Tree) : Tree := t.append (e.kconfig t) ('\n' :: unlines e.stanza)

/-- One pass of the loop. -/
def install (repo : Repo) (v : Variant) : Script Tree :=
  branch (fun t => !t.isDir e.subdir) die
    (seq (e.installSource repo v)
      (seq (e.installHeader repo)
        (seq (guarded e.hasObject e.addObject)
          (guarded e.hasSymbol e.addSymbol))))

end Entry

/-- The loop over the entries. -/
def installAll (repo : Repo) (v : Variant) (es : List Entry) : Script Tree := loop (fun e => e.install repo v) es

/-! ## What a pass does -/

namespace Entry

variable {e : Entry} {repo : Repo} {v : Variant} {t r : Tree}

/-- The source as it is adapted to the tree. -/
def adapted (e : Entry) (v : Variant) (x : Text) : Text :=
  let quoted := if v.quoteModuleImportNs then sed quoteNs x else x
  let renamed := if e.isFixture && !v.nameiRenames.isEmpty then sed (renameAll v.nameiRenames) quoted else quoted
  if e.isPort && !hasInit renamed then sed addInit renamed else renamed

/-- An edit of a file that has just been written. -/
theorem ends_modify_put {p : Path} {x : Text} {f : Text → Text} :
    Ends (edit fun t => t.modify p f) (t.put p x) r ↔ r = t.put p (f x) := by
  rw [ends_edit, Tree.modify, Tree.text_put_self, Tree.put_put, eq_comm]

theorem ends_modify_if {p : Path} {x : Text} {f : Text → Text} {b : Bool} :
    Ends (if b then edit fun t => t.modify p f else skip) (t.put p x) r ↔ r = t.put p (if b then f x else x) := by
  cases b
  · simp [eq_comm]
  · rw [if_pos rfl, if_pos rfl, ends_modify_put]

theorem installSource_ends {x : Text} (hx : repo.c e.stem = some x) :
    Ends (e.installSource repo v) t r ↔ r = t.put e.sourceFile (e.adapted v x) := by
  have hinit : ∀ y : Text, Ends (if e.isPort then
      guarded (fun t => hasInit (t.text e.sourceFile)) fun t => t.modify e.sourceFile (sed addInit) else skip)
      (t.put e.sourceFile y) r ↔ r = t.put e.sourceFile (if e.isPort && !hasInit y then sed addInit y else y) := by
    intro y
    cases e.isPort
    · simp [eq_comm]
    · rw [if_pos rfl, ends_guarded, Tree.text_put_self]
      cases hasInit y
      · simp [Tree.modify, Tree.put_put]
      · simp
  unfold installSource adapted
  simp only [hx, ends_seq, ends_edit, ends_modify_if, exists_eq_left', exists_eq_left, hinit]

theorem installSource_keeps {I : Tree → Prop} (repo : Repo) (v : Variant)
    (h : ∀ t x, I t → I (t.put e.sourceFile x)) : Keeps I (e.installSource repo v) := by
  unfold installSource
  split
  · exact keeps_die
  · refine keeps_seq (keeps_edit fun t ht => h t _ ht) (keeps_seq ?_ (keeps_seq ?_ ?_))
    · split
      · exact keeps_edit fun t ht => h t _ ht
      · exact keeps_skip
    · split
      · exact keeps_edit fun t ht => h t _ ht
      · exact keeps_skip
    · split
      · exact keeps_guarded fun t ht => h t _ ht
      · exact keeps_skip

theorem installHeader_keeps {I : Tree → Prop} (repo : Repo) (h : ∀ t x, I t → I (t.put e.headerFile x)) :
    Keeps I (e.installHeader repo) := by
  unfold installHeader
  split
  · exact keeps_skip
  · exact keeps_edit fun t ht => h t _ ht

/-- What each edit of a pass keeps, the pass keeps. -/
theorem install_keeps {I : Tree → Prop} (e : Entry) (repo : Repo) (v : Variant)
    (hsource : ∀ t x, I t → I (t.put e.sourceFile x)) (hheader : ∀ t x, I t → I (t.put e.headerFile x))
    (hobject : ∀ t, I t → I (e.addObject t)) (hsymbol : ∀ t, I t → I (e.addSymbol t)) :
    Keeps I (e.install repo v) :=
  keeps_branch keeps_die (keeps_seq (installSource_keeps repo v hsource) (keeps_seq (installHeader_keeps repo hheader)
    (keeps_seq (keeps_guarded hobject) (keeps_guarded hsymbol))))

theorem isDir_keeps (i : Entry) (repo : Repo) (v : Variant) (d : Text) (b : Bool) :
    Keeps (fun t => t.isDir d = b) (i.install repo v) :=
  i.install_keeps repo v (fun _ _ ht => ht) (fun _ _ ht => ht) (fun _ ht => ht) fun _ ht => ht

/-- A pass ends when the directory and the source are there. -/
theorem install_total (e : Entry) (repo : Repo) (v : Variant) {t : Tree} (hdir : t.isDir e.subdir = true)
    (hsource : (repo.c e.stem).isSome) : ∃ r, Ends (e.install repo v) t r := by
  obtain ⟨x, hx⟩ := Option.isSome_iff_exists.1 hsource
  have hheader : ∀ s, ∃ r, Ends (e.installHeader repo) s r := fun s => by
    unfold installHeader
    cases repo.h e.stem with
    | none => exact ⟨s, ends_skip.2 rfl⟩
    | some y => exact ⟨_, ends_edit.2 rfl⟩
  obtain ⟨s, hs⟩ := hheader (t.put e.sourceFile (e.adapted v x))
  have hbuild : Ends (seq (guarded e.hasObject e.addObject) (guarded e.hasSymbol e.addSymbol)) s _ :=
    ends_seq.2 ⟨_, ends_guarded.2 rfl, ends_guarded.2 rfl⟩
  unfold install
  simp only [ends_branch, hdir, Bool.not_true, Bool.false_eq_true, if_false]
  exact ⟨_, ends_seq.2 ⟨_, (installSource_ends hx).2 rfl, ends_seq.2 ⟨s, hs, hbuild⟩⟩⟩

end Entry

theorem installAll_total (repo : Repo) (v : Variant) {es : List Entry} {t : Tree}
    (hdir : ∀ e ∈ es, t.isDir e.subdir = true) (hsource : ∀ e ∈ es, (repo.c e.stem).isSome) :
    ∃ r, Ends (installAll repo v es) t r :=
  loop_ends (I := fun s => ∀ d, s.isDir d = t.isDir d)
    (fun e _ s hs m hm d => by rw [← hs d]; exact Entry.isDir_keeps e repo v d _ s rfl m hm)
    (fun e he s hs => e.install_total repo v (by rw [hs, hdir e he]) (hsource e he)) t fun _ => rfl

end NfsPlayground.Wiring
