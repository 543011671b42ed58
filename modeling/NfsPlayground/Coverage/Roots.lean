import NfsPlayground.Coverage.Commute

/-!
# Where the tree is

Both programs take what follows the first `/linux/` for the path in the tree. That is the path exactly when the root
has no other component `linux`: then a file is keyed and kept under it, and two tracefiles that differ in their root
give the same result (`keyed_by_tree_path_iff`). Under any other root every record is taken for that of another file.
-/

namespace NfsPlayground.Coverage

open Lines PyText

/-- No line of the record holds a newline of its own. -/
def TreeRecord.Inline (r : TreeRecord) : Prop := ∀ l ∈ r.lines, '\n' ∉ l ∧ '\r' ∉ l

def TreeRecord.under (root : Root) (r : TreeRecord) : TreeRecord := { r with root := root }

instance (r : Root) : Decidable r.OnlyLinux := inferInstanceAs (Decidable (_ ∉ _))

/-- The file at `p` is keyed by `p`, and its record is kept under the tree's path for it, whatever the record says. -/
structure KeyedByPath (root : Root) (lsFiles p : Text) : Prop where
  parsed : fsDir <+: p → ∀ r : TreeRecord, r.root = root → r.rel = p → r.Proper → r.Inline →
    r.body.filterMap (Body.fact p) ≠ [] →
    ∃ pairs, parseLcov (unlines r.lines) = some pairs ∧ ∀ file, (pairs.lookup file).isSome ↔ file = p
  kept : ∀ cwd tree name (r : TreeRecord), abspath cwd tree = root.path → r.root = root → r.rel = p → r.Proper →
    r.Inline → filterMain cwd tree name lsFiles (unlines r.lines) = ⟨unlines (r.renamed name root).lines, 1, 0, []⟩

/-- The two roots give the same result for every list of records. -/
def SameResults (root root' : Root) : Prop :=
  ∀ recs : List TreeRecord, (∀ r ∈ recs, r.Proper ∧ r.Inline) →
    ∃ cov, Answers (parseLcov (unlines ((recs.map (TreeRecord.under root)).flatMap TreeRecord.lines))) cov ∧
      Answers (parseLcov (unlines ((recs.map (TreeRecord.under root')).flatMap TreeRecord.lines))) cov

/-! ## Records as files -/

theorem reads_records {recs : List TreeRecord} (h : ∀ r ∈ recs, r.Proper ∧ r.Inline) :
    Reads (unlines (recs.flatMap TreeRecord.lines)) (recs.flatMap TreeRecord.items) := by
  have hlines : recs.flatMap TreeRecord.lines = (recs.flatMap TreeRecord.items).flatMap Item.lines := by
    rw [List.flatMap_assoc]
    rfl
  rw [hlines]
  refine reads_unlines (fun i hi => ?_) fun l hl => ?_
  · obtain ⟨r, hr, hi⟩ := List.mem_flatMap.1 hi
    simp only [TreeRecord.items, List.mem_cons, List.not_mem_nil, or_false] at hi
    rcases hi with rfl | rfl
    · intro hp
      have := (List.cons_prefix_cons.1 hp).1
      cases this
    · exact fun b hb => ((h r hr).1 b hb).1
  · rw [← hlines] at hl
    obtain ⟨r, hr, hl⟩ := List.mem_flatMap.1 hl
    exact (h r hr).2 l hl

theorem TreeRecord.Inline.under {r : TreeRecord} (h : r.Inline) (root : Root) : (r.under root).Inline := by
  have hhead : tnTag ++ r.tn ∈ r.lines := by
    rw [r.lines_eq]
    exact List.mem_cons_self
  intro l hl
  constructor
  · refine @renamed_inline r.tn root _ (Or.inl rfl) (fun hc => (h _ hhead).1 ?_) r (fun m hm => (h m hm).1) l hl
    exact List.mem_append_right _ hc
  · refine @renamed_inline r.tn root _ (Or.inr rfl) (fun hc => (h _ hhead).2 ?_) r (fun m hm => (h m hm).2) l hl
    exact List.mem_append_right _ hc

theorem pieces_unlines : ∀ {ls : List Text}, (∀ l ∈ ls, '\n' ∉ l) → pieces (unlines ls) = ls.map (· ++ ['\n'])
  | [], _ => rfl
  | l :: ls, h => by
    have ih := pieces_unlines fun m hm => h m (List.mem_cons_of_mem _ hm)
    rw [unlines, List.map_cons, List.flatten_cons, List.append_assoc, List.singleton_append,
      pieces_break (h l List.mem_cons_self)]
    exact congrArg _ ih

/-- What the filter makes of one record: the split decides under which path, and whether, it is kept. -/
theorem filterMain_record {r : TreeRecord} (hproper : r.Proper) (hinline : r.Inline) {cwd tree : Text} {root : Root}
    (htree : abspath cwd tree = root.path) (name lsFiles : Text) :
    filterMain cwd tree name lsFiles (unlines r.lines) =
      if relOf r.sf ∈ splitlines lsFiles then
        ⟨unlines ((tnTag ++ name) :: (sfTag ++ (root.path ++ '/' :: relOf r.sf)) ::
          (r.body.map Body.line ++ [endOfRecord])), 1, 0, []⟩
      else ⟨[], 0, 1, []⟩ := by
  have hreturn : '\r' ∉ unlines r.lines := fun h => by
    obtain ⟨m, hm, hr⟩ := List.mem_flatten.1 h
    obtain ⟨l, hl, rfl⟩ := List.mem_map.1 hm
    exact (List.mem_append.1 hr).elim (hinline l hl).2 (by decide)
  have hpieces : RecordPieces r (r.body.map fun b => b.line ++ ['\n']) (endOfRecord ++ ['\n']) :=
    ⟨by simp, chomp_line _⟩
  have hcut : pieces (unlines r.lines) =
      headPieces r.tn r.sf ++ (r.body.map fun b => b.line ++ ['\n']) ++ (endOfRecord ++ ['\n']) :: [] := by
    rw [pieces_unlines fun l hl => (hinline l hl).1, r.lines_eq]
    simp [headPieces]
  rw [filterMain, htree, universal_of_noReturn hreturn, hcut, filter_split_record hpieces hproper]
  split
  · simp [filterLines, unlines, headPieces]
    rfl
  · rfl

/-! ## Roots with one `linux` -/

theorem relOf_root {root : Root} (h : root.OnlyLinux) (rel : Text) : relOf (root.path ++ '/' :: rel) = rel := by
  rw [relOf, splitFirst_root h]
  rfl

theorem coverage_isSome {fs : List Fact} {file : Text} :
    (coverage (seenLines fs) (hitLines fs) file).isSome ↔ ∃ x ∈ fs, x.file = file := by
  have hne : (seenLines fs file).Nonempty ↔ ∃ x ∈ fs, x.file = file := by
    constructor
    · rintro ⟨n, hn⟩
      obtain ⟨x, hx, hf, -⟩ := mem_seenLines.1 hn
      exact ⟨x, hx, hf⟩
    · rintro ⟨x, hx, hf⟩
      exact ⟨x.no, mem_seenLines.2 ⟨x, hx, hf, rfl⟩⟩
  rw [← hne, Finset.nonempty_iff_ne_empty]
  unfold coverage
  split <;> simp_all

theorem body_fact_file {file : Text} {b : Body} {x : Fact} (h : Body.fact file b = some x) : x.file = file := by
  cases b <;> cases h
  rfl

/-- The file keyed by the records of one file, at any root: the one the split finds, if it is under `fs/`. -/
theorem parse_record {r : TreeRecord} (hproper : r.Proper) (hinline : r.Inline) :
    ∃ pairs, parseLcov (unlines r.lines) = some pairs ∧
      ∀ file, (pairs.lookup file).isSome ↔ fileOf r.sf = some file ∧ r.body.filterMap (Body.fact file) ≠ [] := by
  have hone : ∀ s ∈ [r], s.Proper ∧ s.Inline := by
    intro s hs
    rw [List.mem_singleton.1 hs]
    exact ⟨hproper, hinline⟩
  obtain ⟨pairs, hpairs, hcov⟩ := parse_counts (reads_records hone)
  have hfacts : facts ([r].flatMap TreeRecord.items) =
      (fileOf r.sf).elim [] fun file => r.body.filterMap (Body.fact file) := by
    show (fileOf r.sf).elim [] _ ++ [] = _
    rw [List.append_nil]
  rw [List.flatMap_cons, List.flatMap_nil, List.append_nil] at hpairs
  refine ⟨pairs, hpairs, fun file => ?_⟩
  rw [hcov, coverage_isSome, hfacts]
  cases hfile : fileOf r.sf with
  | none => simp
  | some f =>
    rw [Option.elim, Option.some.injEq]
    constructor
    · rintro ⟨x, hx, rfl⟩
      obtain ⟨b, hb, hbx⟩ := List.mem_filterMap.1 hx
      have hf := body_fact_file hbx
      subst hf
      exact ⟨rfl, List.ne_nil_of_mem hx⟩
    · rintro ⟨rfl, hne⟩
      obtain ⟨x, hx⟩ := List.exists_mem_of_ne_nil _ hne
      obtain ⟨b, -, hbx⟩ := List.mem_filterMap.1 hx
      exact ⟨x, hx, body_fact_file hbx⟩

theorem keyedByPath_of_onlyLinux {root : Root} (h : root.OnlyLinux) {lsFiles p : Text} (hp : p ∈ splitlines lsFiles) :
    KeyedByPath root lsFiles p where
  parsed hfs r hroot hrel hproper hinline hda := by
    subst hroot hrel
    have hfile : fileOf r.sf = some r.rel := by
      rw [fileOf, TreeRecord.sf, splitFirst_root h]
      exact if_pos hfs
    obtain ⟨pairs, hpairs, hkeys⟩ := parse_record hproper hinline
    refine ⟨pairs, hpairs, fun file => ?_⟩
    rw [hkeys, hfile, Option.some.injEq]
    constructor
    · rintro ⟨rfl, -⟩
      rfl
    · rintro rfl
      exact ⟨rfl, hda⟩
  kept cwd tree name r htree hroot hrel hproper hinline := by
    subst hroot hrel
    have hrel : relOf r.sf = r.rel := relOf_root h r.rel
    rw [filterMain_record hproper hinline htree, hrel, if_pos hp, TreeRecord.lines_eq]
    rfl

theorem sameResults_of_onlyLinux {root root' : Root} (h : root.OnlyLinux) (h' : root'.OnlyLinux) :
    SameResults root root' := by
  intro recs hrecs
  have hunder : ∀ R : Root, ∀ r ∈ recs.map (TreeRecord.under R), r.Proper ∧ r.Inline := by
    intro R r hr
    obtain ⟨s, hs, rfl⟩ := List.mem_map.1 hr
    exact ⟨(hrecs s hs).1, (hrecs s hs).2.under R⟩
  have honly : ∀ {R : Root}, R.OnlyLinux → ∀ r ∈ recs.map (TreeRecord.under R), r.root.OnlyLinux := by
    intro R hR r hr
    obtain ⟨s, -, rfl⟩ := List.mem_map.1 hr
    exact hR
  have hfacts : ∀ x, x ∈ facts ((recs.map (TreeRecord.under root')).flatMap TreeRecord.items) ↔
      x ∈ facts ((recs.map (TreeRecord.under root)).flatMap TreeRecord.items) := by
    intro x
    rw [mem_treeFacts (honly h), mem_treeFacts (honly h')]
    refine and_congr_right fun _ => ?_
    constructor
    · rintro ⟨r, hr, hx⟩
      obtain ⟨s, hs, rfl⟩ := List.mem_map.1 hr
      exact ⟨s.under root, List.mem_map_of_mem hs, hx⟩
    · rintro ⟨r, hr, hx⟩
      obtain ⟨s, hs, rfl⟩ := List.mem_map.1 hr
      exact ⟨s.under root', List.mem_map_of_mem hs, hx⟩
  obtain ⟨hseen, hhit⟩ := lines_congr hfacts
  refine ⟨_, parse_counts (reads_records (hunder root)), ?_⟩
  rw [← hseen, ← hhit]
  exact parse_counts (reads_records (hunder root'))

/-! ## Other roots -/

theorem inline_of_mem_splitlines {lsFiles p : Text} (h : p ∈ splitlines lsFiles) : '\n' ∉ p ∧ '\r' ∉ p := by
  refine ⟨noNewline_of_mem_lines h, fun hr => ?_⟩
  have hmem := (infix_of_mem_lines h).subset hr
  obtain ⟨c, -, hc⟩ := List.mem_map.1 hmem
  split at hc
  · cases hc
  · rename_i hbreak
    subst hc
    exact hbreak (by decide)

/-- A record of the file at `p` that says nothing. -/
def emptyRecord (root : Root) (p : Text) : TreeRecord := ⟨[], root, p, []⟩

theorem emptyRecord_inline (root : Root) {p : Text} (hp : '\n' ∉ p ∧ '\r' ∉ p) : (emptyRecord root p).Inline := by
  have hline : ∀ {c : Char}, c = '\n' ∨ c = '\r' → c ∉ p → ∀ l ∈ (emptyRecord root p).lines, c ∉ l := by
    intro c hc hcp l hl
    have hslash : c ≠ '/' := by rcases hc with rfl | rfl <;> decide
    have hsf : c ∉ root.path ++ '/' :: p := by simp [root.path_inline hc, hslash, hcp]
    obtain ⟨htn, hsfl⟩ := headPieces_lines hc List.not_mem_nil hsf
    rw [TreeRecord.lines_eq] at hl
    rcases List.mem_cons.1 hl with rfl | hl
    · exact htn
    rcases List.mem_cons.1 hl with rfl | hl
    · exact hsfl
    · rw [List.mem_singleton.1 hl]
      rcases hc with rfl | rfl <;> decide
  exact fun l hl => ⟨hline (Or.inl rfl) hp.1 l hl, hline (Or.inr rfl) hp.2 l hl⟩

theorem not_keyedByPath {root : Root} (h : ¬ root.OnlyLinux) {lsFiles p : Text} (hp : p ∈ splitlines lsFiles) :
    ¬ KeyedByPath root lsFiles p := by
  intro hkeyed
  have hproper : (emptyRecord root p).Proper := fun b hb => absurd hb List.not_mem_nil
  have hinline := emptyRecord_inline root (inline_of_mem_splitlines hp)
  have hkept := hkeyed.kept [] root.path [] (emptyRecord root p) (abspath_root [] root) rfl rfl hproper hinline
  obtain ⟨u, v, hsplit, hlen⟩ := splitFirst_other_root h p
  have hrel : relOf (emptyRecord root p).sf = v := by
    show (splitFirst linuxDir (root.path ++ '/' :: p)).elim [] Prod.snd = v
    rw [hsplit]
    rfl
  rw [filterMain_record hproper hinline (abspath_root [] root), hrel] at hkept
  split at hkept
  · have hout := congrArg (List.length ∘ FilterState.out) hkept
    simp [unlines, TreeRecord.lines_eq, TreeRecord.renamed, TreeRecord.sf, emptyRecord] at hout
    omega
  · cases congrArg FilterState.kept hkept

/-- A record of `fs/a` with one line. -/
def lineRecord (root : Root) : TreeRecord := ⟨[], root, fileA, [.da 1 1 none]⟩

theorem lineRecord_inline (root : Root) : (lineRecord root).Inline := by
  intro l hl
  have hempty := emptyRecord_inline root (p := fileA) (by decide)
  rw [TreeRecord.lines_eq] at hl
  rcases List.mem_cons.1 hl with rfl | hl
  · exact hempty _ (by rw [TreeRecord.lines_eq]; exact List.mem_cons_self)
  rcases List.mem_cons.1 hl with rfl | hl
  · exact hempty _ (by rw [TreeRecord.lines_eq]; exact List.mem_cons_of_mem _ List.mem_cons_self)
  · have hrest : ∀ m ∈ [(Body.da 1 1 none).line, endOfRecord], '\n' ∉ m ∧ '\r' ∉ m := by decide
    exact hrest l hl

theorem not_sameResults {root root' : Root} (h : ¬ root.OnlyLinux) (h' : root'.OnlyLinux) :
    ¬ SameResults root root' := by
  intro hsame
  have hproper : (lineRecord root').Proper := by
    simp [TreeRecord.Proper, lineRecord, Body.Proper, Body.line, tnTag, daTag]
  have hinline : (lineRecord root').Inline := lineRecord_inline root'
  have hone : ∀ r ∈ [lineRecord root'], r.Proper ∧ r.Inline := by
    intro r hr
    rw [List.mem_singleton.1 hr]
    exact ⟨hproper, hinline⟩
  obtain ⟨cov, ⟨pairs, hpairs, hcov⟩, ⟨pairs', hpairs', hcov'⟩⟩ := hsame [lineRecord root'] hone
  obtain ⟨keys, hkeys, hkey⟩ := @parse_record ((lineRecord root').under root) hproper (hinline.under root)
  obtain ⟨keys', hkeys', hkey'⟩ := @parse_record ((lineRecord root').under root') hproper (hinline.under root')
  simp only [List.map_cons, List.map_nil, List.flatMap_cons, List.flatMap_nil, List.append_nil] at hpairs hpairs'
  obtain rfl : pairs = keys := Option.some.inj (hpairs.symm.trans hkeys)
  obtain rfl : pairs' = keys' := Option.some.inj (hpairs'.symm.trans hkeys')
  have hthere : (pairs'.lookup fileA).isSome := by
    refine (hkey' fileA).2 ⟨?_, List.cons_ne_nil _ _⟩
    show fileOf (root'.path ++ '/' :: fileA) = some fileA
    rw [fileOf, splitFirst_root h']
    rfl
  rw [hcov', ← hcov] at hthere
  obtain ⟨hfile, -⟩ := (hkey fileA).1 hthere
  obtain ⟨u, v, hsplit, hlen⟩ := splitFirst_other_root h fileA
  have hv : fileOf (root.path ++ '/' :: fileA) = some fileA := hfile
  rw [fileOf, hsplit, Option.elim] at hv
  dsimp only at hv
  split at hv
  · rw [Option.some.inj hv] at hlen
    omega
  · cases hv

/-- A file is keyed by its path in the tree, by the one program and by the other, and a tracefile gives the result it
gives under any other root, exactly when the root has no second component `linux`. -/
theorem keyed_by_tree_path_iff (root : Root) :
    (∀ lsFiles p, p ∈ splitlines lsFiles → (KeyedByPath root lsFiles p ↔ root.OnlyLinux)) ∧
    ∀ root' : Root, root'.OnlyLinux → (SameResults root root' ↔ root.OnlyLinux) := by
  constructor
  · intro lsFiles p hp
    exact ⟨fun hk => by_contra fun h => not_keyedByPath h hp hk, fun h => keyedByPath_of_onlyLinux h hp⟩
  · intro root' h'
    exact ⟨fun hs => by_contra fun h => not_sameResults h h' hs, fun h => sameResults_of_onlyLinux h h'⟩

theorem keyed_by_tree_path_deep :
    KeyedByPath deepRoot (fileA ++ ['\n']) fileA ∧ SameResults deepRoot topRoot :=
  ⟨((keyed_by_tree_path_iff deepRoot).1 (fileA ++ ['\n']) fileA (by decide)).2 (by decide),
    ((keyed_by_tree_path_iff deepRoot).2 topRoot (by decide)).2 (by decide)⟩

/-- `/linux/linux` -/
def twiceRoot : Root := ⟨[linuxName], by decide⟩

/-- Under `/linux/linux` the record of `fs/a` has no key, and the filter drops it. -/
theorem not_keyed_under_twice :
    fileA ∈ splitlines (fileA ++ ['\n']) ∧
    parseLcov (unlines (lineRecord twiceRoot).lines) = some [] ∧
    filterMain [] twiceRoot.path [] (fileA ++ ['\n']) (unlines (lineRecord twiceRoot).lines) = ⟨[], 0, 1, []⟩ ∧
    ¬ KeyedByPath twiceRoot (fileA ++ ['\n']) fileA := by
  have hin : fileA ∈ splitlines (fileA ++ ['\n']) := by decide
  have hparse : parseLcov (unlines (lineRecord twiceRoot).lines) = some [] := by decide
  have hfilter : filterMain [] twiceRoot.path [] (fileA ++ ['\n']) (unlines (lineRecord twiceRoot).lines) =
      ⟨[], 0, 1, []⟩ := by rfl
  have hproper : (lineRecord twiceRoot).Proper := by
    simp [TreeRecord.Proper, lineRecord, Body.Proper, Body.line, tnTag, daTag]
  refine ⟨hin, hparse, hfilter, fun hkeyed => ?_⟩
  have hkept := hkeyed.kept [] twiceRoot.path [] (lineRecord twiceRoot) (abspath_root [] twiceRoot) rfl rfl hproper
    (lineRecord_inline twiceRoot)
  rw [hfilter] at hkept
  cases congrArg FilterState.kept hkept

end NfsPlayground.Coverage
