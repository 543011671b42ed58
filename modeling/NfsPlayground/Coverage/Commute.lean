import NfsPlayground.Coverage.Filter

/-!
# Filtering and parsing

The filter on a tracefile of complete records: the records of tracked files, in their order, under the given test name
and root (`filter_records`), which a second run leaves alone (`filter_again`). The two programs read a record alike, so
that parsing the filtered file is parsing the file and dropping what is not tracked (`filter_commutes`).
-/

namespace NfsPlayground.Coverage

open Lines PyText

/-- The first record of a text, cut from its pieces. -/
theorem cut_record {r : TreeRecord} {ps : List Text} {rest : List Text} (hcut : Cut ps)
    (hlines : ps.map chomp = r.lines ++ rest) :
    ∃ bs e ps', ps = headPieces r.tn r.sf ++ bs ++ e :: ps' ∧ RecordPieces r bs e ∧ Cut (e :: ps') ∧
      ps'.map chomp = rest := by
  rw [r.lines_eq, List.cons_append, List.cons_append, List.append_assoc, List.singleton_append] at hlines
  obtain ⟨t, ps₁, rfl, ht, hlines⟩ := List.map_eq_cons_iff.1 hlines
  obtain ⟨f, ps₂, rfl, hf, hlines⟩ := List.map_eq_cons_iff.1 hlines
  obtain ⟨bs, ps₃, rfl, hbs, hlines⟩ := List.map_eq_append_iff.1 hlines
  obtain ⟨e, ps', rfl, he, hrest⟩ := List.map_eq_cons_iff.1 hlines
  obtain ⟨k, rfl, hk⟩ := hcut.head_line
  have hcut₁ : Cut (f :: (bs ++ e :: ps')) := hcut.tail
  have hfline : ∃ k, f = k ++ ['\n'] ∧ '\n' ∉ k := by
    cases bs with
    | nil => exact hcut₁.head_line
    | cons b bs => exact hcut₁.head_line
  obtain ⟨k', rfl, hk'⟩ := hfline
  rw [chomp_line] at ht hf
  subst ht hf
  refine ⟨bs, e, ps', rfl, ⟨hbs, he⟩, ?_, hrest⟩
  have hdrop : ∀ (xs : List Text), Cut (xs ++ e :: ps') → Cut (e :: ps') := by
    intro xs
    induction xs with
    | nil => exact id
    | cons x xs ih => exact fun h => ih h.tail
  exact hdrop bs hcut₁.tail

/-- Lines in front of a piece, in another spelling. -/
theorem cut_append {xs ys : List Text} (hxs : ∀ x ∈ xs, ∃ l, x = l ++ ['\n'] ∧ '\n' ∉ l) (hys : Cut ys) :
    Cut (xs ++ ys) := by
  induction xs with
  | nil => exact hys
  | cons x xs ih =>
    obtain ⟨l, rfl, hl⟩ := hxs x List.mem_cons_self
    exact .line hl (ih fun y hy => hxs y (List.mem_cons_of_mem _ hy))

theorem lines_before {xs ys : List Text} (hne : ys ≠ []) (h : Cut (xs ++ ys)) :
    ∀ x ∈ xs, ∃ l, x = l ++ ['\n'] ∧ '\n' ∉ l := by
  induction xs with
  | nil => simp
  | cons x xs ih =>
    intro y hy
    rcases List.mem_cons.1 hy with rfl | hy
    · obtain ⟨z, zs, hz⟩ := List.exists_cons_of_ne_nil (l := xs ++ ys) (by simp [hne])
      rw [List.cons_append, hz] at h
      exact h.head_line
    · exact ih h.tail y hy

section

variable {name : Text} {root : Root} {tracked : List Text}

theorem headPieces_lines {c : Char} {tn sf : Text} (hc : c = '\n' ∨ c = '\r') (htn : c ∉ tn) (hsf : c ∉ sf) :
    c ∉ tnTag ++ tn ∧ c ∉ sfTag ++ sf := by
  have htags : c ∉ tnTag ∧ c ∉ sfTag := by
    rcases hc with rfl | rfl <;> decide
  simp [htn, hsf, htags.1, htags.2]

theorem Root.path_inline {c : Char} (hc : c = '\n' ∨ c = '\r') (r : Root) : c ∉ r.path := by
  intro hmem
  obtain ⟨x, hx, hcx⟩ := List.mem_flatten.1 hmem
  obtain ⟨d, hd, rfl⟩ := List.mem_map.1 hx
  have hslash : c ≠ '/' := by rcases hc with rfl | rfl <;> decide
  rcases List.mem_cons.1 hcx with heq | hcd
  · exact hslash heq
  rcases List.mem_append.1 hd with hd | hd
  · rcases hc with rfl | rfl
    · exact (r.proper d hd).2.1 hcd
    · exact (r.proper d hd).2.2 hcd
  · rw [List.mem_singleton.1 hd] at hcd
    revert hcd
    rcases hc with rfl | rfl <;> decide

/-- The other spelling of the path of a record is one line, if the first is. -/
theorem renamed_inline {c : Char} (hc : c = '\n' ∨ c = '\r') (hname : c ∉ name) {r : TreeRecord}
    (hr : ∀ l ∈ r.lines, c ∉ l) : ∀ l ∈ (r.renamed name root).lines, c ∉ l := by
  have hslash : c ≠ '/' := by rcases hc with rfl | rfl <;> decide
  have hrel : c ∉ r.rel := fun hmem => by
    refine hr (sfTag ++ r.sf) (by rw [r.lines_eq]; simp) ?_
    simp [TreeRecord.sf, hmem]
  have hsf : c ∉ root.path ++ '/' :: r.rel := by simp [root.path_inline hc, hslash, hrel]
  obtain ⟨htn, hsfl⟩ := headPieces_lines hc hname hsf
  intro l hl
  rw [TreeRecord.lines_eq] at hl
  rcases List.mem_cons.1 hl with rfl | hl
  · exact htn
  rcases List.mem_cons.1 hl with rfl | hl
  · exact hsfl
  · refine hr l ?_
    rw [r.lines_eq]
    exact List.mem_cons_of_mem _ (List.mem_cons_of_mem _ hl)

/-- The records of tracked files are kept in their order, under the given name and root, and the others are dropped. -/
theorem filter_records (hname : '\n' ∉ name) : ∀ {recs : List TreeRecord} {ps : List Text},
    (∀ r ∈ recs, r.Proper ∧ r.root.OnlyLinux) → (∀ r ∈ recs, ∀ l ∈ r.lines, '\n' ∉ l) → Cut ps →
    ps.map chomp = recs.flatMap TreeRecord.lines → ∀ out kept dropped,
    ∃ qs, filterLines root.path name tracked ps ⟨out, kept, dropped, []⟩ =
        ⟨out ++ qs.flatten, kept + (recs.filter (·.rel ∈ tracked)).length,
          dropped + (recs.filter (·.rel ∉ tracked)).length, []⟩ ∧
      Cut qs ∧ qs.map chomp = (recs.filter (·.rel ∈ tracked)).flatMap (fun r => (r.renamed name root).lines) ∧
      (ps = [] → qs = [])
  | [], ps, _, _, _, hlines, out, kept, dropped => by
    rw [List.flatMap_nil, List.map_eq_nil_iff] at hlines
    subst hlines
    exact ⟨[], by simp [filterLines], .nil, rfl, fun _ => rfl⟩
  | r :: recs, ps, hrecs, hinline, hcut, hlines, out, kept, dropped => by
    rw [List.flatMap_cons] at hlines
    obtain ⟨bs, e, ps', rfl, hpieces, hcute, hlines'⟩ := cut_record hcut hlines
    obtain ⟨hproper, honly⟩ := hrecs r List.mem_cons_self
    have hrecs' : ∀ s ∈ recs, s.Proper ∧ s.root.OnlyLinux := fun s hs => hrecs s (List.mem_cons_of_mem _ hs)
    have hinline' : ∀ s ∈ recs, ∀ l ∈ s.lines, '\n' ∉ l := fun s hs => hinline s (List.mem_cons_of_mem _ hs)
    rw [filter_record hpieces hproper honly]
    by_cases hin : r.rel ∈ tracked
    · rw [if_pos hin]
      obtain ⟨qs, hrun, hqcut, hqlines, hqnil⟩ := filter_records hname hrecs' hinline' hcute.tail hlines'
        (out ++ (headPieces name (root.path ++ '/' :: r.rel) ++ bs ++ [e]).flatten) (kept + 1) dropped
      refine ⟨headPieces name (root.path ++ '/' :: r.rel) ++ bs ++ e :: qs, ?_, ?_, ?_, ?_⟩
      · rw [hrun, List.filter_cons_of_pos (by simpa using hin), List.filter_cons_of_neg (by simpa using hin)]
        simp
        omega
      · have hrenamed := @renamed_inline name root _ (Or.inl rfl) hname r (hinline r List.mem_cons_self)
        rw [List.append_assoc]
        refine cut_append (fun x hx => ?_) ?_
        · rw [headPieces, List.mem_cons, List.mem_singleton] at hx
          rcases hx with rfl | rfl
          · exact ⟨_, rfl, hrenamed _ (by rw [TreeRecord.lines_eq]; exact List.mem_cons_self)⟩
          · refine ⟨_, rfl, hrenamed _ ?_⟩
            rw [TreeRecord.lines_eq]
            exact List.mem_cons_of_mem _ List.mem_cons_self
        · rw [List.append_assoc] at hcut
          have hbs : Cut (bs ++ e :: ps') := hcut.tail.tail
          have he : Cut (e :: qs) := hcute.replace_tail hqcut hqnil
          exact cut_append (lines_before (List.cons_ne_nil e ps') hbs) he
      · rw [List.filter_cons_of_pos (by simpa using hin), List.flatMap_cons, ← hqlines, TreeRecord.lines_eq]
        simp only [headPieces, List.map_append, List.map_cons, List.map_nil, chomp_line, hpieces.body, hpieces.last]
        simp [TreeRecord.renamed, TreeRecord.sf]
      · intro hnil
        simp at hnil
    · rw [if_neg hin]
      obtain ⟨qs, hrun, hqcut, hqlines, -⟩ :=
        filter_records hname hrecs' hinline' hcute.tail hlines' out kept (dropped + 1)
      refine ⟨qs, ?_, hqcut, ?_, fun hnil => by simp at hnil⟩
      · rw [hrun, List.filter_cons_of_neg (by simpa using hin), List.filter_cons_of_pos (by simpa using hin)]
        simp
        omega
      · rw [List.filter_cons_of_neg (by simpa using hin), hqlines]

/-- Records of tracked files under the name and the root they are filtered with stay as they are. -/
theorem filter_again : ∀ {recs : List TreeRecord} {ps : List Text},
    (∀ r ∈ recs, r.Proper ∧ r.root.OnlyLinux ∧ r.rel ∈ tracked ∧ r.tn = name ∧ r.root = root) → Cut ps →
    ps.map chomp = recs.flatMap TreeRecord.lines → ∀ out kept dropped,
    filterLines root.path name tracked ps ⟨out, kept, dropped, []⟩ =
      ⟨out ++ ps.flatten, kept + recs.length, dropped, []⟩
  | [], ps, _, _, hlines, out, kept, dropped => by
    rw [List.flatMap_nil, List.map_eq_nil_iff] at hlines
    subst hlines
    simp [filterLines]
  | r :: recs, ps, hrecs, hcut, hlines, out, kept, dropped => by
    rw [List.flatMap_cons] at hlines
    obtain ⟨bs, e, ps', rfl, hpieces, hcute, hlines'⟩ := cut_record hcut hlines
    obtain ⟨hproper, honly, hin, htn, hroot⟩ := hrecs r List.mem_cons_self
    have hhead : headPieces name (root.path ++ '/' :: r.rel) = headPieces r.tn r.sf := by
      rw [← htn, ← hroot, TreeRecord.sf]
    rw [filter_record hpieces hproper honly, if_pos hin, hhead,
      filter_again (fun s hs => hrecs s (List.mem_cons_of_mem _ hs)) hcute.tail hlines']
    simp
    omega

end

/-! ## The two programs on one file -/

/-- A complete tracefile of records of files in kernel trees with one `linux` in their path. -/
structure TreeFile (src : Text) (recs : List TreeRecord) : Prop where
  lines_eq : lines (universal src) = recs.flatMap TreeRecord.lines
  proper : ∀ r ∈ recs, r.Proper ∧ r.root.OnlyLinux

theorem TreeFile.reads {src : Text} {recs : List TreeRecord} (h : TreeFile src recs) :
    Reads src (recs.flatMap TreeRecord.items) where
  lines_eq := by
    rw [h.lines_eq, List.flatMap_assoc]
    rfl
  proper i hi := by
    obtain ⟨r, hr, hi⟩ := List.mem_flatMap.1 hi
    simp only [TreeRecord.items, List.mem_cons, List.not_mem_nil, or_false] at hi
    rcases hi with rfl | rfl
    · intro hp
      have := (List.cons_prefix_cons.1 hp).1
      cases this
    · exact fun b hb => ((h.proper r hr).1 b hb).1

theorem TreeFile.inline {src : Text} {recs : List TreeRecord} (h : TreeFile src recs) {c : Char}
    (hc : c = '\n' ∨ c = '\r') : ∀ r ∈ recs, ∀ l ∈ r.lines, c ∉ l := by
  intro r hr l hl
  have hmem : l ∈ lines (universal src) := by
    rw [h.lines_eq]
    exact List.mem_flatMap.2 ⟨r, hr, hl⟩
  rcases hc with rfl | rfl
  · exact noNewline_of_mem_lines hmem
  · exact fun hin => noReturn_universal src ((infix_of_mem_lines hmem).subset hin)

/-- What a record of a file in a tree says: the path in the tree is the key. -/
theorem treeRecord_facts {r : TreeRecord} (h : r.root.OnlyLinux) :
    facts r.items = if fsDir <+: r.rel then r.body.filterMap (Body.fact r.rel) else [] := by
  have hfile : fileOf r.sf = if fsDir <+: r.rel then some r.rel else none := by
    rw [fileOf, TreeRecord.sf, splitFirst_root h]
    rfl
  show (fileOf r.sf).elim [] _ ++ [] = _
  rw [hfile, List.append_nil]
  split <;> rfl

theorem mem_treeFacts {recs : List TreeRecord} (h : ∀ r ∈ recs, r.root.OnlyLinux) (x : Fact) :
    x ∈ facts (recs.flatMap TreeRecord.items) ↔
      fsDir <+: x.file ∧ ∃ r ∈ recs, r.rel = x.file ∧ ∃ b ∈ r.body, Body.fact r.rel b = some x := by
  have hfile : ∀ {file : Text} {b : Body}, Body.fact file b = some x → file = x.file := by
    intro file b hb
    cases b <;> cases hb
    rfl
  have hmem : x ∈ facts (recs.flatMap TreeRecord.items) ↔ ∃ r ∈ recs, x ∈ facts r.items := by
    simp only [facts, List.mem_flatMap]
    constructor
    · rintro ⟨i, ⟨r, hr, hi⟩, hx⟩
      exact ⟨r, hr, i, hi, hx⟩
    · rintro ⟨r, hr, i, hi, hx⟩
      exact ⟨i, ⟨r, hr, hi⟩, hx⟩
  rw [hmem]
  constructor
  · rintro ⟨r, hr, hx⟩
    rw [treeRecord_facts (h r hr)] at hx
    split at hx
    · rename_i hfs
      obtain ⟨b, hb, hbx⟩ := List.mem_filterMap.1 hx
      exact ⟨hfile hbx ▸ hfs, r, hr, hfile hbx, b, hb, hbx⟩
    · exact absurd hx List.not_mem_nil
  · rintro ⟨hfs, r, hr, hrel, b, hb, hbx⟩
    refine ⟨r, hr, ?_⟩
    rw [treeRecord_facts (h r hr), if_pos (hrel ▸ hfs)]
    exact List.mem_filterMap.2 ⟨b, hb, hbx⟩

/-- The records of tracked files, under another name and root, say what all of them say about tracked files. -/
theorem mem_keptFacts {recs : List TreeRecord} {tracked : List Text} {name : Text} {root : Root}
    (h : ∀ r ∈ recs, r.root.OnlyLinux) (hroot : root.OnlyLinux) (x : Fact) :
    x ∈ facts (((recs.filter (·.rel ∈ tracked)).map (TreeRecord.renamed name root)).flatMap TreeRecord.items) ↔
      x ∈ facts (recs.flatMap TreeRecord.items) ∧ x.file ∈ tracked := by
  have hkept : ∀ r ∈ (recs.filter (·.rel ∈ tracked)).map (TreeRecord.renamed name root), r.root.OnlyLinux := by
    intro r hr
    obtain ⟨s, -, rfl⟩ := List.mem_map.1 hr
    exact hroot
  rw [mem_treeFacts hkept, mem_treeFacts h]
  constructor
  · rintro ⟨hfs, r, hr, hrel, b, hb, hbx⟩
    obtain ⟨s, hs, rfl⟩ := List.mem_map.1 hr
    obtain ⟨hs, hin⟩ := List.mem_filter.1 hs
    exact ⟨⟨hfs, s, hs, hrel, b, hb, hbx⟩, hrel ▸ of_decide_eq_true hin⟩
  · rintro ⟨⟨hfs, r, hr, hrel, b, hb, hbx⟩, hin⟩
    refine ⟨hfs, r.renamed name root, List.mem_map_of_mem (List.mem_filter.2 ⟨hr, ?_⟩), hrel, b, hb, hbx⟩
    exact decide_eq_true (hrel.symm ▸ hin)

theorem return_of_chomp {ps : List Text} (h : ∀ l ∈ ps.map chomp, '\r' ∉ l) : '\r' ∉ ps.flatten := fun hin => by
  obtain ⟨p, hp, hin⟩ := List.mem_flatten.1 hin
  have hline : '\r' ∉ chomp p := h _ (List.mem_map_of_mem hp)
  rcases chomp_cases p with heq | heq
  · exact hline (heq ▸ hin)
  · rw [heq] at hin
    exact (List.mem_append.1 hin).elim hline (by decide)

theorem coverage_restrict {fs gs : List Fact} {tracked : List Text} (h : ∀ x, x ∈ gs ↔ x ∈ fs ∧ x.file ∈ tracked)
    (file : Text) : coverage (seenLines gs) (hitLines gs) file =
      if file ∈ tracked then coverage (seenLines fs) (hitLines fs) file else none := by
  have hseen : seenLines gs file = if file ∈ tracked then seenLines fs file else ∅ := by
    ext n
    rw [mem_seenLines]
    split
    · rename_i hin
      rw [mem_seenLines]
      constructor
      · rintro ⟨x, hx, hf, hn⟩
        exact ⟨x, ((h x).1 hx).1, hf, hn⟩
      · rintro ⟨x, hx, hf, hn⟩
        exact ⟨x, (h x).2 ⟨hx, hf ▸ hin⟩, hf, hn⟩
    · rename_i hout
      refine iff_of_false ?_ (Finset.notMem_empty n)
      rintro ⟨x, hx, hf, -⟩
      exact hout (hf ▸ ((h x).1 hx).2)
  unfold coverage
  split
  · rename_i hempty
    rw [hseen] at hempty
    split
    · rename_i hin
      rw [if_pos hin] at hempty
      rw [if_pos hempty]
    · rfl
  · rename_i hne
    rw [hseen] at hne ⊢
    by_cases hin : file ∈ tracked
    · rw [if_pos hin] at hne ⊢
      rw [if_pos hin, if_neg hne]
      have hhit : hitLines gs file = hitLines fs file := by
        ext n
        rw [mem_hitLines, mem_hitLines]
        constructor
        · rintro ⟨x, hx, hf, hc⟩
          exact ⟨x, ((h x).1 hx).1, hf, hc⟩
        · rintro ⟨x, hx, hf, hc⟩
          exact ⟨x, (h x).2 ⟨hx, hf ▸ hin⟩, hf, hc⟩
      rw [hhit]
    · rw [if_neg hin] at hne
      exact absurd rfl hne

/-- Filtering keeps the records of tracked files, in their order, under the given name and the tree's path, and counts
the others; it leaves its own output as it is, and what it drops is what parsing the result lacks. -/
theorem filter_commutes (root : Root) (hroot : root.OnlyLinux) (cwd tree name lsFiles src : Text)
    (recs : List TreeRecord) (htree : abspath cwd tree = root.path) (hname : '\n' ∉ name ∧ '\r' ∉ name)
    (hsrc : TreeFile src recs) :
    (∃ pairs pairs', parseLcov src = some pairs ∧
      parseLcov (filterMain cwd tree name lsFiles src).out = some pairs' ∧
      ∀ file, pairs'.lookup file = if file ∈ splitlines lsFiles then pairs.lookup file else none) ∧
    (filterMain cwd tree name lsFiles (filterMain cwd tree name lsFiles src).out).out =
      (filterMain cwd tree name lsFiles src).out ∧
    (filterMain cwd tree name lsFiles src).kept + (filterMain cwd tree name lsFiles src).dropped = recs.length ∧
    lines (filterMain cwd tree name lsFiles src).out =
      (recs.filter (·.rel ∈ splitlines lsFiles)).flatMap fun r => (r.renamed name root).lines := by
  have hinline := hsrc.inline (Or.inl rfl)
  have hlines : (pieces (universal src)).map chomp = recs.flatMap TreeRecord.lines := by
    rw [map_chomp_pieces, hsrc.lines_eq]
  obtain ⟨qs, hrun, hqcut, hqlines, -⟩ := @filter_records name root (splitlines lsFiles) hname.1 _ _
    hsrc.proper hinline (cut_pieces _) hlines [] 0 0
  have hmain : filterMain cwd tree name lsFiles src = ⟨qs.flatten, (recs.filter (·.rel ∈ splitlines lsFiles)).length,
      (recs.filter (·.rel ∉ splitlines lsFiles)).length, []⟩ := by
    rw [filterMain, htree, hrun]
    simp
  -- the output is again a complete tracefile
  have hqs : lines qs.flatten =
      (recs.filter (·.rel ∈ splitlines lsFiles)).flatMap fun r => (r.renamed name root).lines := by
    rw [← map_chomp_pieces, pieces_of_cut hqcut, hqlines]
  have hreturn : '\r' ∉ qs.flatten := by
    refine return_of_chomp fun l hl => ?_
    rw [hqlines] at hl
    obtain ⟨r, hr, hl⟩ := List.mem_flatMap.1 hl
    exact renamed_inline (Or.inr rfl) hname.2 (hsrc.inline (Or.inr rfl) r (List.mem_of_mem_filter hr)) l hl
  have hkept : ∀ r ∈ (recs.filter (·.rel ∈ splitlines lsFiles)).map (TreeRecord.renamed name root),
      r.Proper ∧ r.root.OnlyLinux ∧ r.rel ∈ splitlines lsFiles ∧ r.tn = name ∧ r.root = root := by
    intro r hr
    obtain ⟨s, hs, rfl⟩ := List.mem_map.1 hr
    exact ⟨(hsrc.proper s (List.mem_of_mem_filter hs)).1, hroot, of_decide_eq_true (List.mem_filter.1 hs).2, rfl, rfl⟩
  have hout : TreeFile qs.flatten ((recs.filter (·.rel ∈ splitlines lsFiles)).map (TreeRecord.renamed name root)) := by
    refine ⟨?_, fun r hr => ⟨(hkept r hr).1, (hkept r hr).2.1⟩⟩
    rw [universal_of_noReturn hreturn, hqs, List.flatMap_map]
  rw [hmain]
  refine ⟨?_, ?_, ?_, hqs⟩
  · obtain ⟨pairs, hpairs, hcov⟩ := parse_counts hsrc.reads
    obtain ⟨pairs', hpairs', hcov'⟩ := parse_counts hout.reads
    refine ⟨pairs, pairs', hpairs, hpairs', fun file => ?_⟩
    rw [hcov, hcov']
    exact coverage_restrict (mem_keptFacts (fun r hr => (hsrc.proper r hr).2) hroot) file
  · rw [filterMain, htree, universal_of_noReturn hreturn, pieces_of_cut hqcut,
      filter_again hkept hqcut (by rw [hqlines, List.flatMap_map])]
    rfl
  · simp only [← List.countP_eq_length_filter]
    have hsum := List.length_eq_countP_add_countP (fun r : TreeRecord => decide (r.rel ∈ splitlines lsFiles))
      (l := recs)
    rw [hsum]
    simp

/-- `/linux` -/
def topRoot : Root := ⟨[], by simp⟩

/-- `/b/linux` -/
def deepRoot : Root := ⟨[['b']], by decide⟩

/-- A tracked file from another tree, and one that no tree has. -/
def sampleRecords : List TreeRecord :=
  [⟨['x'], deepRoot, fileA, [.da 7 1 none, .da 8 0 none]⟩, ⟨[], topRoot, fsDir ++ ['b'], [.da 9 1 none]⟩]

def sampleText : Text := unlines (sampleRecords.flatMap TreeRecord.lines)

theorem filter_commutes_sample :
    (filterMain [] topRoot.path ['k'] (fileA ++ ['\n']) sampleText).kept +
      (filterMain [] topRoot.path ['k'] (fileA ++ ['\n']) sampleText).dropped = sampleRecords.length ∧
    lines (filterMain [] topRoot.path ['k'] (fileA ++ ['\n']) sampleText).out =
      (sampleRecords.filter (·.rel ∈ splitlines (fileA ++ ['\n']))).flatMap
        fun r => (r.renamed ['k'] topRoot).lines := by
  have hsrc : TreeFile sampleText sampleRecords := by
    refine ⟨by decide, ?_⟩
    simp [sampleRecords, TreeRecord.Proper, Body.Proper, Body.line, Root.OnlyLinux, topRoot, deepRoot, linuxName,
      tnTag, daTag]
  exact (filter_commutes topRoot (by simp [Root.OnlyLinux, topRoot]) [] topRoot.path ['k'] (fileA ++ ['\n'])
    sampleText sampleRecords (abspath_root [] topRoot) (by decide) hsrc).2.2

end NfsPlayground.Coverage
