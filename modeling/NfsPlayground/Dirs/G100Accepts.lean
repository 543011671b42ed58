import NfsPlayground.Dirs.G100Verify

/-!
# generic/100: the trees that are accepted

On a file system whose directories list what is in them, `g100_verify()` accepts a tree whose files begin with the
bytes of the source and which has the source's names. It reads no further than `G100_FILESZ` bytes into a file, so
that a tree may be accepted and be longer than the source (`Hidden`).
-/

namespace NfsPlayground.Dirs.G100

open Lines Posix Readdir Races PyText

/-! ## The path buffers -/

theorem take_extend (path : Text) (letter : Char) (i : Nat) :
    (extend path path.length letter i).take path.length = path := by
  rw [extend, List.take_length, List.take_left]

/-- The buffer is as it was when the call is over. -/
theorem build_path : ∀ (depth : Nat) (s : Build),
    Ends (fun t : Build => t.path = s.path) (fun _ => True) (g100_build depth s)
  | depth, s => by
    have hfiles : Ends (fun t : Build => t.path = s.path) (fun _ => True)
        ((List.range G100_FILES).foldlM (buildFile s.path.length) s) := by
      refine Ends.foldlM_range (I := fun _ (t : Build) => t.path = s.path) G100_FILES (fun i t _ ht => ?_) rfl
      unfold buildFile
      dsimp only
      rw [ht]
      split
      · exact take_extend s.path 'f' i
      · trivial
    cases depth with
    | zero => exact hfiles
    | succ depth =>
      refine hfiles.bind fun t ht => Ends.foldlM_range (I := fun _ (t : Build) => t.path = s.path) G100_DIRS
        (fun i t _ ht => ?_) ht
      unfold buildDir
      dsimp only
      rw [ht]
      split
      · refine (build_path depth _).map fun u hu => ?_
        exact (congrArg (List.take s.path.length) hu).trans (take_extend s.path 'd' i)
      · trivial

theorem copy_path : ∀ (depth : Nat) (s : Copy),
    Ends (fun t : Copy => t.src = s.src ∧ t.dst = s.dst) (fun _ => True) (g100_copy depth s)
  | depth, s => by
    have hfiles : Ends (fun t : Copy => t.src = s.src ∧ t.dst = s.dst) (fun _ => True)
        ((List.range G100_FILES).foldlM (copyFile s.src.length s.dst.length) s) := by
      refine Ends.foldlM_range (I := fun _ (t : Copy) => t.src = s.src ∧ t.dst = s.dst) G100_FILES (fun i t _ ht => ?_)
        ⟨rfl, rfl⟩
      unfold copyFile
      dsimp only
      rw [ht.1, ht.2]
      split
      · split
        · exact ⟨take_extend s.src 'f' i, take_extend s.dst 'f' i⟩
        · trivial
      · trivial
    cases depth with
    | zero => exact hfiles
    | succ depth =>
      refine hfiles.bind fun t ht => Ends.foldlM_range
        (I := fun _ (t : Copy) => t.src = s.src ∧ t.dst = s.dst) G100_DIRS
        (fun i t _ ht => ?_) ht
      unfold copyDir
      dsimp only
      rw [ht.1, ht.2]
      split
      · refine (copy_path depth _).map fun u hu => ⟨?_, ?_⟩
        · exact (congrArg (List.take s.src.length) hu.1).trans (take_extend s.src 'd' i)
        · exact (congrArg (List.take s.dst.length) hu.2).trans (take_extend s.dst 'd' i)
      · trivial

theorem verify_path (fs : Fs Text) (rd : Reader) : ∀ (depth : Nat) (s : Verify),
    Ends (fun t : Verify => t.path = s.path) (fun _ => True) (g100_verify fs rd depth s)
  | depth, s => by
    have hfiles : ∀ s' : Verify, s'.path = s.path → Ends (fun t : Verify => t.path = s.path) (fun _ => True)
        ((List.range G100_FILES).foldlM (verifyFile fs s.path.length) s') := by
      intro s' hs'
      refine Ends.foldlM_range (I := fun _ (t : Verify) => t.path = s.path) G100_FILES (fun i t _ ht => ?_) hs'
      unfold verifyFile
      dsimp only
      rw [ht]
      split
      · exact take_extend s.path 'f' i
      · trivial
    have hdir : ∀ depth, Ends (fun _ => True) (fun _ => True) (g100_verify_dir fs rd s.path depth) := by
      intro depth
      cases g100_verify_dir fs rd s.path depth <;> trivial
    cases depth with
    | zero => exact (hdir 0).bind fun failed _ => hfiles ⟨s.path, s.seed, s.failed || failed⟩ rfl
    | succ depth =>
      refine (hdir (depth + 1)).bind fun failed _ => (hfiles ⟨s.path, s.seed, s.failed || failed⟩ rfl).bind fun t ht =>
        Ends.foldlM_range (I := fun _ (t : Verify) => t.path = s.path) G100_DIRS (fun i t _ ht => ?_) ht
      unfold verifyDir
      rw [ht]
      refine (verify_path fs rd depth _).map fun u hu => ?_
      exact (congrArg (List.take s.path.length) hu).trans (take_extend s.path 'd' i)

/-! ## What a directory lists -/

/-- Each directory lists the names in it, once, and with them perhaps `.` and `..`, which are no file's name. -/
structure Lists (fs : Fs Text) (rd : Reader) : Prop where
  nodup : ∀ p, fs.get p = some .dir → (rd.names p).Nodup
  mem : ∀ p, fs.get p = some .dir → ∀ n, ¬ IsDot n → (n ∈ rd.names p ↔ fs.get (p ++ [n]) ≠ none)
  dots : ∀ p n, IsDot n → fs.get (p ++ [n]) = none

/-- Every file system without such names is listed by some reader. -/
theorem lists_listing {fs : Fs Text} (h : ∀ p n, IsDot n → fs.get (p ++ [n]) = none) (size : Path → Nat → Nat) :
    Lists fs ⟨fun p => ['.'] :: ['.', '.'] :: fs.listing p, size⟩ where
  nodup p _ := by
    have hdot : ∀ n, IsDot n → n ∉ fs.listing p := fun n hn hmem => Fs.mem_listing.1 hmem (h p n hn)
    refine List.nodup_cons.2 ⟨?_, List.nodup_cons.2 ⟨hdot _ (Or.inr rfl), List.nodup_dedup _⟩⟩
    exact List.not_mem_cons_of_ne_of_not_mem (by decide) (hdot _ (Or.inl rfl))
  mem p _ n hn := by
    rw [← Fs.mem_listing, List.mem_cons, List.mem_cons]
    exact ⟨fun hmem => hmem.elim (fun heq => absurd (Or.inl heq) hn) (Or.resolve_left · fun heq => hn (Or.inr heq)),
      fun hmem => Or.inr (Or.inr hmem)⟩
  dots := h

theorem countP_of_mem {l : List Text} (h : l.Nodup) {p : Text → Bool} {f : Nat → Text} (hf : ∀ i j, f i = f j → i = j)
    (k : Nat) (hmem : ∀ n, n ∈ l ∧ p n = true ↔ ∃ i < k, n = f i) : l.countP p = k := by
  have hperm : (l.filter p).Perm ((List.range k).map f) := by
    refine (List.perm_ext_iff_of_nodup (h.filter p) (List.nodup_range.map fun i j => hf i j)).2 fun n => ?_
    rw [List.mem_filter, hmem, List.mem_map]
    constructor
    · rintro ⟨i, hi, rfl⟩
      exact ⟨i, List.mem_range.2 hi, rfl⟩
    · rintro ⟨i, hi, rfl⟩
      exact ⟨i, List.mem_range.1 hi, rfl⟩
  rw [List.countP_eq_length_filter, hperm.length_eq, List.length_map, List.length_range]

/-- The subdirectories at a depth of the tree. -/
def dirsAt (depth : Nat) (rel : Path) : Nat := if rel.length < depth then G100_DIRS else 0

/-- What is in a directory of the tree. -/
theorem made_snoc : ∀ {depth : Nat} {seed : UInt32} {rel : Path}, made depth seed rel = some .dir → ∀ n,
    made depth seed (rel ++ [n]) ≠ none ↔ (∃ i < G100_FILES, n = fname i) ∨ ∃ j < dirsAt depth rel, n = dname j
  | depth, seed, [], _, n => by
    have hlevel : ∀ sub dirs, level sub seed G100_FILES dirs [n] ≠ none ↔
        (∃ i < G100_FILES, n = fname i) ∨ ∃ j < dirs, n = dname j ∧ sub j [] ≠ none := by
      intro sub dirs
      rcases level_cases G100_FILES dirs n with ⟨i, hi, rfl⟩ | ⟨j, hj, rfl⟩ | ⟨hf, hd⟩
      · rw [level_file hi, if_pos rfl]
        exact iff_of_true (Option.some_ne_none _) (Or.inl ⟨i, hi, rfl⟩)
      · rw [level_dir hj]
        constructor
        · exact fun h => Or.inr ⟨j, hj, rfl, h⟩
        · rintro (⟨i, -, hi⟩ | ⟨k, -, hk, h⟩)
          · exact absurd hi.symm (fname_ne_dname i j)
          · rwa [dname_inj hk]
      · rw [level_none hf hd]
        refine iff_of_false (not_not.2 rfl) ?_
        rintro (⟨i, hi, rfl⟩ | ⟨j, hj, rfl, -⟩)
        · exact hf i hi rfl
        · exact hd j hj rfl
    cases depth with
    | zero => simpa [dirsAt, made] using hlevel (fun _ _ => none) 0
    | succ depth =>
      have hnil : ∀ seed, made depth seed [] ≠ none := fun seed => by cases depth <;> exact Option.some_ne_none _
      simpa [dirsAt, made, hnil] using
        hlevel (fun j => made depth (seed + 3 + UInt32.ofNat j * seeds depth)) G100_DIRS
  | depth, seed, c :: rel, hdir, n => by
    cases depth with
    | zero =>
      rcases level_cases G100_FILES 0 c with ⟨i, hi, rfl⟩ | ⟨j, hj, -⟩ | ⟨hf, hd⟩
      · rw [made, level_file hi] at hdir
        split at hdir <;> cases hdir
      · exact absurd hj (Nat.not_lt_zero j)
      · rw [made, level_none hf hd] at hdir
        cases hdir
    | succ depth =>
      rcases level_cases G100_FILES G100_DIRS c with ⟨i, hi, rfl⟩ | ⟨j, hj, rfl⟩ | ⟨hf, hd⟩
      · rw [made, level_file hi] at hdir
        split at hdir <;> cases hdir
      · rw [made, level_dir hj] at hdir
        have ih := made_snoc hdir n
        rw [List.cons_append, made, level_dir hj, ih]
        simp [dirsAt]
      · rw [made, level_none hf hd] at hdir
        cases hdir

/-- The files of the tree are as long as the comparison reads. -/
theorem made_file : ∀ {depth : Nat} {seed : UInt32} {rel : Path} {b : List UInt8},
    made depth seed rel = some (.file b) → b.length = G100_FILESZ
  | depth, seed, [], b, h => by cases depth <;> cases h
  | depth, seed, c :: rel, b, h => by
    have hlevel : ∀ sub dirs, (∀ j, sub j rel = some (.file b) → b.length = G100_FILESZ) →
        level sub seed G100_FILES dirs (c :: rel) = some (.file b) → b.length = G100_FILESZ := by
      intro sub dirs hsub hb
      rcases level_cases G100_FILES dirs c with ⟨i, hi, rfl⟩ | ⟨j, hj, rfl⟩ | ⟨hf, hd⟩
      · rw [level_file hi] at hb
        split at hb
        · rw [← Item.file.inj (Option.some.inj hb), length_fill]
        · cases hb
      · rw [level_dir hj] at hb
        exact hsub j hb
      · rw [level_none hf hd] at hb
        cases hb
    cases depth with
    | zero => exact hlevel _ _ (fun j hj => by cases hj) h
    | succ depth => exact hlevel _ _ (fun j hj => made_file hj) h

/-! ## Trees that look alike -/

/-- What the comparison can see of an entry. -/
def cut : Option Item → Option Item
  | some (.file b) => some (.file (b.take G100_FILESZ))
  | x => x

/-- The destination is the tree as far as the comparison reads its files. -/
def Prefixed (fs : Fs Text) (m : Path → Option Item) (q : Path) : Prop := ∀ rel, cut (fs.view (q ++ rel)) = m rel

/-- A directory of the tree holds an entry that the tree has not. -/
def Crowded (fs : Fs Text) (m : Path → Option Item) (q : Path) : Prop :=
  ∃ rel n, m rel = some .dir ∧ m (rel ++ [n]) = none ∧ fs.view (q ++ (rel ++ [n])) ≠ none

/-- A file goes on where the comparison stops reading. -/
def Longer (fs : Fs Text) (q : Path) : Prop := ∃ rel b, fs.view (q ++ rel) = some (.file b) ∧ G100_FILESZ < b.length

variable {depth : Nat} {seed : UInt32} {fs : Fs Text} {rd : Reader} {q : Path}

theorem cut_dir {x : Option Item} : cut x = some .dir ↔ x = some .dir := by
  rcases x with _ | (_ | b) <;> simp [cut]

theorem cut_none {x : Option Item} : cut x = none ↔ x = none := by
  rcases x with _ | (_ | b) <;> simp [cut]

theorem numbered_fname {n : Text} : numbered 'f' G100_FILES n = true ↔ ∃ i < G100_FILES, n = fname i :=
  numbered_iff (by decide) n

theorem numbered_dname {n : Text} : numbered 'd' G100_DIRS n = true ↔ ∃ j < G100_DIRS, n = dname j :=
  numbered_iff (by decide) n

/-- The counts in a directory of such a tree are right. -/
theorem Prefixed.listed (h : Prefixed fs (made depth seed) q) (hlists : Lists fs rd) {rel : Path}
    (hdir : made depth seed rel = some .dir) : DirLooks fs rd (q ++ rel) (dirsAt depth rel) := by
  have hview : fs.view (q ++ rel) = some .dir := cut_dir.1 ((h rel).trans hdir)
  have hget := Fs.view_dir.1 hview
  have hnodup := hlists.nodup _ hget
  have hmem : ∀ n, ¬ IsDot n → (n ∈ rd.names (q ++ rel) ↔
      (∃ i < G100_FILES, n = fname i) ∨ ∃ j < dirsAt depth rel, n = dname j) := by
    intro n hn
    rw [hlists.mem _ hget n hn, ← made_snoc hdir, ← h, List.append_assoc]
    exact not_congr (Fs.view_none.symm.trans cut_none.symm)
  have hle : dirsAt depth rel ≤ G100_DIRS := by
    unfold dirsAt
    split
    · exact Nat.le_refl _
    · exact Nat.zero_le _
  have hnot : ∀ {n : Text}, (∃ i < G100_FILES, n = fname i) ∨ (∃ j < dirsAt depth rel, n = dname j) → ¬ Alien n := by
    rintro n (⟨i, hi, rfl⟩ | ⟨j, hj, rfl⟩) halien
    · exact Bool.eq_false_iff.1 halien.2.2 (numbered_fname.2 ⟨i, hi, rfl⟩)
    · exact Bool.eq_false_iff.1 halien.2.1 (numbered_dname.2 ⟨j, Nat.lt_of_lt_of_le hj hle, rfl⟩)
  -- seven names at most, so that the walk reads them all
  have hshort : (rd.names (q ++ rel)).length < 2 ^ 31 := by
    have hsub : rd.names (q ++ rel) ⊆
        ['.'] :: ['.', '.'] :: ((List.range G100_FILES).map fname ++ (List.range G100_DIRS).map dname) := by
      intro n hn
      by_cases hdot : IsDot n
      · rcases hdot with rfl | rfl <;> simp
      · refine List.mem_cons_of_mem _ (List.mem_cons_of_mem _ (List.mem_append.2 ?_))
        rcases (hmem n hdot).1 hn with ⟨i, hi, rfl⟩ | ⟨j, hj, rfl⟩
        · exact Or.inl (List.mem_map_of_mem (List.mem_range.2 hi))
        · exact Or.inr (List.mem_map_of_mem (List.mem_range.2 (Nat.lt_of_lt_of_le hj hle)))
    exact Nat.lt_of_le_of_lt (hnodup.subperm hsub).length_le (by decide)
  have hread : readNames rd (q ++ rel) = rd.names (q ++ rel) := by
    rw [readNames, reach_eq _ hshort, List.take_length]
  have hfiles : (rd.names (q ++ rel)).countP (numbered 'f' G100_FILES) = G100_FILES := by
    refine countP_of_mem hnodup (fun _ _ => fname_inj) G100_FILES fun n => ?_
    rw [numbered_fname]
    refine and_iff_right_of_imp fun hn => ?_
    exact (hmem n (not_dot_of_numbered (by decide) (numbered_fname.2 hn))).2 (Or.inl hn)
  have hdirs : (rd.names (q ++ rel)).countP (numbered 'd' G100_DIRS) = dirsAt depth rel := by
    refine countP_of_mem hnodup (fun _ _ => dname_inj) (dirsAt depth rel) fun n => ?_
    constructor
    · rintro ⟨hn, hd⟩
      obtain ⟨j, -, rfl⟩ := numbered_dname.1 hd
      rcases (hmem _ (not_dot_of_numbered (by decide) hd)).1 hn with ⟨i, -, hi⟩ | hj
      · exact absurd hi.symm (fname_ne_dname i j)
      · exact hj
    · rintro ⟨j, hj, rfl⟩
      have hd : numbered 'd' G100_DIRS (dname j) = true := numbered_dname.2 ⟨j, Nat.lt_of_lt_of_le hj hle, rfl⟩
      exact ⟨(hmem _ (not_dot_of_numbered (by decide) hd)).2 (Or.inr ⟨j, hj, rfl⟩), hd⟩
  have halien : (rd.names (q ++ rel)).countP Alien = 0 := by
    refine List.countP_eq_zero.2 fun n hn halien => ?_
    rw [decide_eq_true_iff] at halien
    exact hnot ((hmem n halien.1).1 hn) halien
  refine ⟨hview, ?_⟩
  unfold Listed
  rw [hread, hfiles, hdirs, halien]
  exact ⟨rfl, cint_eq (Nat.lt_of_le_of_lt hle (by decide)), rfl⟩

theorem Prefixed.alike (h : Prefixed fs (made depth seed) q) (hlists : Lists fs rd) :
    Alike fs rd depth (made depth seed) q := by
  intro rel
  cases hmade : made depth seed rel with
  | none => trivial
  | some x =>
    cases x with
    | dir => exact h.listed hlists hmade
    | file b =>
      have hrel := (h rel).trans hmade
      rcases hview : fs.view (q ++ rel) with _ | (_ | c)
      · rw [hview] at hrel
        cases hrel
      · rw [hview] at hrel
        cases hrel
      · rw [hview] at hrel
        refine ⟨c.drop G100_FILESZ, ?_⟩
        rw [← Item.file.inj (Option.some.inj hrel), List.take_append_drop]

/-- A tree that looks alike and holds no other entries is the tree, as far as its files are read. -/
theorem Alike.prefixed (hup : fs.Up) (h : Alike fs rd depth (made depth seed) q)
    (hnot : ¬ Crowded fs (made depth seed) q) : Prefixed fs (made depth seed) q := by
  have hhere : ∀ rel, made depth seed rel ≠ none → cut (fs.view (q ++ rel)) = made depth seed rel := by
    intro rel hsome
    have hrel := h rel
    cases hmade : made depth seed rel with
    | none => exact absurd hmade hsome
    | some x =>
      rw [hmade] at hrel
      cases x with
      | dir => exact cut_dir.2 hrel.1
      | file b =>
        obtain ⟨t, ht⟩ := hrel
        rw [ht, cut, ← made_file hmade, List.take_left]
  intro rel
  induction rel using List.reverseRecOn with
  | nil =>
    refine hhere [] ?_
    cases depth <;> exact Option.some_ne_none _
  | append_singleton rel n ih =>
    by_cases hsome : made depth seed (rel ++ [n]) = none
    · rw [hsome, cut_none]
      by_cases hdir : made depth seed rel = some .dir
      · exact not_not.1 fun hview => hnot ⟨rel, n, hdir, hsome, hview⟩
      · refine Fs.view_none.2 (Option.eq_none_iff_forall_ne_some.2 fun x hx => ?_)
        rw [← List.append_assoc] at hx
        exact hdir (ih.symm.trans (cut_dir.2 (Fs.view_dir.2 (hup hx))))
    · exact hhere _ hsome

theorem Prefixed.not_crowded (h : Prefixed fs (made depth seed) q) : ¬ Crowded fs (made depth seed) q := by
  rintro ⟨rel, n, -, hnone, hview⟩
  exact hview (cut_none.1 ((h _).trans hnone))

/-- The destination is the tree. -/
def Equal (fs : Fs Text) (m : Path → Option Item) (q : Path) : Prop := ∀ rel, fs.view (q ++ rel) = m rel

theorem equal_iff : Equal fs (made depth seed) q ↔ Prefixed fs (made depth seed) q ∧ ¬ Longer fs q := by
  constructor
  · intro h
    refine ⟨fun rel => ?_, ?_⟩
    · rw [h]
      rcases hmade : made depth seed rel with _ | (_ | b)
      · rfl
      · rfl
      · rw [cut, List.take_of_length_le (Nat.le_of_eq (made_file hmade))]
    · rintro ⟨rel, b, hview, hlong⟩
      exact Nat.ne_of_gt hlong (made_file ((h rel).symm.trans hview))
  · rintro ⟨h, hnot⟩ rel
    rw [← h rel]
    rcases hview : fs.view (q ++ rel) with _ | (_ | b)
    · rfl
    · rfl
    · rw [cut, List.take_of_length_le (Nat.le_of_not_lt fun hlong => hnot ⟨rel, b, hview, hlong⟩)]

/-- The destination is not the tree where the comparison does not look. -/
def Hidden (fs : Fs Text) (rd : Reader) (depth : Nat) (seed : UInt32) (q : Path) : Prop :=
  Alike fs rd depth (made depth seed) q ∧ (Crowded fs (made depth seed) q ∨ Longer fs q)

theorem alike_iff_equal (hup : fs.Up) (hlists : Lists fs rd) :
    (Alike fs rd depth (made depth seed) q ↔ Equal fs (made depth seed) q) ↔ ¬ Hidden fs rd depth seed q := by
  constructor
  · rintro h ⟨halike, hother⟩
    obtain ⟨hprefixed, hnot⟩ := equal_iff.1 (h.1 halike)
    exact hother.elim hprefixed.not_crowded hnot
  · intro hnot
    constructor
    · intro halike
      have hprefixed := halike.prefixed hup fun hcrowded => hnot ⟨halike, Or.inl hcrowded⟩
      exact equal_iff.2 ⟨hprefixed, fun hlonger => hnot ⟨halike, Or.inr hlonger⟩⟩
    · exact fun hequal => (equal_iff.1 hequal).1.alike hlists

/-- The names counted are all there is, unless a directory has more of them than an `int` can count. -/
theorem Alike.not_crowded (hlists : Lists fs rd) (hsmall : ∀ p, (rd.names p).length < 2 ^ 31)
    (h : Alike fs rd depth (made depth seed) q) : ¬ Crowded fs (made depth seed) q := by
  rintro ⟨rel, n, hdir, hnone, hview⟩
  have hrel := h rel
  rw [hdir] at hrel
  obtain ⟨hthere, -, hdirs, halien⟩ := hrel
  rw [← List.append_assoc] at hview
  have hget := Fs.view_dir.1 hthere
  have hread : readNames rd (q ++ rel) = rd.names (q ++ rel) := by
    rw [readNames, reach_eq _ (hsmall _), List.take_length]
  have hcount : ∀ p : Text → Bool, cint ((rd.names (q ++ rel)).countP p) = (rd.names (q ++ rel)).countP p := fun p =>
    cint_eq (Nat.lt_of_le_of_lt List.countP_le_length (hsmall _))
  rw [hread, hcount] at hdirs halien
  have hdot : ¬ IsDot n := fun hdot => hview (Fs.view_none.2 (hlists.dots _ n hdot))
  have hn : n ∈ rd.names (q ++ rel) := (hlists.mem _ hget n hdot).2 fun hnot => hview (Fs.view_none.2 hnot)
  have hnames := mt (made_snoc hdir n).2 (not_not.2 hnone)
  by_cases hd : numbered 'd' G100_DIRS n = true
  · obtain ⟨j, hj, rfl⟩ := numbered_dname.1 hd
    have hpos := List.countP_pos_iff.2 ⟨_, hn, hd⟩
    have hlt : j < dirsAt depth rel := by
      unfold dirsAt
      split
      · exact hj
      · rename_i hbottom
        rw [if_neg hbottom] at hdirs
        exact absurd (Int.natCast_inj.1 hdirs) (Nat.ne_of_gt hpos)
    exact hnames (Or.inr ⟨j, hlt, rfl⟩)
  · have hf : ¬ numbered 'f' G100_FILES n = true := fun hf => hnames (Or.inl (numbered_fname.1 hf))
    have halien' : Alien n := ⟨hdot, Bool.eq_false_iff.2 hd, Bool.eq_false_iff.2 hf⟩
    exact List.countP_eq_zero.1 (Int.natCast_inj.1 halien) n hn (decide_eq_true halien')

/-- With directories of fewer entries, what is hidden is the end of a file. -/
theorem hidden_iff (hup : fs.Up) (hlists : Lists fs rd) (hsmall : ∀ p, (rd.names p).length < 2 ^ 31) :
    Hidden fs rd depth seed q ↔ Prefixed fs (made depth seed) q ∧ Longer fs q := by
  constructor
  · rintro ⟨halike, hother⟩
    have hnot := halike.not_crowded hlists hsmall
    exact ⟨halike.prefixed hup hnot, hother.resolve_left hnot⟩
  · rintro ⟨hprefixed, hlonger⟩
    exact ⟨hprefixed.alike hlists, Or.inr hlonger⟩

/-! ## The comparison of the copy with the source -/

/-- No assertion and no expectation fails. -/
def Accepts (fs : Fs Text) (rd : Reader) (depth : Nat) (seed : UInt32) (q : Path) : Prop :=
  ∃ s, g100_verify fs rd depth ⟨joined q, seed, false⟩ = .ok s ∧ s.failed = false

theorem accepts_iff (hup : fs.Up) (hq : Proper q) :
    Accepts fs rd depth seed q ↔ Alike fs rd depth (made depth seed) q := by
  have hjudged : Judged (Looks fs rd depth seed q) _ _ := verify_judged hup depth seed hq
  rw [← looks_iff]
  constructor
  · rintro ⟨s, hrun, hs⟩
    by_contra hnot
    exact Bool.false_ne_true (hs.symm.trans (hjudged.bad hnot s hrun))
  · exact fun hlooks => ⟨_, hjudged.good hlooks, rfl⟩

/-- Two directories hold the same tree. -/
def SameTree (fs : Fs Text) (q : Path) (fs' : Fs Text) (q' : Path) : Prop :=
  ∀ rel, fs.view (q ++ rel) = fs'.view (q' ++ rel)

/-- A tree is built, a copy of it is the same tree and is accepted, and any tree is accepted exactly if it is the same,
unless the difference is hidden. The calls leave their path buffers as they found them. -/
theorem accepts_iff_same_tree {src dst : Path} {fs : Fs Text} (hsrc : Proper src) (hdst : Proper dst)
    (hapart : Apart src dst) (htidy : fs.Tidy) (hempty : Empty fs src) (hempty' : Empty fs dst) (depth : Nat)
    (seed : UInt32) :
    (∃ fs₁ fs₂, g100_build depth ⟨joined src, seed, fs⟩ = .ok ⟨joined src, seed + seeds depth, fs₁⟩ ∧
      g100_copy depth ⟨joined src, joined dst, fs₁⟩ = .ok ⟨joined src, joined dst, fs₂⟩ ∧
      SameTree fs₂ dst fs₁ src ∧ (∀ rd, Lists fs₂ rd → Accepts fs₂ rd depth seed dst) ∧
      ∀ (fs' : Fs Text) (rd : Reader), fs'.Up → Lists fs' rd →
        ((Accepts fs' rd depth seed dst ↔ SameTree fs' dst fs₁ src) ↔ ¬ Hidden fs' rd depth seed dst)) ∧
    (∀ s, Ends (fun t : Build => t.path = s.path) (fun _ => True) (g100_build depth s)) ∧
    (∀ s, Ends (fun t : Copy => t.src = s.src ∧ t.dst = s.dst) (fun _ => True) (g100_copy depth s)) ∧
    ∀ fs rd s, Ends (fun t : Verify => t.path = s.path) (fun _ => True) (g100_verify fs rd depth s) := by
  obtain ⟨fs₁, hbuild, hfilled⟩ := build_spec depth seed hsrc hempty htidy
  have hempty₁ : Empty fs₁ dst := fun rel => by
    rw [hfilled.outside _ fun ⟨t, ht⟩ => hapart t rel ht, hempty']
  obtain ⟨fs₂, hcopy, hfilled₂⟩ := copy_spec depth seed hsrc hdst hapart hfilled.tidy hfilled.shows hempty₁
  have hsame : ∀ fs', SameTree fs' dst fs₁ src ↔ Equal fs' (made depth seed) dst := fun fs' =>
    forall_congr' fun rel => by rw [hfilled.shows]
  refine ⟨⟨fs₁, fs₂, hbuild, hcopy, ?_, fun rd hlists => ?_, fun fs' rd hup hlists => ?_⟩, build_path depth,
    copy_path depth, fun fs rd => verify_path fs rd depth⟩
  · exact (hsame fs₂).2 hfilled₂.shows
  · exact (accepts_iff hfilled₂.tidy.toUp hdst).2 ((equal_iff.1 hfilled₂.shows).1.alike hlists)
  · rw [accepts_iff hup hdst, hsame]
    exact alike_iff_equal hup hlists

/-- Two empty directories. -/
def roots : Fs Text := ⟨[([], .dir), ([['s']], .dir), ([['d']], .dir)], fun _ => [], 0, [], []⟩

theorem roots_get (p : Path) : roots.get p = if p = [] ∨ p = [['s']] ∨ p = [['d']] then some .dir else none := by
  split
  · rename_i h
    rcases h with rfl | rfl | rfl <;> rfl
  · rename_i h
    refine Option.eq_none_iff_forall_ne_some.2 fun x hx => ?_
    have hmem := Fs.mem_of_get hx
    simp only [roots, List.mem_cons, Prod.mk.injEq, List.not_mem_nil, or_false] at hmem
    rcases hmem with ⟨rfl, -⟩ | ⟨rfl, -⟩ | ⟨rfl, -⟩ <;> simp at h

theorem roots_tidy : roots.Tidy where
  lt h := by
    rw [roots_get] at h
    split at h <;> cases h
  alone h := by
    rw [roots_get] at h
    split at h <;> cases h
  up {p n x} h := by
    rw [roots_get] at h ⊢
    split at h
    · rename_i hp
      have hnil : p = [] := by
        rcases hp with hp | hp | hp
        · simp at hp
        · exact (List.append_eq_singleton_iff.1 hp).elim (·.1) fun h => absurd h.2 (by simp)
        · exact (List.append_eq_singleton_iff.1 hp).elim (·.1) fun h => absurd h.2 (by simp)
      rw [hnil, if_pos (Or.inl rfl)]
    · cases h

theorem proper_s : Proper [['s']] := fun c hc => by
  rw [List.mem_singleton.1 hc]
  decide

theorem proper_d : Proper [['d']] := fun c hc => by
  rw [List.mem_singleton.1 hc]
  decide

theorem roots_empty {c : Text} (hc : c = ['s'] ∨ c = ['d']) : Empty roots [c] := by
  intro rel
  split
  · rename_i hrel
    subst hrel
    rw [Fs.view_dir, roots_get, List.append_nil]
    rcases hc with rfl | rfl <;> simp
  · rename_i hrel
    rw [Fs.view_none, roots_get, if_neg]
    simp [hrel]

/-- A directory as a copy at depth 0 leaves it, but for a byte after the end of its first file. -/
def long : Fs Text where
  nodes := [([], .dir), ([['d']], .dir), ([['d'], fname 0], .file 0), ([['d'], fname 1], .file 1),
    ([['d'], fname 2], .file 2)]
  data k := g100_fill (UInt32.ofNat k + 1) ++ if k = 0 then [0] else []
  next := 3
  refs := []
  maps := []

/-- Directories are read one entry a call. -/
def longReader : Reader := ⟨fun p => ['.'] :: ['.', '.'] :: long.listing p, fun _ _ => 0⟩

theorem up_of_nodes {fs : Fs Text} (h : ∀ e ∈ fs.nodes, e.1 = [] ∨ fs.get e.1.dropLast = some .dir) : fs.Up := by
  intro p n x hx
  rcases h _ (Fs.mem_of_get hx) with hnil | hdir
  · simp at hnil
  · rwa [List.dropLast_concat] at hdir

/-- No name of a node is that of a directory itself, or of the one above it. -/
theorem lists_of_nodes {fs : Fs Text} (h : ∀ e ∈ fs.nodes, ¬ IsDot (e.1.getLastD [])) (size : Path → Nat → Nat) :
    Lists fs ⟨fun p => ['.'] :: ['.', '.'] :: fs.listing p, size⟩ := by
  refine lists_listing (fun p n hn => Option.eq_none_iff_forall_ne_some.2 fun x hx => ?_) size
  have hnot := h _ (Fs.mem_of_get hx)
  rw [List.getLastD_concat] at hnot
  exact hnot hn

theorem long_up : long.Up := up_of_nodes (by decide)

theorem long_lists : Lists long longReader := lists_of_nodes (by decide) _

theorem long_view {i : Nat} (hi : i < 3) : long.view ([['d']] ++ [fname i]) =
    some (.file (g100_fill (0 + UInt32.ofNat i + 1) ++ if i = 0 then [0] else [])) := by
  have hget : ∀ i < 3, long.get ([['d']] ++ [fname i]) = some (.file i) := by decide
  rw [Fs.view_of_get (hget i hi), UInt32.zero_add]
  rfl

/-- The first file of the copy is a byte longer than that of the source, and the comparison accepts it. -/
theorem long_accepted : long.Up ∧ Lists long longReader ∧ Accepts long longReader 0 0 [['d']] ∧
    ∃ fs₁, g100_build 0 ⟨joined [['s']], 0, roots⟩ = .ok ⟨joined [['s']], seeds 0, fs₁⟩ ∧
      ¬ SameTree long [['d']] fs₁ [['s']] := by
  refine ⟨long_up, long_lists, ?_, ?_⟩
  · have hread : readNames longReader [['d']] = longReader.names [['d']] := by
      rw [readNames, reach_eq _ (by decide), List.take_length]
    refine (accepts_iff long_up proper_d).2 ((looks_iff 0 0 _).1 ⟨⟨rfl, ?_⟩, fun i hi => ⟨_, long_view hi⟩⟩)
    unfold Listed
    rw [hread]
    decide
  · obtain ⟨fs₁, hbuild, hfilled⟩ := build_spec 0 0 proper_s (roots_empty (Or.inl rfl)) roots_tidy
    refine ⟨fs₁, hbuild, fun hsame => ?_⟩
    have hview := hsame [fname 0]
    rw [long_view (by decide), hfilled.shows, made, level_file (by decide), if_pos rfl] at hview
    have hlength := congrArg List.length (Item.file.inj (Option.some.inj hview))
    rw [List.length_append, length_fill] at hlength
    exact absurd hlength (by decide)

/-- A directory as a copy at depth 1 leaves it, but for a byte after the end of a file in its second directory. -/
def deep : Fs Text where
  nodes := [([], .dir), ([['d']], .dir), ([['d'], fname 0], .file 0), ([['d'], fname 1], .file 1),
    ([['d'], fname 2], .file 2), ([['d'], dname 0], .dir), ([['d'], dname 0, fname 0], .file 3),
    ([['d'], dname 0, fname 1], .file 4), ([['d'], dname 0, fname 2], .file 5), ([['d'], dname 1], .dir),
    ([['d'], dname 1, fname 0], .file 6), ([['d'], dname 1, fname 1], .file 7), ([['d'], dname 1, fname 2], .file 8)]
  data k := g100_fill (UInt32.ofNat k + 1) ++ if k = 7 then [0] else []
  next := 9
  refs := []
  maps := []

def deepReader : Reader := ⟨fun p => ['.'] :: ['.', '.'] :: deep.listing p, fun _ _ => 0⟩

/-- A copy in one directory and the source in another; the longer tree is among those compared. -/
theorem accepts_iff_same_tree_deep : ∃ fs₁ fs₂,
    g100_build 1 ⟨joined [['s']], 0, roots⟩ = .ok ⟨joined [['s']], 0 + seeds 1, fs₁⟩ ∧
      g100_copy 1 ⟨joined [['s']], joined [['d']], fs₁⟩ = .ok ⟨joined [['s']], joined [['d']], fs₂⟩ ∧
      SameTree fs₂ [['d']] fs₁ [['s']] ∧
      ((Accepts deep deepReader 1 0 [['d']] ↔ SameTree deep [['d']] fs₁ [['s']]) ↔
        ¬ Hidden deep deepReader 1 0 [['d']]) := by
  have hapart : Apart [['s']] [['d']] := fun s t heq =>
    absurd (List.cons.inj (List.cons.inj heq).1).1 (by decide)
  obtain ⟨⟨fs₁, fs₂, hbuild, hcopy, hsame, -, hiff⟩, -⟩ := accepts_iff_same_tree proper_s proper_d hapart roots_tidy
    (roots_empty (Or.inl rfl)) (roots_empty (Or.inr rfl)) 1 0
  exact ⟨fs₁, fs₂, hbuild, hcopy, hsame,
    hiff deep deepReader (up_of_nodes (by decide)) (lists_of_nodes (by decide) _)⟩

end NfsPlayground.Dirs.G100
