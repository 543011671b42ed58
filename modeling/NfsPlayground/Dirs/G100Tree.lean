import NfsPlayground.Dirs.G100
import NfsPlayground.Lib.Ends

/-!
# generic/100: the tree that is built and copied

`made depth seed` is the tree of a call as a map from relative paths. A call that starts on an empty directory leaves
this tree in it and nothing else changed, with the path buffer and the seed as the caller expects them (`build_spec`);
a copy of the tree is the tree (`copy_spec`).
-/

namespace NfsPlayground.Dirs.G100

open Lines Posix Readdir Races PyText

/-! ## Names and paths -/

/-- The names of files and directories. -/
def fname (i : Nat) : Text := 'f' :: decimal i

def dname (i : Nat) : Text := 'd' :: decimal i

theorem fname_inj {i j : Nat} (h : fname i = fname j) : i = j := decimal_inj (List.cons.inj h).2

theorem dname_inj {i j : Nat} (h : dname i = dname j) : i = j := decimal_inj (List.cons.inj h).2

theorem fname_ne_dname (i j : Nat) : fname i ≠ dname j := fun h => absurd (List.cons.inj h).1 (by decide)

/-- A path of names that are not empty and have no slash. -/
def Proper (q : Path) : Prop := ∀ c ∈ q, c ≠ [] ∧ '/' ∉ c

theorem slash_not_mem_decimal (i : Nat) : '/' ∉ decimal i := fun h =>
  absurd (Nat.isDigit_of_mem_toDigits (by decide) (by decide) h) (by decide)

theorem Proper.snoc {q : Path} (h : Proper q) {letter : Char} (hl : letter ≠ '/') (i : Nat) :
    Proper (q ++ [letter :: decimal i]) := by
  intro c hc
  rcases List.mem_append.1 hc with hc | hc
  · exact h c hc
  · rw [List.mem_singleton.1 hc]
    refine ⟨List.cons_ne_nil _ _, fun hmem => ?_⟩
    rcases List.mem_cons.1 hmem with heq | hmem
    · exact hl heq.symm
    · exact slash_not_mem_decimal i hmem

theorem Proper.file {q : Path} (h : Proper q) (i : Nat) : Proper (q ++ [fname i]) := h.snoc (by decide) i

theorem Proper.dir {q : Path} (h : Proper q) (i : Nat) : Proper (q ++ [dname i]) := h.snoc (by decide) i

theorem components_joined {q : Path} (h : Proper q) : components (joined q) = q := by
  unfold components
  rw [split_joined fun c hc => (h c hc).2, List.filter_cons_of_neg (by simp)]
  exact List.filter_eq_self.2 fun c hc => by simpa using (h c hc).1

theorem extend_joined (q : Path) (letter : Char) (i : Nat) :
    extend (joined q) (joined q).length letter i = joined (q ++ [letter :: decimal i]) := by
  unfold extend
  rw [List.take_length, joined_append]
  simp [joined]

theorem extend_file (q : Path) (i : Nat) : extend (joined q) (joined q).length 'f' i = joined (q ++ [fname i]) :=
  extend_joined q 'f' i

theorem extend_dir (q : Path) (i : Nat) : extend (joined q) (joined q).length 'd' i = joined (q ++ [dname i]) :=
  extend_joined q 'd' i

theorem take_joined (q r : Path) : (joined (q ++ r)).take (joined q).length = joined q := by
  rw [joined_append, List.take_left]

/-! ## The tree -/

/-- A directory with its first files and directories; the bytes of a file come from its number. -/
def level (sub : Nat → Path → Option Item) (seed : UInt32) (files dirs : Nat) : Path → Option Item
  | [] => some .dir
  | n :: rel =>
    match (List.range files).find? (fname · = n) with
    | some i => if rel = [] then some (.file (g100_fill (seed + UInt32.ofNat i + 1))) else none
    | none =>
      match (List.range dirs).find? (dname · = n) with
      | some j => sub j rel
      | none => none

/-- How many seeds a call uses. -/
def seeds : Nat → UInt32
  | 0 => 3
  | depth + 1 => 3 + 2 * seeds depth

theorem seed_succ (seed used : UInt32) (j : Nat) :
    seed + 3 + UInt32.ofNat (j + 1) * used = seed + 3 + UInt32.ofNat j * used + used := by
  rw [UInt32.ofNat_add, UInt32.add_mul, show UInt32.ofNat 1 * used = used from UInt32.one_mul used,
    UInt32.add_assoc _ _ used]

theorem seeds_succ (seed : UInt32) (depth : Nat) :
    seed + seeds (depth + 1) = seed + 3 + UInt32.ofNat G100_DIRS * seeds depth := by
  rw [seeds, UInt32.add_assoc]
  rfl

/-- The tree of a call, by relative path. -/
def made : Nat → UInt32 → Path → Option Item
  | 0, seed => level (fun _ _ => none) seed G100_FILES 0
  | depth + 1, seed => level (fun j => made depth (seed + 3 + UInt32.ofNat j * seeds depth)) seed G100_FILES G100_DIRS

theorem find_range {f : Nat → Text} (hf : ∀ i j, f i = f j → i = j) {k i : Nat} (hi : i < k) :
    (List.range k).find? (fun j => f j = f i) = some i := by
  obtain ⟨j, hj⟩ : ∃ j, (List.range k).find? (fun j => f j = f i) = some j := by
    refine Option.isSome_iff_exists.1 (List.find?_isSome.2 ⟨i, List.mem_range.2 hi, ?_⟩)
    exact decide_eq_true rfl
  have heq : f j = f i := by simpa using List.find?_some hj
  rw [hj, hf j i heq]

theorem find_range_none {f : Nat → Text} {k : Nat} {n : Text} (h : ∀ i < k, f i ≠ n) :
    (List.range k).find? (fun j => f j = n) = none := by
  refine List.find?_eq_none.2 fun i hi => ?_
  simpa using h i (List.mem_range.1 hi)

variable {sub : Nat → Path → Option Item} {seed : UInt32} {files dirs : Nat}

theorem level_nil : level sub seed files dirs [] = some .dir := rfl

theorem level_file {i : Nat} (hi : i < files) (rel : Path) : level sub seed files dirs (fname i :: rel) =
    if rel = [] then some (.file (g100_fill (seed + UInt32.ofNat i + 1))) else none := by
  rw [level, find_range (fun _ _ => fname_inj) hi]

theorem level_dir {j : Nat} (hj : j < dirs) (rel : Path) : level sub seed files dirs (dname j :: rel) = sub j rel := by
  rw [level, find_range_none fun i _ => fname_ne_dname i j, find_range (fun _ _ => dname_inj) hj]

theorem level_none {n : Text} (hf : ∀ i < files, fname i ≠ n) (hd : ∀ j < dirs, dname j ≠ n) (rel : Path) :
    level sub seed files dirs (n :: rel) = none := by
  rw [level, find_range_none hf, find_range_none hd]

/-- What is in a directory is a file, a directory or nothing. -/
theorem level_cases (files dirs : Nat) (n : Text) : (∃ i < files, n = fname i) ∨ (∃ j < dirs, n = dname j) ∨
    (∀ i < files, fname i ≠ n) ∧ ∀ j < dirs, dname j ≠ n := by
  by_cases hf : ∃ i < files, n = fname i
  · exact Or.inl hf
  · by_cases hd : ∃ j < dirs, n = dname j
    · exact Or.inr (Or.inl hd)
    · exact Or.inr (Or.inr ⟨fun i hi heq => hf ⟨i, hi, heq.symm⟩, fun j hj heq => hd ⟨j, hj, heq.symm⟩⟩)

/-! ## A directory that is filled -/

/-- What is at and below a directory. -/
def Shows (fs : Fs Text) (q : Path) (m : Path → Option Item) : Prop := ∀ rel, fs.view (q ++ rel) = m rel

/-- From `fs` on, the directory `q` has been filled with a tree and nothing else has changed. -/
structure Filled (fs : Fs Text) (q : Path) (m : Path → Option Item) (fs' : Fs Text) : Prop where
  tidy : fs'.Tidy
  shows : Shows fs' q m
  outside : ∀ p, ¬ q <+: p → fs'.view p = fs.view p

variable {fs fs' fs'' : Fs Text} {q : Path}

theorem append_snoc_ne (q rel : Path) {n m : Text} (h : n ≠ m) : q ++ n :: rel ≠ q ++ [m] := fun heq =>
  h (List.cons.inj (List.append_cancel_left heq)).1

theorem Filled.file {i : Nat} (h : Filled fs q (level sub seed i 0) fs') (htidy : fs''.Tidy)
    (hview : ∀ p, fs''.view p =
      if p = q ++ [fname i] then some (.file (g100_fill (seed + UInt32.ofNat i + 1))) else fs'.view p) :
    Filled fs q (level sub seed (i + 1) 0) fs'' := by
  refine ⟨htidy, fun rel => ?_, fun p hp => ?_⟩
  · cases rel with
    | nil => rw [hview, if_neg (by simp), h.shows, level, level]
    | cons n rel =>
      by_cases hn : n = fname i
      · subst hn
        have hold : fs'.view (q ++ fname i :: rel) = none :=
          (h.shows _).trans (level_none (fun j hj heq => absurd (fname_inj heq) (Nat.ne_of_lt hj)) (by simp) rel)
        rw [hview, level_file (Nat.lt_succ_self i), hold]
        exact if_congr (by simp) rfl rfl
      · rw [hview, if_neg (append_snoc_ne q rel hn), h.shows]
        rcases level_cases i 0 n with ⟨j, hj, rfl⟩ | ⟨j, hj, -⟩ | ⟨hf, hd⟩
        · rw [level_file hj, level_file (Nat.lt_succ_of_lt hj)]
        · exact absurd hj (Nat.not_lt_zero j)
        · rw [level_none hf hd, level_none (fun j hj => ?_) hd]
          rcases Nat.lt_succ_iff_lt_or_eq.1 hj with hj | rfl
          · exact hf j hj
          · exact Ne.symm hn
  · rw [hview, if_neg, h.outside p hp]
    rintro rfl
    exact hp (List.prefix_append q _)

theorem Filled.dir {j : Nat} (h : Filled fs q (level sub seed files j) fs')
    (h' : Filled fs' (q ++ [dname j]) (sub j) fs'') : Filled fs q (level sub seed files (j + 1)) fs'' := by
  refine ⟨h'.tidy, fun rel => ?_, fun p hp => ?_⟩
  · cases rel with
    | nil =>
      rw [h'.outside _ (fun hp => absurd hp.length_le (by simp)), h.shows, level, level]
    | cons n rel =>
      by_cases hn : n = dname j
      · subst hn
        rw [level_dir (Nat.lt_succ_self j), ← h'.shows, List.append_assoc]
        rfl
      · have hout : ¬ q ++ [dname j] <+: q ++ n :: rel := by
          rw [List.prefix_append_right_inj]
          exact fun hp => hn (List.cons_prefix_cons.1 hp).1.symm
        rw [h'.outside _ hout, h.shows]
        rcases level_cases files j n with ⟨i, hi, rfl⟩ | ⟨k, hk, rfl⟩ | ⟨hf, hd⟩
        · rw [level_file hi, level_file hi]
        · rw [level_dir hk, level_dir (Nat.lt_succ_of_lt hk)]
        · rw [level_none hf hd, level_none hf fun k hk => ?_]
          rcases Nat.lt_succ_iff_lt_or_eq.1 hk with hk | rfl
          · exact hd k hk
          · exact Ne.symm hn
  · rw [h'.outside p fun hpre => hp ((List.prefix_append q _).trans hpre), h.outside p hp]

theorem Filled.dir_self (h : Filled fs q (level sub seed files dirs) fs') : fs'.view q = some .dir := by
  have hnil := h.shows []
  rwa [List.append_nil] at hnil

/-- An empty directory. -/
def Empty (fs : Fs Text) (q : Path) : Prop := ∀ rel, fs.view (q ++ rel) = if rel = [] then some .dir else none

theorem Empty.filled (h : Empty fs q) (htidy : fs.Tidy) : Filled fs q (level sub seed 0 0) fs := by
  refine ⟨htidy, fun rel => ?_, fun p _ => rfl⟩
  rw [h]
  cases rel with
  | nil => rfl
  | cons n rel => rw [level_none (by simp) (by simp)]; rfl

/-- A new directory is empty. -/
theorem Filled.mkdir {j : Nat} (h : Filled fs q (level sub seed files j) fs') :
    ∃ fs'', fs'.mkdir (q ++ [dname j]) = (0, fs'') ∧ fs''.Tidy ∧ Empty fs'' (q ++ [dname j]) ∧
      ∀ p, ¬ q ++ [dname j] <+: p → fs''.view p = fs'.view p := by
  have hdir := h.dir_self
  have hbelow : ∀ rel, fs'.view (q ++ dname j :: rel) = none := fun rel => (h.shows _).trans
    (level_none (fun i _ => fname_ne_dname i j) (fun k hk heq => absurd (dname_inj heq) (Nat.ne_of_lt hk)) rel)
  obtain ⟨fs'', hr, htidy, hview⟩ := Fs.mkdir_view h.tidy hdir (hbelow [])
  refine ⟨fs'', hr, htidy, fun rel => ?_, fun p hp => ?_⟩
  · rw [hview, List.append_assoc, List.singleton_append, hbelow]
    exact if_congr (by simp) rfl rfl
  · rw [hview, if_neg]
    rintro rfl
    exact hp (List.prefix_refl _)

theorem Filled.trans {m : Path → Option Item} (h : ∀ p, ¬ q <+: p → fs'.view p = fs.view p) (h' : Filled fs' q m fs'') :
    Filled fs q m fs'' := ⟨h'.tidy, h'.shows, fun p hp => (h'.outside p hp).trans (h p hp)⟩

/-- A new file is written. -/
theorem Filled.write {i : Nat} (hq : Proper q) (h : Filled fs q (level sub seed i 0) fs') :
    ∃ fs'', xfs_write_new_file fs' (joined (q ++ [fname i])) (g100_fill (seed + UInt32.ofNat i + 1)) = (0, fs'') ∧
      Filled fs q (level sub seed (i + 1) 0) fs'' := by
  have hdir := h.dir_self
  have hnone : fs'.view (q ++ [fname i]) = none := (h.shows _).trans
    (level_none (fun j hj heq => absurd (fname_inj heq) (Nat.ne_of_lt hj)) (by simp) [])
  obtain ⟨k, fs₁, fs'', hcreate, hwrite, htidy, hview⟩ :=
    Fs.create_write_view h.tidy hdir hnone (g100_fill (seed + UInt32.ofNat i + 1))
  refine ⟨fs'', ?_, h.file htidy hview⟩
  have hlen : (g100_fill (seed + UInt32.ofNat i + 1)).length = 4096 := by
    rw [g100_fill, List.length_map, List.length_range]
    rfl
  unfold xfs_write_new_file
  rw [components_joined (hq.file i)]
  dsimp only
  rw [hcreate, if_neg (Int.not_lt.2 (Int.natCast_nonneg k)), if_neg]
  · rw [Int.toNat_natCast, hwrite, hlen]
    rfl
  · intro hnil
    rw [hnil] at hlen
    cases hlen

/-! ## Building -/

/-- The loop over the files fills them in. -/
theorem buildFiles_spec (sub : Nat → Path → Option Item) (seed : UInt32) (hq : Proper q) (hempty : Empty fs q)
    (htidy : fs.Tidy) :
    ∃ fs', (List.range G100_FILES).foldlM (buildFile (joined q).length) ⟨joined q, seed, fs⟩ =
        .ok ⟨joined q, seed + 3, fs'⟩ ∧ Filled fs q (level sub seed G100_FILES 0) fs' := by
  have hloop : Ends (fun s : Build => s.path = joined q ∧ s.seed = seed + UInt32.ofNat G100_FILES ∧
      Filled fs q (level sub seed G100_FILES 0) s.fs) (fun _ => False)
      ((List.range G100_FILES).foldlM (buildFile (joined q).length) ⟨joined q, seed, fs⟩) := by
    refine Ends.foldlM_range (I := fun i (s : Build) => s.path = joined q ∧ s.seed = seed + UInt32.ofNat i ∧
      Filled fs q (level sub seed i 0) s.fs) G100_FILES (fun i s _ hI => ?_) ⟨rfl, by simp, hempty.filled htidy⟩
    obtain ⟨path, seed', fs'⟩ := s
    obtain ⟨rfl, rfl, hfilled⟩ := hI
    obtain ⟨fs'', hr, hfilled'⟩ := hfilled.write hq
    unfold buildFile
    rw [extend_file]
    dsimp only
    rw [hr]
    refine ⟨take_joined q _, ?_, hfilled'⟩
    rw [UInt32.ofNat_add, ← UInt32.add_assoc]
    rfl
  obtain ⟨⟨path, seed', fs'⟩, hrun, rfl, rfl, hfilled⟩ := hloop.exists_ok
  exact ⟨fs', hrun, hfilled⟩

/-- A call on an empty directory leaves its tree there. -/
theorem build_spec : ∀ (depth : Nat) {q : Path} {fs : Fs Text} (seed : UInt32), Proper q → Empty fs q → fs.Tidy →
    ∃ fs', g100_build depth ⟨joined q, seed, fs⟩ = .ok ⟨joined q, seed + seeds depth, fs'⟩ ∧
      Filled fs q (made depth seed) fs'
  | 0, q, fs, seed, hq, hempty, htidy => buildFiles_spec _ seed hq hempty htidy
  | depth + 1, q, fs, seed, hq, hempty, htidy => by
    obtain ⟨fs₁, hfiles, hfilled₁⟩ :=
      buildFiles_spec (fun j => made depth (seed + 3 + UInt32.ofNat j * seeds depth)) seed hq hempty htidy
    have hloop : Ends (fun s : Build => s.path = joined q ∧ s.seed = seed + 3 + UInt32.ofNat G100_DIRS * seeds depth ∧
        Filled fs q (made (depth + 1) seed) s.fs) (fun _ => False)
        ((List.range G100_DIRS).foldlM (buildDir (g100_build depth) (joined q).length) ⟨joined q, seed + 3, fs₁⟩) := by
      refine Ends.foldlM_range (I := fun j (s : Build) => s.path = joined q ∧
        s.seed = seed + 3 + UInt32.ofNat j * seeds depth ∧
        Filled fs q (level (fun j => made depth (seed + 3 + UInt32.ofNat j * seeds depth)) seed G100_FILES j) s.fs)
        G100_DIRS (fun j s _ hI => ?_) ⟨rfl, by simp, hfilled₁⟩
      obtain ⟨path, seed', fs'⟩ := s
      obtain ⟨rfl, rfl, hfilled⟩ := hI
      obtain ⟨fs₂, hmkdir, htidy₂, hempty₂, hout₂⟩ := hfilled.mkdir
      obtain ⟨fs₃, hrun, hfilled₃⟩ := build_spec depth (seed + 3 + UInt32.ofNat j * seeds depth) (hq.dir j) hempty₂
        htidy₂
      unfold buildDir xfs_mkdir
      rw [extend_dir]
      dsimp only
      rw [components_joined (hq.dir j), hmkdir, if_pos rfl, hrun]
      refine ⟨take_joined q _, ?_, hfilled.dir (hfilled₃.trans hout₂)⟩
      rw [seed_succ]
    obtain ⟨⟨path, seed', fs'⟩, hrun, rfl, rfl, hfilled⟩ := hloop.exists_ok
    refine ⟨fs', ?_, hfilled⟩
    rw [g100_build, hfiles, Ends.ok_bind, hrun, seeds_succ]

/-! ## Copying -/

theorem length_fill (seed : UInt32) : (g100_fill seed).length = G100_FILESZ := by
  rw [g100_fill, List.length_map, List.length_range]

/-- Reading the first bytes of a file. -/
theorem read_range_file {b : List UInt8} (hq : Proper q) (i : Nat) (hup : fs.Dir q)
    (h : fs.view (q ++ [fname i]) = some (.file b)) : xfs_read_range fs (joined (q ++ [fname i])) G100_FILESZ 0 =
      (((b.take G100_FILESZ).length : Int), b.take G100_FILESZ) := by
  obtain ⟨k, hget, hdata⟩ := Fs.get_of_view h
  unfold xfs_read_range Fs.openFile Fs.read
  rw [components_joined (hq.file i), Fs.above_of_dir hup, hget]
  dsimp only
  rw [if_neg (Int.not_lt.2 (Int.natCast_nonneg k)), Int.toNat_natCast, hdata, List.drop_zero]

/-- Two trees side by side. -/
def Apart (src dst : Path) : Prop := ∀ s t, src ++ s ≠ dst ++ t

variable {src dst : Path}

theorem Apart.extend (h : Apart src dst) (s t : Path) : Apart (src ++ s) (dst ++ t) := by
  intro s' t'
  rw [List.append_assoc, List.append_assoc]
  exact h _ _

theorem Apart.not_below (h : Apart src dst) (rel : Path) : ¬ dst <+: src ++ rel := fun ⟨t, ht⟩ => h rel t ht.symm

/-- The loop over the files copies them. -/
theorem copyFiles_spec (hsrc : Proper src) (hdst : Proper dst) (hapart : Apart src dst) (htidy : fs.Tidy)
    (hshows : Shows fs src (level sub seed G100_FILES dirs)) (hempty : Empty fs dst) :
    ∃ fs', (List.range G100_FILES).foldlM (copyFile (joined src).length (joined dst).length)
        ⟨joined src, joined dst, fs⟩ =
        .ok ⟨joined src, joined dst, fs'⟩ ∧ Filled fs dst (level sub seed G100_FILES 0) fs' := by
  have hloop : Ends (fun s : Copy => s.src = joined src ∧ s.dst = joined dst ∧
      Filled fs dst (level sub seed G100_FILES 0) s.fs) (fun _ => False)
      ((List.range G100_FILES).foldlM (copyFile (joined src).length (joined dst).length)
          ⟨joined src, joined dst, fs⟩) := by
    refine Ends.foldlM_range (I := fun i (s : Copy) => s.src = joined src ∧ s.dst = joined dst ∧
      Filled fs dst (level sub seed i 0) s.fs) G100_FILES (fun i s hi hI => ?_) ⟨rfl, rfl, hempty.filled htidy⟩
    obtain ⟨path, path', fs'⟩ := s
    obtain ⟨rfl, rfl, hfilled⟩ := hI
    have hfile : fs'.view (src ++ [fname i]) = some (.file (g100_fill (seed + UInt32.ofNat i + 1))) := by
      rw [hfilled.outside _ (hapart.not_below _), hshows, level_file hi, if_pos rfl]
    have hup : fs'.Dir src := by
      refine hfilled.tidy.dir (Fs.view_dir.1 ?_)
      rw [← List.append_nil src, hfilled.outside _ (hapart.not_below []), hshows, level_nil]
    obtain ⟨fs'', hr, hfilled'⟩ := hfilled.write hdst
    have hread := read_range_file hsrc i hup hfile
    rw [List.take_of_length_le (Nat.le_of_eq (length_fill _)), length_fill] at hread
    unfold copyFile
    rw [extend_file, extend_file]
    dsimp only
    rw [hread, if_pos rfl, hr]
    exact ⟨take_joined src _, take_joined dst _, hfilled'⟩
  obtain ⟨⟨path, path', fs'⟩, hrun, rfl, rfl, hfilled⟩ := hloop.exists_ok
  exact ⟨fs', hrun, hfilled⟩

/-- The copy of a tree that a call has built is the tree. -/
theorem copy_spec : ∀ (depth : Nat) {src dst : Path} {fs : Fs Text} (seed : UInt32), Proper src → Proper dst →
    Apart src dst → fs.Tidy → Shows fs src (made depth seed) → Empty fs dst →
    ∃ fs', g100_copy depth ⟨joined src, joined dst, fs⟩ = .ok ⟨joined src, joined dst, fs'⟩ ∧
      Filled fs dst (made depth seed) fs'
  | 0, src, dst, fs, seed, hsrc, hdst, hapart, htidy, hshows, hempty =>
    copyFiles_spec hsrc hdst hapart htidy hshows hempty
  | depth + 1, src, dst, fs, seed, hsrc, hdst, hapart, htidy, hshows, hempty => by
    obtain ⟨fs₁, hfiles, hfilled₁⟩ := copyFiles_spec hsrc hdst hapart htidy hshows hempty
    have hloop : Ends (fun s : Copy => s.src = joined src ∧ s.dst = joined dst ∧
        Filled fs dst (made (depth + 1) seed) s.fs) (fun _ => False)
        ((List.range G100_DIRS).foldlM (copyDir (g100_copy depth) (joined src).length (joined dst).length)
          ⟨joined src, joined dst, fs₁⟩) := by
      refine Ends.foldlM_range (I := fun j (s : Copy) => s.src = joined src ∧ s.dst = joined dst ∧
        Filled fs dst (level (fun j => made depth (seed + 3 + UInt32.ofNat j * seeds depth)) seed G100_FILES j) s.fs)
        G100_DIRS (fun j s hj hI => ?_) ⟨rfl, rfl, hfilled₁⟩
      obtain ⟨path, path', fs'⟩ := s
      obtain ⟨rfl, rfl, hfilled⟩ := hI
      obtain ⟨fs₂, hmkdir, htidy₂, hempty₂, hout₂⟩ := hfilled.mkdir
      have hsub : Shows fs₂ (src ++ [dname j]) (made depth (seed + 3 + UInt32.ofNat j * seeds depth)) := by
        intro rel
        rw [hout₂ _ ((hapart.extend _ _).not_below rel), List.append_assoc,
          hfilled.outside _ (hapart.not_below _), hshows]
        exact level_dir hj rel
      obtain ⟨fs₃, hrun, hfilled₃⟩ := copy_spec depth _ (hsrc.dir j) (hdst.dir j) (hapart.extend _ _) htidy₂ hsub
        hempty₂
      unfold copyDir xfs_mkdir
      rw [extend_dir, extend_dir]
      dsimp only
      rw [components_joined (hdst.dir j), hmkdir, if_pos rfl, hrun]
      exact ⟨take_joined src _, take_joined dst _, hfilled.dir (hfilled₃.trans hout₂)⟩
    obtain ⟨⟨path, path', fs'⟩, hrun, rfl, rfl, hfilled⟩ := hloop.exists_ok
    refine ⟨fs', ?_, hfilled⟩
    rw [g100_copy, hfiles, Ends.ok_bind, hrun]

end NfsPlayground.Dirs.G100
