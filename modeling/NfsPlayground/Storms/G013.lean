import NfsPlayground.Lib.Ends
import NfsPlayground.Lib.PosixView
import NfsPlayground.Lib.Symlinks
import NfsPlayground.Races.World

/-!
# generic/013: a storm of operations that can be swept away

Ten kinds of operations hit a pool of names in one directory. None of them puts anything below an entry, and a link
only ever holds the path of a pool entry, so that the directory stays shallow; then the errors are those that the test
accepts, and a sweep over the pool empties the directory (`storm_swept`).
-/

namespace NfsPlayground.Storms.G013

open Lines Posix Races

/-- `XFS_MNT "/g013"` -/
def G013_ROOT : Path := XFS_MNT ++ [['g', '0', '1', '3']]

def G013_NAMES : Nat := 40

/-- `"p%02d"` -/
def pname (i : Nat) : Text := 'p' :: (if i < 10 then '0' :: decimal i else decimal i)

def g013_name (i : Nat) : Path := G013_ROOT ++ [pname i]

def EBUSY : Int := 16

/-! ## The storm -/

def g013_errno_expected (err : Int) : Bool :=
  err = 0 ∨ err = - ENOENT ∨ err = - EEXIST ∨ err = - EISDIR ∨ err = - ENOTDIR ∨ err = - ENOTEMPTY ∨ err = - ELOOP ∨
    err = - EINVAL ∨ err = - EBUSY ∨ err = - EPERM ∨ err = - EMLINK

/-- An append of up to 4 KiB to what the name leads to. -/
def appendTo (s : SymFs Text) (p : Path) (n : Nat) : Int × SymFs Text :=
  let f := s.openFile p
  if f < 0 then (f, s)
  else
    let w := s.append f.toNat (List.replicate n 0x5A)
    (if w.1 < 0 then w.1 else 0, w.2)

/-- One operation. -/
def operation (s : SymFs Text) (r : UInt32) : Int × SymFs Text :=
  let x := (r.toNat >>> 8) % G013_NAMES
  let y := (r.toNat >>> 16) % G013_NAMES
  match r.toNat % 10 with
  | 0 => s.openExcl (g013_name x)
  | 1 => appendTo s (g013_name x) (1 + (r.toNat >>> 20) % 4096)
  | 2 => s.mkdir (g013_name x)
  | 3 => s.rmdir (g013_name x)
  | 4 => s.unlink (g013_name x)
  | 5 => s.rename (g013_name x) (g013_name y)
  | 6 => s.symlink (g013_name y) (g013_name x)
  | 7 => s.link (g013_name x) (g013_name y)
  | 8 => s.truncate (g013_name x) ((r.toNat >>> 4) % 65536)
  | _ => (s.lstat (g013_name x), s)

/-- The file system, and how many operations have succeeded. -/
structure Storm where
  s : SymFs Text
  ok : Int

/-- The operations one after the other, up to an error that is not expected. -/
def storm : Storm → List UInt32 → Except Int Storm :=
  List.foldlM fun st r =>
    let e := operation st.s r
    if g013_errno_expected e.1 then .ok ⟨e.2, if e.1 = 0 then st.ok + 1 else st.ok⟩ else .error e.1

/-! ## The sweep -/

def g013_remove_entry (s : SymFs Text) (p : Path) : Int × SymFs Text :=
  let r := s.unlink p
  if r.1 = - EISDIR then r.2.rmdir p else r

/-- One sweep over the pool. -/
def sweep (s : SymFs Text) : SymFs Text :=
  (List.range G013_NAMES).foldl (fun s i => (g013_remove_entry s (g013_name i)).2) s

/-- The sweeps and the removal of the directory; nothing is in flight, so that one attempt at it is enough. -/
def g013_remove_tree (s : SymFs Text) : Int × SymFs Text := (sweep (sweep (sweep s))).rmdir G013_ROOT

/-! ## The pool -/

def Pool (n : Text) : Prop := ∃ i < G013_NAMES, n = pname i

/-- Below the directory are entries of the pool only, with nothing below them, and links to entries of the pool. -/
abbrev Swept (s : SymFs Text) : Prop := s.Shallow G013_ROOT Pool

variable {s : SymFs Text} {i : Nat}

theorem pool_mod (n : Nat) : Pool (pname (n % G013_NAMES)) := ⟨_, Nat.mod_lt n (by decide), rfl⟩

theorem appendTo_keeps (h : Swept s) (hi : Pool (pname i)) (n : Nat) :
    SymFs.Keeps G013_ROOT Pool [0, -ENOENT, -EISDIR, -ELOOP] (appendTo s (g013_name i) n) := by
  have hopen := SymFs.openFile_keeps h hi
  unfold appendTo
  by_cases hf : s.openFile (g013_name i) < 0
  · rw [if_pos hf]
    rcases hopen with hopen | hopen
    · exact absurd hf (Int.not_lt.2 hopen)
    · exact ⟨List.mem_cons_of_mem _ hopen, h⟩
  · rw [if_neg hf]
    refine ⟨?_, SymFs.append_keeps h _ _⟩
    have hw : ¬ (s.append (s.openFile (g013_name i)).toNat (List.replicate n 0x5A)).1 < 0 := by simp [SymFs.append]
    simp [hw]

/-- An operation answers what is expected and keeps the directory shallow. -/
theorem operation_keeps (h : Swept s) (r : UInt32) :
    g013_errno_expected (operation s r).1 = true ∧ Swept (operation s r).2 := by
  have hexpected : ∀ {errs : List Int} {e : Int × SymFs Text}, SymFs.Keeps G013_ROOT Pool errs e →
      (∀ err ∈ errs, g013_errno_expected err = true) → g013_errno_expected e.1 = true ∧ Swept e.2 :=
    fun hkeeps herrs => ⟨herrs _ hkeeps.1, hkeeps.2⟩
  have hx := pool_mod (r.toNat >>> 8)
  have hy := pool_mod (r.toNat >>> 16)
  unfold operation
  dsimp only
  split
  · exact hexpected (SymFs.make_keeps h hx (by simp)) (by decide)
  · exact hexpected (appendTo_keeps h hx _) (by decide)
  · exact hexpected (SymFs.mkdir_keeps h hx) (by decide)
  · exact hexpected (SymFs.rmdir_keeps h _) (by decide)
  · exact hexpected (SymFs.unlink_keeps h _) (by decide)
  · exact hexpected (SymFs.rename_keeps h _ hy) (by decide)
  · refine hexpected (SymFs.make_keeps h hx fun p hp => ⟨_, hy, ?_⟩) (by decide)
    exact (Option.some.inj hp).symm
  · exact hexpected (SymFs.link_keeps h _ hy) (by decide)
  · exact hexpected (SymFs.truncate_keeps h _ _) (by decide)
  · exact hexpected ⟨SymFs.lstat_keeps h _, h⟩ (by decide)

/-- So does the storm. -/
theorem storm_keeps (draws : List UInt32) :
    ∀ {st : Storm}, Swept st.s → ∃ st', storm st draws = .ok st' ∧ Swept st'.s := by
  induction draws with
  | nil => exact fun {st} h => ⟨st, rfl, h⟩
  | cons r draws ih =>
    intro st h
    obtain ⟨hexpected, hnext⟩ := operation_keeps h r
    have hstep : Swept (Storm.mk (operation st.s r).2 (if (operation st.s r).1 = 0 then st.ok + 1 else st.ok)).s :=
      hnext
    obtain ⟨st', hrun, hst'⟩ := ih hstep
    refine ⟨st', ?_, hst'⟩
    unfold storm at hrun ⊢
    rw [List.foldlM_cons]
    dsimp only
    rw [if_pos hexpected]
    exact hrun

/-! ## The end -/

/-- After a sweep the directory is empty. -/
theorem sweep_spec (h : Swept s) : Swept (sweep s) ∧ ∀ t, t ≠ [] → (sweep s).fs.get (G013_ROOT ++ t) = none := by
  have hloop : Swept (sweep s) ∧ ∀ j < G013_NAMES, (sweep s).fs.get (g013_name j) = none :=
    Ends.foldl_range (I := fun i (s : SymFs Text) => Swept s ∧ ∀ j < i, s.fs.get (g013_name j) = none) G013_NAMES
      (fun _ _ _ hI => SymFs.removeAny_next hI.1 hI.2) ⟨h, by simp⟩
  refine ⟨hloop.1, fun t ht => hloop.1.clear (fun n hn => ?_) ht⟩
  obtain ⟨i, hi, rfl⟩ := hn
  exact hloop.2 i hi

/-- An empty directory is removed. -/
theorem rmdir_root (h : Swept s) (hempty : ∀ t, t ≠ [] → s.fs.get (G013_ROOT ++ t) = none) :
    (s.rmdir G013_ROOT).1 = 0 ∧ ∀ t, (s.rmdir G013_ROOT).2.fs.get (G013_ROOT ++ t) = none := by
  obtain ⟨hr, -, hgone⟩ := SymFs.rmdir_clear (d := XFS_MNT) h.dir hempty
  exact ⟨hr, hgone⟩

/-- The directory of the test when it has been made. -/
theorem swept_mkdir (hmnt : s.fs.Dir XFS_MNT) (hup : s.fs.Up) (hmkdir : (s.mkdir G013_ROOT).1 = 0) :
    Swept (s.mkdir G013_ROOT).2 :=
  (SymFs.shallow_mkdir hmnt hup.below hmkdir).1

/-- After every sequence of operations the pool is as it should be, no operation has returned an error that is not
expected, and one sweep empties the directory, so that it can be removed; the test makes three. -/
theorem storm_swept {s : SymFs Text} (hmnt : s.fs.Dir XFS_MNT) (hup : s.fs.Up) (hmkdir : (s.mkdir G013_ROOT).1 = 0)
    (draws : List UInt32) : ∃ st, storm ⟨(s.mkdir G013_ROOT).2, 0⟩ draws = .ok st ∧
      (∀ i < G013_NAMES, st.s.fs.get (g013_name i) = some .dir → st.s.fs.emptyDir (g013_name i) = true) ∧
      (∀ t x, t ≠ [] → st.s.fs.get (G013_ROOT ++ t) = some x → ∃ i < G013_NAMES, t = [pname i]) ∧
      (((sweep st.s).rmdir G013_ROOT).1 = 0 ∧ ∀ t, ((sweep st.s).rmdir G013_ROOT).2.fs.get (G013_ROOT ++ t) = none) ∧
      (g013_remove_tree st.s).1 = 0 ∧ ∀ t, (g013_remove_tree st.s).2.fs.get (G013_ROOT ++ t) = none := by
  have hstart : Swept (Storm.mk (s.mkdir G013_ROOT).2 0).s := swept_mkdir hmnt hup hmkdir
  obtain ⟨st, hrun, hswept⟩ := storm_keeps draws hstart
  refine ⟨st, hrun, fun i _ _ => hswept.empty _, fun t x ht hx => ?_, ?_, ?_⟩
  · obtain ⟨n, ⟨i, hi, rfl⟩, rfl⟩ := hswept.below t x ht hx
    exact ⟨i, hi, rfl⟩
  · obtain ⟨hs, hempty⟩ := sweep_spec hswept
    exact rmdir_root hs hempty
  · obtain ⟨hs, hempty⟩ := sweep_spec (sweep_spec (sweep_spec hswept).1).1
    unfold g013_remove_tree
    exact rmdir_root hs hempty

/-- The mounted file system, without links. -/
def mounted : SymFs Text := ⟨mountedFs, fun _ => none, 32000⟩

/-- A file, a directory, and a link to the file under the name of a third entry. -/
theorem storm_swept_three : ∃ st, storm ⟨(mounted.mkdir G013_ROOT).2, 0⟩ [0, 262, 516] = .ok st ∧
    ((sweep st.s).rmdir G013_ROOT).1 = 0 ∧ (g013_remove_tree st.s).1 = 0 := by
  have htidy : mounted.fs.Tidy := mountedFs_tidy_get.1
  have hmnt : mounted.fs.Dir XFS_MNT := htidy.dir mountedFs_mnt
  obtain ⟨st, hrun, -, -, ⟨hone, -⟩, hall, -⟩ := storm_swept hmnt htidy.toUp (by decide +kernel) [0, 262, 516]
  exact ⟨st, hrun, hone, hall⟩

end NfsPlayground.Storms.G013
