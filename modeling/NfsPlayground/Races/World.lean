import NfsPlayground.Lib.Closed
import NfsPlayground.Lib.Paths
import NfsPlayground.Lib.PosixFiles
import NfsPlayground.Races.Calls

/-!
# The ports on a conforming file system

Every call by path, file or address is answered by one POSIX file system, on which it succeeds whenever it may. The
two sides of the mount show the same tree. Memory is there and threads can be started; when the time of a timed wait is
over is an input.
-/

namespace NfsPlayground.Races

open Lines Posix Threads

/-- The path seen from the client's side of the mount. -/
def canon : Path → Path
  | [] => []
  | n :: p => if [n] = XFS_EXPORT then XFS_MNT ++ p else n :: p

def answer (r : Int × Fs Text) : Answer × Fs Text := ({ ret := r.1 }, r.2)

def serve (expired : Bool) : Call → Fs Text → Answer × Fs Text
  | .mounted, fs => answer (1, fs)
  | .addAction, fs => answer (0, fs)
  | .kthreadRun, fs => answer (1, fs)
  | .kmalloc _, fs => answer (1, fs)
  | .waitTimeout, fs => answer (if expired then 0 else 1, fs)
  | .mkdir p, fs => answer (fs.mkdir (canon p))
  | .unlink p, fs => answer (fs.unlink (canon p))
  | .link p q, fs => answer (fs.link (canon p) (canon q))
  | .rename p q, fs => answer (fs.rename (canon p) (canon q))
  | .exists p, fs => answer (if fs.resolves (canon p) then 1 else 0, fs)
  | .create p, fs => answer (fs.create (canon p))
  | .filpOpen p, fs => answer (fs.openFile (canon p), fs)
  | .readRange p len off, fs =>
    let f := fs.openFile (canon p)
    if f < 0 then answer (f, fs)
    else ({ ret := (fs.read f.toNat off len).length, bytes := fs.read f.toNat off len }, fs)
  | .kernPath p, fs =>
    let r := fs.lookup (canon p)
    ({ ret := r.1, path := r.2.1 }, r.2.2)
  | .dPath p, fs =>
    match fs.refs[p]? with
    | some q => ({ ret := 1, text := PyText.joined q }, fs)
    | none => answer (-ENOENT, fs)
  | .kernelWrite f data pos, fs => answer (fs.write f.toNat pos data)
  | .directWrite f data pos, fs => answer (fs.write f.toNat pos data)
  | .kernelRead f len pos, fs | .directRead f len pos, fs =>
    ({ ret := (fs.read f.toNat pos len).length, bytes := fs.read f.toNat pos len }, fs)
  | .fsync f, fs => answer (fs.fsync f.toNat, fs)
  | .fallocate f off len, fs => answer (fs.fallocate f.toNat off len)
  | .ftruncate f len, fs => answer (fs.truncate f.toNat len)
  | .filpClose _, fs => answer (0, fs)
  | .mmap f _, fs => answer (fs.mmap f.toNat)
  | .munmap addr _, fs => answer (fs.munmap addr)
  | .copyToUser addr off data, fs =>
    let r := fs.store addr off data
    answer (r.1, r.2)
  | .copyFromUser addr off len, fs => ({ ret := (fs.load addr off len).1, bytes := (fs.load addr off len).2 }, fs)

/-- The inputs say whether the time of a timed wait is over. -/
def world : World Bool Call Answer (Fs Text) := ⟨serve, default⟩

/-- The export is mounted, and has nothing at or below the directory of the test. -/
structure Fresh (root : Path) (fs : Fs Text) : Prop where
  mnt : fs.Dir XFS_MNT
  free : ∀ t, fs.get (root ++ t) = none

/-- The directory of the test can be made, and is empty. -/
theorem Fresh.mkdir {n : Text} {fs : Fs Text} (h : Fresh (XFS_MNT ++ [n]) fs) :
    ∃ fs', fs.mkdir (XFS_MNT ++ [n]) = (0, fs') ∧ fs'.Dir (XFS_MNT ++ [n]) ∧
      ∀ m t, fs'.get (XFS_MNT ++ [n] ++ m :: t) = none := by
  have hnone := h.free []
  rw [List.append_nil] at hnone
  obtain ⟨fs', hr, hdir, ho⟩ := Fs.mkdir_new h.mnt hnone
  refine ⟨fs', hr, hdir, fun m t => ?_⟩
  rw [ho.get _ (by simp)]
  exact h.free (m :: t)

/-- The number of a file is not an error. -/
theorem isErr_file (k : Nat) (fs : Fs Text) : (answer ((k : Int), fs)).1.isErr = false :=
  decide_eq_false (Int.not_lt.2 (Int.natCast_nonneg k))

theorem not_isErr (k : Nat) (fs : Fs Text) : (!(answer ((k : Int), fs)).1.isErr) = true :=
  congrArg (!·) (isErr_file k fs)

/-- A root with the mount point of the client, and nothing on it. -/
def mountedFs : Fs Text := (((Fs.bare Text).mkdir [['m', 'n', 't']]).2.mkdir XFS_MNT).2

theorem mountedFs_tidy_get : mountedFs.Tidy ∧ ∀ p, mountedFs.get p =
    if p = XFS_MNT then some .dir else if p = [['m', 'n', 't']] then some .dir
    else if p = [] then some .dir else none := by
  have hbare := @Fs.bare_get Text _
  obtain ⟨fs₁, hr₁, htidy₁, -, hget₁⟩ := Fs.mkdir_tidy (d := []) (n := ['m', 'n', 't']) Fs.bare_tidy
    (by rw [hbare, if_pos rfl]) (by rw [hbare, if_neg (by simp)])
  obtain ⟨fs₂, hr₂, htidy₂, -, hget₂⟩ := Fs.mkdir_tidy (d := [['m', 'n', 't']]) (n := ['n', 'f', 's']) htidy₁
    (by rw [hget₁]; exact if_pos rfl) (by rw [hget₁, hbare, if_neg (by simp), if_neg (by simp)])
  have hfs : mountedFs = fs₂ := by
    unfold mountedFs
    rw [show (Fs.bare Text).mkdir [['m', 'n', 't']] = (0, fs₁) from hr₁,
      show (0, fs₁).2.mkdir XFS_MNT = (0, fs₂) from hr₂]
  rw [hfs]
  refine ⟨htidy₂, fun p => ?_⟩
  rw [hget₂, hget₁, hbare]
  rfl

theorem mountedFs_mnt : mountedFs.get XFS_MNT = some .dir := by rw [mountedFs_tidy_get.2, if_pos rfl]

theorem mountedFs_free (n : Text) : mountedFs.get (XFS_MNT ++ [n]) = none := by
  rw [mountedFs_tidy_get.2, if_neg (by simp [XFS_MNT]), if_neg (by simp [XFS_MNT]), if_neg (by simp [XFS_MNT])]

section Serve

variable {x : Bool} {fs fs' : Fs Text} {n k off len : Nat} {f addr : Int} {bytes : List UInt8} {p : Path}

theorem serve_open (h : fs.openFile (canon p) = f) : world.serve x (.filpOpen p) fs = answer (f, fs) :=
  congrArg (fun r => answer (r, fs)) h

theorem serve_fsync (h : f.toNat < fs.next) : world.serve x (.fsync f) fs = answer (0, fs) :=
  congrArg (fun r => answer (r, fs)) (if_pos h)

theorem serve_kernPath {path : Nat} (h : fs.lookup (canon p) = (0, path, fs')) :
    world.serve x (.kernPath p) fs = ({ ret := 0, path := path }, fs') := by
  show ((⟨(fs.lookup (canon p)).1, [], [], (fs.lookup (canon p)).2.1⟩ : Answer), (fs.lookup (canon p)).2.2) = _
  rw [h]

theorem serve_dPath {path : Nat} (h : fs.refs[path]? = some p) :
    world.serve x (.dPath path) fs = ({ ret := 1, text := PyText.joined p }, fs) := by
  show (match fs.refs[path]? with | some q => _ | none => _) = _
  rw [h]

theorem serve_exists (h : fs.get (canon p) = none) : world.serve x (.exists p) fs = answer (0, fs) := by
  have hres : fs.resolves (canon p) = false := by
    unfold Fs.resolves
    rw [h]
    exact Bool.and_false _
  show answer (if fs.resolves (canon p) then 1 else 0, fs) = _
  rw [hres]
  rfl

theorem serve_kernelWrite (h : f.toNat < fs.next) : ∃ fs', world.serve x (.kernelWrite f bytes off) fs =
    answer ((bytes.length : Int), fs') ∧ (∀ d, fs.Flat d → fs'.Flat d) ∧ ∀ p, Fs.OnlyAt p fs fs' :=
  ⟨_, congrArg answer (if_pos h), fun _ hd => hd.setData _ _, fun p => Fs.setData_onlyAt p _ _⟩

theorem serve_directWrite (h : f.toNat < fs.next) : ∃ fs', world.serve x (.directWrite f bytes off) fs =
    answer ((bytes.length : Int), fs') ∧ (∀ d, fs.Flat d → fs'.Flat d) ∧ ∀ p, Fs.OnlyAt p fs fs' :=
  serve_kernelWrite (x := x) h

theorem serve_copyToUser (h : fs.store addr off bytes = (n, fs')) :
    world.serve x (.copyToUser addr off bytes) fs = answer (n, fs') := by
  show answer (((fs.store addr off bytes).1 : Int), (fs.store addr off bytes).2) = _
  rw [h]

theorem serve_copyFromUser (h : fs.load addr off len = (n, bytes)) :
    world.serve x (.copyFromUser addr off len) fs = ({ ret := n, bytes := bytes }, fs) := by
  show ((⟨((fs.load addr off len).1 : Int), (fs.load addr off len).2, [], 0⟩ : Answer), fs) = _
  rw [h]

theorem serve_readRange (hopen : fs.openFile (canon p) = (k : Int)) (hread : fs.read k off len = bytes) :
    world.serve x (.readRange p len off) fs = ({ ret := bytes.length, bytes := bytes }, fs) := by
  show (if fs.openFile (canon p) < 0 then answer (fs.openFile (canon p), fs) else _) = _
  rw [hopen, if_neg (by omega), Int.toNat_natCast, hread]

end Serve

/-! ## A counter of the frame -/

section Counts

variable {T W M : Type}

/-- The counter is left as it is, or incremented. -/
def Counts (c : M → Nat) (m m' : M) : Prop := c m' = c m ∨ c m' = incr (c m)

theorem counts_rfl (c : M → Nat) (m : M) : Counts c m m := Or.inl rfl

theorem counts_ite {c : M → Nat} {q : Prop} [Decidable q] {m x y : M} (hx : Counts c m x) (hy : Counts c m y) :
    Counts c m (if q then x else y) := by
  split
  · exact hx
  · exact hy

/-- Once it has counted something it is not zero for as long as it cannot have wrapped, so that steps that are good
then are good from there on. -/
theorem along_of_counting {p : Program T W M Call Answer} {c : M → Nat} (hcode : ∀ t, (p.code t).Stores (Counts c))
    (hwork : ∀ i u, (p.work i u).Stores (Counts c)) {good : State T W M × Fs Text → Option Nat × Bool → Prop}
    {P : Option Nat × Bool → Prop} (hgood : ∀ y i, P i → 0 < c y.1.mem → c y.1.mem + 1 < 2 ^ 64 → good y i) :
    ∀ {is : List (Option Nat × Bool)} {y : State T W M × Fs Text}, (∀ i ∈ is, P i) → 0 < c y.1.mem →
      c y.1.mem + is.length < 2 ^ 64 → Runs.Along (p.stepIn world) good y is
  | [], _, _, _, _ => trivial
  | i :: is, y, hp, hpos, hlt => by
    rw [List.length_cons] at hlt
    obtain ⟨hp, hps⟩ := List.forall_mem_cons.1 hp
    refine ⟨hgood y i hp hpos (by omega), ?_⟩
    rcases stepIn_mem (w := world) (counts_rfl c) hcode hwork y i with heq | heq
    · exact along_of_counting hcode hwork hgood hps (by omega) (by omega)
    · rw [incr, Nat.mod_eq_of_lt (by omega)] at heq
      exact along_of_counting hcode hwork hgood hps (by omega) (by omega)

end Counts

end NfsPlayground.Races
