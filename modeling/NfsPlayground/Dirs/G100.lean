import NfsPlayground.Dirs.Walks
import NfsPlayground.Lib.Paths
import NfsPlayground.Lib.PosixView
import NfsPlayground.Races.Calls

/-!
# generic/100: a tree is built, copied and compared

`g100_build()`, `g100_copy()` and `g100_verify()` walk a tree of directories with one path buffer that each call
extends and cuts back. A path is a text; the file system is one of paths of names, and what a directory lists, in which
order and in which batches, is a parameter of the comparison.
-/

namespace NfsPlayground.Dirs.G100

open Lines Posix Readdir Races

def G100_DIRS : Nat := 2
def G100_FILES : Nat := 3
def G100_DEPTH : Nat := 3
def G100_FILESZ : Nat := 4096

/-! ## Calls by path -/

/-- The names in a path. -/
def components (path : Text) : Path := (PyText.split '/' path).filter (· ≠ [])

def xfs_mkdir (fs : Fs Text) (path : Text) : Int × Fs Text := fs.mkdir (components path)

/-- `xfs_write_new_file()`: the open creates the file or cuts it to nothing. -/
def xfs_write_new_file (fs : Fs Text) (path : Text) (data : List UInt8) : Int × Fs Text :=
  let f := fs.create (components path)
  if f.1 < 0 then f
  else if data = [] then (0, f.2)
  else
    let w := f.2.write f.1.toNat 0 data
    -- the file system writes all or fails
    if w.1 ≤ 0 then (if w.1 = 0 then - Races.EIO else w.1, w.2) else (0, w.2)

/-- `xfs_read_range()`; a directory is refused, by the read if not by the open. -/
def xfs_read_range (fs : Fs Text) (path : Text) (len off : Nat) : Int × List UInt8 :=
  let f := fs.openFile (components path)
  if f < 0 then (f, []) else ((fs.read f.toNat off len).length, fs.read f.toNat off len)

/-- `snprintf(path + len, 8, "/%c%d", letter, i)` -/
def extend (path : Text) (len : Nat) (letter : Char) (i : Nat) : Text := path.take len ++ ('/' :: letter :: decimal i)

/-- Every byte of every file identifies the file it belongs to. -/
def g100_byte (seed : UInt32) (off : Nat) : UInt8 := (seed * 31 + UInt32.ofNat off).toUInt8

def g100_fill (seed : UInt32) : List UInt8 := (List.range G100_FILESZ).map (g100_byte seed)

/-! ## The source -/

/-- What `g100_build()` is given by reference. -/
structure Build where
  path : Text
  seed : UInt32
  fs : Fs Text

/-- An assertion failed. -/
inductive Failed
  | creating
  | reading
  | opening
  | iterating
  deriving DecidableEq

def buildFile (len : Nat) (s : Build) (i : Nat) : Except Failed Build :=
  let path := extend s.path len 'f' i
  let seed := s.seed + 1
  let r := xfs_write_new_file s.fs path (g100_fill seed)
  if r.1 = 0 then .ok ⟨path.take len, seed, r.2⟩ else .error .creating

def buildDir (build : Build → Except Failed Build) (len : Nat) (s : Build) (i : Nat) : Except Failed Build :=
  let path := extend s.path len 'd' i
  let r := xfs_mkdir s.fs path
  if r.1 = 0 then (build ⟨path, s.seed, r.2⟩).map fun s => { s with path := s.path.take len } else .error .creating

def g100_build : Nat → Build → Except Failed Build
  | 0, s => (List.range G100_FILES).foldlM (buildFile s.path.length) s
  | depth + 1, s => do
    let t ← (List.range G100_FILES).foldlM (buildFile s.path.length) s
    (List.range G100_DIRS).foldlM (buildDir (g100_build depth) s.path.length) t

/-! ## The copy -/

structure Copy where
  src : Text
  dst : Text
  fs : Fs Text

def copyFile (slen dlen : Nat) (s : Copy) (i : Nat) : Except Failed Copy :=
  let src := extend s.src slen 'f' i
  let dst := extend s.dst dlen 'f' i
  let r := xfs_read_range s.fs src G100_FILESZ 0
  if r.1 = G100_FILESZ then
    let w := xfs_write_new_file s.fs dst r.2
    if w.1 = 0 then .ok ⟨src.take slen, dst.take dlen, w.2⟩ else .error .creating
  else .error .reading

def copyDir (copy : Copy → Except Failed Copy) (slen dlen : Nat) (s : Copy) (i : Nat) : Except Failed Copy :=
  let src := extend s.src slen 'd' i
  let dst := extend s.dst dlen 'd' i
  let r := xfs_mkdir s.fs dst
  if r.1 = 0 then
    (copy ⟨src, dst, r.2⟩).map fun s => { s with src := s.src.take slen, dst := s.dst.take dlen }
  else .error .creating

def g100_copy : Nat → Copy → Except Failed Copy
  | 0, s => (List.range G100_FILES).foldlM (copyFile s.src.length s.dst.length) s
  | depth + 1, s => do
    let t ← (List.range G100_FILES).foldlM (copyFile s.src.length s.dst.length) s
    (List.range G100_DIRS).foldlM (copyDir (g100_copy depth) s.src.length s.dst.length) t

/-! ## The comparison -/

/-- The counters of `struct g100_dirents`. -/
structure Dirents where
  dirs : Int
  files : Int
  alien : Int
  total : Int

/-- A letter and a digit below `count`. -/
def numbered (letter : Char) (count : Nat) : Text → Bool
  | [a, c] => a = letter ∧ '0'.toNat ≤ c.toNat ∧ c.toNat < '0'.toNat + count
  | _ => false

def g100_actor (it : Dirents) (name : Text) : Bool × Dirents :=
  let it := { it with total := incr it.total }
  if IsDot name then (true, it)
  else if numbered 'd' G100_DIRS name then (true, { it with dirs := incr it.dirs })
  else if numbered 'f' G100_FILES name then (true, { it with files := incr it.files })
  else (true, { it with alien := incr it.alien })

/-- How directories are read: the names each lists in their order, and what each call offers. -/
structure Reader where
  names : Path → List Text
  size : Path → Nat → Nat

/-- `g100_verify_dir()`: whether an expectation failed. -/
def g100_verify_dir (fs : Fs Text) (rd : Reader) (path : Text) (depth : Nat) : Except Failed Bool :=
  let p := components path
  if fs.above p = none ∧ fs.get p = some .dir then
    match walk g100_actor Dirents.total (rd.names p) (rd.size p) ((rd.names p).length + 1) 0 0 ⟨0, 0, 0, 0⟩ with
    | none => .error .iterating
    | some it => .ok (it.files ≠ G100_FILES || it.dirs ≠ (if depth ≠ 0 then (G100_DIRS : Int) else 0) || it.alien ≠ 0)
  else .error .opening

/-- What `g100_verify()` is given by reference, and whether an expectation has failed. -/
structure Verify where
  path : Text
  seed : UInt32
  failed : Bool

def verifyFile (fs : Fs Text) (len : Nat) (s : Verify) (i : Nat) : Except Failed Verify :=
  let seed := s.seed + 1
  let path := extend s.path len 'f' i
  let r := xfs_read_range fs path G100_FILESZ 0
  if r.1 = G100_FILESZ then
    let differs := (List.range G100_FILESZ).any fun j => r.2.getD j 0 ≠ g100_byte seed j
    .ok ⟨path.take len, seed, s.failed || differs⟩
  else .error .reading

def verifyDir (verify : Verify → Except Failed Verify) (len : Nat) (s : Verify) (i : Nat) : Except Failed Verify :=
  (verify { s with path := extend s.path len 'd' i }).map fun s => { s with path := s.path.take len }

def g100_verify (fs : Fs Text) (rd : Reader) : Nat → Verify → Except Failed Verify
  | 0, s => do
    let failed ← g100_verify_dir fs rd s.path 0
    (List.range G100_FILES).foldlM (verifyFile fs s.path.length) { s with failed := s.failed || failed }
  | depth + 1, s => do
    let failed ← g100_verify_dir fs rd s.path (depth + 1)
    let t ← (List.range G100_FILES).foldlM (verifyFile fs s.path.length) { s with failed := s.failed || failed }
    (List.range G100_DIRS).foldlM (verifyDir (g100_verify fs rd depth) s.path.length) t

end NfsPlayground.Dirs.G100
