import NfsPlayground.Lib.PosixFiles
import NfsPlayground.Races.Calls

/-!
# generic/001: the chain copier

`gen001_chain()` copies files along chains and closes every chain; `gen001_check()` compares what is left. A function of
the test changes the world or is left by a failed assertion. What the random numbers are is a parameter, and so is what
an iteration draws.

A fault names one call of `gen001_chain()` that fails; nothing else does that a POSIX file system would serve, and
memory is there. The path buffer holds 160 bytes; the longest name with the largest `int` has less (`gen001_path_fits`).
-/

namespace NfsPlayground.Generic.G001

open Lines Posix
open Races (Path XFS_MNT decimal)

/-- `GEN001_ROOT` -/
def GEN001_ROOT : Path :=
  XFS_MNT ++ [['k', 'u', 'n', 'i', 't', '-', 'g', 'e', 'n', 'e', 'r', 'i', 'c', '0', '0', '1']]

def sub : Text := ['s', 'u', 'b']

/-- `GEN001_ROOT "/sub"` -/
def GEN001_SUB : Path := GEN001_ROOT ++ [sub]

def GEN001_CHUNK : Nat := 4096

/-- `struct gen001_entry`; its `link` is in the world. -/
structure Entry where
  rel : Path
  bytes : Nat
  deriving DecidableEq

instance : Inhabited Entry := ⟨⟨[], 0⟩⟩

/-- An entry in `sub`. -/
def inSub (name : Text) (bytes : Nat) : Entry := ⟨[sub, name], bytes⟩

def gen001_config : List Entry :=
  [⟨[['s', 'm', 'a', 'l', 'l']], 10⟩, ⟨[['b', 'i', 'g']], 102400⟩,
    inSub ['s', 'm', 'a', 'l', 'l'] 10, inSub ['b', 'i', 'g'] 102400,
    inSub ['a'] 1, inSub ['b'] 2,
    inSub ['c'] 4, inSub ['d'] 8,
    inSub ['e'] 16, inSub ['f'] 32,
    inSub ['g'] 64, inSub ['h'] 128,
    inSub ['i'] 256, inSub ['j'] 512,
    inSub ['k'] 1024, inSub ['l'] 2048,
    inSub ['m'] 4096, inSub ['n'] 8192,
    inSub ['a', '0', '0'] 100, inSub ['b', '0', '0'] 200,
    inSub ['c', '0', '0'] 400, inSub ['d', '0', '0'] 800,
    inSub ['e', '0', '0'] 1600, inSub ['f', '0', '0'] 3200,
    inSub ['g', '0', '0'] 6400, inSub ['h', '0', '0'] 12800,
    inSub ['i', '0', '0'] 25600, inSub ['j', '0', '0'] 51200,
    inSub ['k', '0', '0'] 102400, inSub ['l', '0', '0'] 204800,
    inSub ['m', '0', '0'] 409600, inSub ['n', '0', '0'] 819200,
    inSub ['a', '0', '0', '0'] 1000, inSub ['e', '0', '0', '0'] 16000,
    inSub ['h', '0', '0', '0'] 128000, inSub ['k', '0', '0', '0'] 1024000]

def GEN001_NFILES : Nat := gen001_config.length
def GEN001_NCOPY : Nat := 200
def GEN001_ITERS : Nat := 5

def entry (x : Nat) : Entry := gen001_config.getD x default

/-- What `gen001_path()` puts behind the name of the entry. -/
def suffix (link : Int) : Text :=
  if link = -1 then []
  else if link = -2 then ['.', 'l', 'a', 's', 't']
  else '.' :: decimal link.toNat

def gen001_path (rel : Path) (link : Int) : Path :=
  GEN001_ROOT ++ rel.dropLast ++ [rel.getLastD [] ++ suffix link]

/-! ## The content of the files -/

/-- `full_name_hash()`, `prandom_seed_state()` and `prandom_u32_state()`. -/
structure Prandom (R : Type) where
  full_name_hash : Text → UInt32
  seed_state : UInt32 → R
  u32_state : R → UInt32 × R

variable {R : Type} (g : Prandom R)

def gen001_seed_for (rel : Path) : R := g.seed_state (g.full_name_hash (List.intercalate ['/'] rel))

/-- The loop of `gen001_fill_chunk()`, with `left` bytes to fill from the `i`-th on. -/
def fillFrom : Nat → Nat → UInt32 → R → List UInt8 × R
  | 0, _, _, st => ([], st)
  | left + 1, i, r, st =>
    let s := if i % 4 = 0 then g.u32_state st else (r, st)
    let rest := fillFrom left (i + 1) s.1 s.2
    ((s.1 >>> UInt32.ofNat (i % 4 * 8)).toUInt8 :: rest.1, rest.2)

/-- `gen001_fill_chunk()`: the buffer it fills, and the state it leaves. -/
def gen001_fill_chunk (st : R) (len : Nat) : List UInt8 × R := fillFrom g len 0 0 st

/-! ## The world, and the ways to leave the test -/

structure World where
  fs : Fs Text
  /-- The `link` of each entry. -/
  link : Nat → Nat
  /-- An expectation has failed. -/
  failed : Bool

/-- A failed assertion leaves the test in the world it has come to. -/
inductive Left
  | assertion (w : World)
  /-- A loop that does not end. -/
  | hangs

/-- The calls of `gen001_chain()`: those of the `i`-th copy, the rename of an entry and its unlinks. -/
inductive Site
  | kmalloc (i : Nat)
  | openSrc (i : Nat)
  | openDst (i : Nat)
  | read (i chunk : Nat)
  /-- Only `n` bytes of the chunk are written; where the call returns an error, none. -/
  | write (i chunk n : Nat)
  | rename (x : Nat)
  | unlink (x j : Nat)
  deriving DecidableEq

/-! ## The original files -/

/-- `while (left)` of `gen001_write_file()` -/
def writeLoop (k left : Nat) (st : R) (pos : Nat) (w : World) : Except Left World :=
  if left = 0 then .ok w
  else
    let n := min left GEN001_CHUNK
    let r := w.fs.write k pos (gen001_fill_chunk g st n).1
    if r.1 ≠ n then .error (.assertion { w with fs := r.2 })
    else writeLoop k (left - n) (gen001_fill_chunk g st n).2 (pos + r.1.toNat) { w with fs := r.2 }
termination_by left
decreasing_by
  simp only [GEN001_CHUNK]
  omega

def gen001_write_file (rel : Path) (bytes : Nat) (w : World) : Except Left World :=
  let f := w.fs.create (gen001_path rel (-1))
  if f.1 < 0 then .error (.assertion { w with fs := f.2 })
  else writeLoop g f.1.toNat bytes (gen001_seed_for g rel) 0 { w with fs := f.2 }

/-! ## Copies -/

/-- What of a chunk reaches the file. -/
def delivered (fault : Option Site) (i c : Nat) (got : List UInt8) : List UInt8 :=
  match fault with
  | some (.write j d n) => if j = i ∧ d = c then got.take n else got
  | _ => got

/-- `while ((got = kernel_read(...)) > 0)` of `gen001_copy()`, from chunk `c` on. -/
def copyLoop (fault : Option Site) (i src dst : Nat) : Nat → Nat → Nat → Nat → World → Except Left World
  | 0, _, _, _, _ => .error .hangs
  | fuel + 1, c, rpos, wpos, w =>
    if fault = some (.read i c) then .error (.assertion w)
    else
      let got := w.fs.read src rpos GEN001_CHUNK
      if got.length = 0 then .ok w
      else
        let r := w.fs.write dst wpos (delivered fault i c got)
        if r.1 ≠ got.length then .error (.assertion { w with fs := r.2 })
        else copyLoop fault i src dst fuel (c + 1) (rpos + got.length) (wpos + r.1.toNat) { w with fs := r.2 }

/-- The `i`-th `gen001_copy()` of an iteration. Each pass of its loop reads some of the source. -/
def gen001_copy (fault : Option Site) (i : Nat) (src dst : Path) (w : World) : Except Left World :=
  if fault = some (.kmalloc i) then .error (.assertion w)
  else
    let f := w.fs.openFile src
    if fault = some (.openSrc i) ∨ f < 0 then .error (.assertion w)
    else if fault = some (.openDst i) then .error (.assertion w)
    else
      let out := w.fs.openExcl dst
      if out.1 < 0 then .error (.assertion { w with fs := out.2 })
      else
        copyLoop fault i f.toNat out.1.toNat ((w.fs.data f.toNat).length + 1) 0 0 0 { w with fs := out.2 }

/-! ## Chains -/

/-- The entry of the `i`-th copy. -/
def pick (draw : Nat → UInt32) (i : Nat) : Nat := (draw i).toNat % GEN001_NFILES

/-- The `i`-th pass of the first loop of `gen001_chain()`. -/
def copyStep (fault : Option Site) (draw : Nat → UInt32) (w : World) (i : Nat) : Except Left World :=
  let x := pick draw i
  let rel := (entry x).rel
  let src := gen001_path rel (if w.link x ≠ 0 then (w.link x : Int) - 1 else -1)
  let dst := gen001_path rel (w.link x)
  (fun w => { w with link := Function.update w.link x (w.link x + 1) }) <$> gen001_copy fault i src dst w

def renameStep (fault : Option Site) (x : Nat) (w : World) : Except Left World :=
  if fault = some (.rename x) then .error (.assertion w)
  else
    let r := w.fs.rename (gen001_path (entry x).rel ((w.link x : Int) - 1)) (gen001_path (entry x).rel (-2))
    if r.1 ≠ 0 then .error (.assertion { w with fs := r.2 }) else .ok { w with fs := r.2 }

def unlinkStep (fault : Option Site) (x : Nat) (w : World) (j : Nat) : Except Left World :=
  if fault = some (.unlink x j) then .error (.assertion w)
  else
    let r := w.fs.unlink (gen001_path (entry x).rel j)
    if r.1 ≠ 0 then .error (.assertion { w with fs := r.2 }) else .ok { w with fs := r.2 }

/-- A pass of the second loop of `gen001_chain()`, which closes the chain of an entry. -/
def closeStep (fault : Option Site) (w : World) (x : Nat) : Except Left World :=
  if w.link x = 0 then .ok w
  else do
    let w ← renameStep fault x w
    let w ← (List.range (w.link x - 1)).foldlM (unlinkStep fault x) w
    return { w with link := Function.update w.link x 0 }

/-- One iteration of `ncopy` copies. -/
def gen001_chain (fault : Option Site) (ncopy : Nat) (draw : Nat → UInt32) (w : World) : Except Left World := do
  let w ← (List.range ncopy).foldlM (copyStep fault draw) w
  (List.range GEN001_NFILES).foldlM (closeStep fault) w

/-! ## Comparisons -/

/-- `while (off < bytes)` of `gen001_verify_content()`, and the check for a longer file behind it. -/
def verifyLoop (k bytes off : Nat) (st : R) (pos : Nat) (w : World) : Except Left World :=
  if off < bytes then
    let n := min (bytes - off) GEN001_CHUNK
    let got := w.fs.read k pos n
    if got.length ≠ n then .error (.assertion w)
    else if (gen001_fill_chunk g st n).1 ≠ got then .ok { w with failed := true }
    else verifyLoop k bytes (off + n) (gen001_fill_chunk g st n).2 (pos + got.length) w
  else .ok { w with failed := w.failed || (w.fs.read k pos 1).length != 0 }
termination_by bytes - off
decreasing_by
  simp only [GEN001_CHUNK]
  omega

def gen001_verify_content (rel path : Path) (bytes : Nat) (w : World) : Except Left World :=
  let f := w.fs.openFile path
  if f < 0 then .error (.assertion w) else verifyLoop g f.toNat bytes 0 (gen001_seed_for g rel) 0 w

def checkStep (w : World) (x : Nat) : Except Left World := do
  let e := entry x
  let w ← gen001_verify_content g e.rel (gen001_path e.rel (-1)) e.bytes w
  if w.fs.resolves (gen001_path e.rel (-2)) then
    gen001_verify_content g e.rel (gen001_path e.rel (-2)) e.bytes w
  else return w

def gen001_check (w : World) : Except Left World := (List.range GEN001_NFILES).foldlM (checkStep g) w

/-- `n` iterations of a chain and a check; each has its number of copies and its draws. -/
def iterations (ncopy : Nat → Nat) (draw : Nat → Nat → UInt32) (n : Nat) (w : World) : Except Left World :=
  (List.range n).foldlM (fun w iter => do
    let w ← gen001_chain none (ncopy iter) (draw iter) w
    gen001_check g w) w

/-! ## The clean-up -/

/-- `for (j = 0; j < GEN001_NCOPY; j++)` of `gen001_remove_tree()`, with `left` passes to go. -/
def removeNumbered (rel : Path) : Nat → Nat → Fs Text → Fs Text
  | 0, _, fs => fs
  | left + 1, j, fs =>
    let r := fs.unlink (gen001_path rel j)
    if r.1 ≠ 0 then r.2 else removeNumbered rel left (j + 1) r.2

/-- A pass of the loop of `gen001_remove_tree()`. -/
def removeEntry (w : World) (x : Nat) : World :=
  let rel := (entry x).rel
  let fs := (w.fs.unlink (gen001_path rel (-1))).2
  let fs := (fs.unlink (gen001_path rel (-2))).2
  { w with fs := removeNumbered rel GEN001_NCOPY 0 fs, link := Function.update w.link x 0 }

def gen001_remove_tree (w : World) : World :=
  let w := (List.range GEN001_NFILES).foldl removeEntry w
  let fs := (w.fs.rmdir GEN001_SUB).2
  { w with fs := (fs.rmdir GEN001_ROOT).2 }

/-! ## The whole test -/

def mkdirStep (p : Path) (w : World) : Except Left World :=
  let r := w.fs.mkdir p
  if r.1 = 0 ∨ r.1 = -EEXIST then .ok { w with fs := r.2 } else .error (.assertion { w with fs := r.2 })

/-- The directories of `gen001_mkdirs()`, and the originals. -/
def setup (w : World) : Except Left World := do
  let w ← mkdirStep GEN001_ROOT w
  let w ← mkdirStep GEN001_SUB w
  (List.range GEN001_NFILES).foldlM (fun w x => gen001_write_file g (entry x).rel (entry x).bytes w) w

/-- `chains_preserve_data_across_five_iterations()`; the draws of an iteration are those of its number. -/
def chains_preserve_data_across_five_iterations (w : World) (draw : Nat → Nat → UInt32) : Except Left World := do
  let w ← setup g w
  iterations g (fun _ => GEN001_NCOPY) draw GEN001_ITERS w

end NfsPlayground.Generic.G001
