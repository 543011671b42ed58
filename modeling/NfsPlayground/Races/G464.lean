import NfsPlayground.Lib.Closed
import NfsPlayground.Lib.PosixFiles
import NfsPlayground.Races.Calls

/-!
# generic/464: writes, appends and syncs

`mixed_writes_and_syncs_lose_nothing()` and its threads `g464_mixed_ops()`. How many workers, rounds and files there are
and what each worker draws is a parameter; the source's own numbers are in `params`.
-/

namespace NfsPlayground.Races.G464

open Lines Posix Threads

/-- `G464_ROOT` -/
def G464_ROOT : Path := XFS_MNT ++ [['g', '4', '6', '4']]

def G464_FILES : Nat := 8
def G464_WORKERS : Nat := 4
def G464_ROUNDS : Nat := 60
def G464_BLOCK : Nat := 65536
def G464_MAXBLKS : Nat := 8
def G464_BYTE : UInt8 := 0x64

def PAGE_SIZE : Nat := 4096

structure Params where
  workers : Nat
  rounds : Nat
  files : Nat
  /-- What `prandom_u32_state()` gives a worker, call after call. -/
  draw : Nat → Nat → UInt32

def params (draw : Nat → Nat → UInt32) : Params := ⟨G464_WORKERS, G464_ROUNDS, G464_FILES, draw⟩

/-- `g464_path()` -/
def path (i : Nat) : Path := G464_ROOT ++ [decimal i]

/-- The first bytes of `buf`, after `memset()`. -/
def pattern (len : Nat) : List UInt8 := List.replicate len G464_BYTE

inductive Call
  | mounted
  | addAction
  | kthreadRun
  | kmalloc (size : Nat)
  | mkdir (path : Path)
  /-- `filp_open()` with `O_CREAT` and without `O_TRUNC` -/
  | filpOpen (path : Path)
  | iSizeRead (f : Int)
  | kernelWrite (f : Int) (data : List UInt8) (pos : Nat)
  | filemapFlush (f : Int)
  | filpClose (f : Int)
  | exists (path : Path)
  | kstat (path : Path)
  | readRange (path : Path) (len off : Nat)

structure Answer where
  ret : Int
  size : Nat := 0
  bytes : List UInt8 := []

/-- `struct g464_worker` -/
structure Worker where
  err : Int
  ops : Nat

structure Frame where
  worker : Nat → Worker
  /-- `st.size` -/
  size : Nat
  /-- What `xfs_read_range()` has read to `buf`. -/
  buf : List UInt8

def Frame.setWorker (m : Frame) (id : Nat) (w : Worker) : Frame := { m with worker := Function.update m.worker id w }

def Frame.setErr (m : Frame) (id : Nat) (err : Int) : Frame := m.setWorker id { m.worker id with err := err }

/-! ## A worker -/

/-- `i` is the round and `n` the number of draws so far. -/
inductive Working
  | kmalloc
  | head (i n : Nat)
  | filpOpen (i n : Nat) (r : UInt32)
  -- `while (blocks--)`
  | rewrite (i n : Nat) (f : Int) (blocks pos : Nat)
  | write (i n : Nat) (f : Int) (blocks pos : Nat)
  | iSizeRead (i n : Nat) (f : Int)
  | append (i n : Nat) (f : Int) (pos : Nat)
  | flush (i n : Nat) (f : Int)
  | ops (i n : Nat) (f : Int)
  | close (i n : Nat) (f : Int)
  | complete
  | exit
  deriving DecidableEq

variable (c : Params)

/-- `switch (r % 3)`, with the draw of a rewrite -/
def choose (id i n : Nat) (r : UInt32) (f : Int) : Working :=
  match r.toNat % 3 with
  | 0 => .rewrite i (n + 1) f (1 + (c.draw id n).toNat % G464_MAXBLKS) 0
  | 1 => .iSizeRead i n f
  | _ => .flush i n f

/-- `g464_mixed_ops()` -/
def mixedOps (id : Nat) : Working → ThreadOp Working Frame Call Answer
  | .kmalloc => .step (fun _ => some (.kmalloc G464_BLOCK))
      (fun a m => if a.ret = 0 then m.setErr id (-ENOMEM) else m)
      fun a _ => if a.ret = 0 then .complete else .head 0 0
  | .head i n => .step (fun _ => none) (fun _ m => m)
      fun _ _ => if i < c.rounds then .filpOpen i (n + 1) (c.draw id n) else .complete
  | .filpOpen i n r => .step (fun _ => some (.filpOpen (path (r.toNat % c.files))))
      (fun a m => if a.ret < 0 then m.setErr id a.ret else m)
      fun a _ => if a.ret < 0 then .complete else choose c id i n r a.ret
  | .rewrite i n f blocks pos => .step (fun _ => none) (fun _ m => m)
      fun _ _ => if blocks = 0 then .ops i n f else .write i n f (blocks - 1) pos
  | .write i n f blocks pos => .step (fun _ => some (.kernelWrite f (pattern G464_BLOCK) pos))
      (fun a m => if a.ret ≠ G464_BLOCK then m.setErr id (if a.ret < 0 then a.ret else - EIO) else m)
      fun a _ => if a.ret ≠ G464_BLOCK then .ops i n f else .rewrite i n f blocks (pos + G464_BLOCK)
  | .iSizeRead i n f => .step (fun _ => some (.iSizeRead f)) (fun _ m => m) fun a _ => .append i n f a.size
  | .append i n f pos => .step (fun _ => some (.kernelWrite f (pattern PAGE_SIZE) pos))
      (fun a m => if a.ret ≠ PAGE_SIZE then m.setErr id (- EIO) else m) fun _ _ => .ops i n f
  | .flush i n f => .step (fun _ => some (.filemapFlush f)) (fun _ m => m) fun _ _ => .ops i n f
  | .ops i n f => .step (fun _ => none)
      (fun _ m => m.setWorker id { m.worker id with ops := incr (m.worker id).ops }) fun _ _ => .close i n f
  | .close i n f => .step (fun _ => some (.filpClose f)) (fun _ m => m)
      fun _ m => if (m.worker id).err ≠ 0 then .complete else .head (i + 1) n
  | .complete => .complete .exit
  | .exit => .exit

/-! ## The test function -/

inductive Point
  | mounted
  | mkdir
  | addAction
  | starts (i : Nat)
  | init (i : Nat)
  | start (i : Nat)
  | joins (i : Nat)
  | join (i : Nat)
  | expectErr (i : Nat)
  | expectOps (i : Nat)
  | kmalloc
  | files (i : Nat)
  | present (i : Nat)
  | kstat (i : Nat)
  | ranges (i off : Nat)
  | readRange (i off : Nat)
  | verify (i off : Nat)
  | ret

/-- `min_t(loff_t, st.size - off, G464_BLOCK)` -/
def want (size off : Nat) : Nat := min (size - off) G464_BLOCK

def assertZero (call : Call) (next : Point) : Op Point Frame Call Answer :=
  .assert (fun _ => call) (fun a => a.ret == 0) next

/-- `mixed_writes_and_syncs_lose_nothing()` -/
def code : Point → Op Point Frame Call Answer
  | .mounted => .assert (fun _ => .mounted) (fun a => a.ret != 0) .mkdir
  | .mkdir => assertZero (.mkdir G464_ROOT) .addAction
  | .addAction => assertZero .addAction (.starts 0)
  | .starts i => .branch fun _ _ => if i < c.workers then .init i else .joins 0
  | .init i => .act (fun m => m.setWorker i ⟨0, 0⟩) (.start i)
  | .start i => .start i (.starts (i + 1))
  | .joins i => .branch fun _ _ => if i < c.workers then .join i else .kmalloc
  | .join i => .wait i (.expectErr i)
  | .expectErr i => .expect (fun m => (m.worker i).err == 0) (.expectOps i)
  | .expectOps i => .expect (fun m => 0 < (m.worker i).ops) (.joins (i + 1))
  | .kmalloc => .assert (fun _ => .kmalloc G464_BLOCK) (fun a => 0 < a.ret) (.files 0)
  | .files i => .branch fun _ _ => if i < c.files then .present i else .ret
  | .present i => .step ⟨fun _ => some (.exists (path i)), fun _ _ => true, fun _ _ => true, false, fun _ m => m,
      fun _ a _ => if a.ret = 0 then .files (i + 1) else .kstat i⟩
  | .kstat i => .assertStore (fun _ => .kstat (path i)) (fun a => a.ret == 0) (fun a m => { m with size := a.size })
      (.ranges i 0)
  | .ranges i off => .branch fun _ m => if off < m.size then .readRange i off else .files (i + 1)
  | .readRange i off => .step ⟨fun m => some (.readRange (path i) (want m.size off) off), fun _ _ => true,
      fun a m => a.ret == (want m.size off : Int), true, fun a m => { m with buf := a.bytes },
      fun _ _ _ => .verify i off⟩
  -- `KUNIT_FAIL()` and `return`
  | .verify i off => .check true (fun m => m.buf.all (· == G464_BYTE)) (.ranges i (off + G464_BLOCK))
  | .ret => .ret

def program : Program Point Working Frame Call Answer where
  entry := .mounted
  frame := ⟨fun _ => ⟨0, 0⟩, 0, []⟩
  first _ := .kmalloc
  code := code c
  work := mixedOps c
  spawn := .kthreadRun
  refused a := a.ret < 0

/-! ## The world -/

def size (fs : Fs Text) (p : Path) : Answer :=
  match fs.above p, fs.get p with
  | some e, _ => { ret := -e }
  | none, none => { ret := -ENOENT }
  | none, some .dir => { ret := 0 }
  | none, some (.file k) => { ret := 0, size := (fs.data k).length }

def serve : Call → Fs Text → Answer × Fs Text
  | .mounted, fs => ({ ret := 1 }, fs)
  | .addAction, fs => ({ ret := 0 }, fs)
  | .kthreadRun, fs => ({ ret := 1 }, fs)
  | .kmalloc _, fs => ({ ret := 1 }, fs)
  | .mkdir p, fs => ({ ret := (fs.mkdir p).1 }, (fs.mkdir p).2)
  | .filpOpen p, fs => ({ ret := (fs.openCreat p).1 }, (fs.openCreat p).2)
  | .iSizeRead f, fs => ({ ret := 0, size := (fs.data f.toNat).length }, fs)
  | .kernelWrite f data pos, fs => ({ ret := (fs.write f.toNat pos data).1 }, (fs.write f.toNat pos data).2)
  | .filemapFlush _, fs => ({ ret := 0 }, fs)
  | .filpClose _, fs => ({ ret := 0 }, fs)
  | .exists p, fs => ({ ret := if fs.resolves p then 1 else 0 }, fs)
  | .kstat p, fs => (size fs p, fs)
  | .readRange p len off, fs =>
    if fs.openFile p < 0 then ({ ret := fs.openFile p }, fs)
    else
      let bytes := fs.read (fs.openFile p).toNat off len
      ({ ret := bytes.length, bytes := bytes }, fs)

def world : World Unit Call Answer (Fs Text) := ⟨fun _ => serve, { ret := 0 }⟩

end NfsPlayground.Races.G464
