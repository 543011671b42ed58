import NfsPlayground.Races.Calls

/-!
# generic/340, 344 and 346: two markers in every page

In each page of a mapped file the test function marks one slot through the mapping, and a thread the other, through the
mapping or with `kernel_write()`. The three ports do this in two rounds each, which differ in a size, in what the thread
does, in whether every page is read before, and in whether the server is asked afterwards.
-/

namespace NfsPlayground.Races.Marks

open Lines Threads

def PAGE_SIZE : Nat := 4096
def EFAULT : Int := 14

/-- A `u64` as it lies in memory. -/
def u64 (v : UInt64) : List UInt8 := (List.range 8).map fun k => (v >>> (8 * k).toUInt64).toUInt8

def slot0 : Nat := PAGE_SIZE / 4
def slot1 : Nat := PAGE_SIZE / 4 + PAGE_SIZE / 2

structure Round where
  size : Nat
  /-- Every page is read, and is zero, before the thread is started. -/
  prefault : Bool
  /-- The thread marks through the mapping, too. -/
  mapped : Bool
  /-- The marks are read on the server in the end. -/
  server : Bool
  deriving Inhabited

structure Port where
  name : Text
  id0 : UInt64
  id1 : UInt64
  rounds : List Round

def g340 : Port where
  name := ['g', '3', '4', '0']
  id0 := 0x3400000000000001
  id1 := 0x3400000000000002
  rounds := [⟨1024 * 1024, false, true, true⟩, ⟨4 * 1024 * 1024, false, true, true⟩]

def g344 : Port where
  name := ['g', '3', '4', '4']
  id0 := 0x3440000000000001
  id1 := 0x3440000000000002
  rounds := [⟨4 * 1024 * 1024, true, true, false⟩, ⟨4 * 1024 * 1024, true, false, false⟩]

def g346 : Port where
  name := ['g', '3', '4', '6']
  id0 := 0x3460000000000001
  id1 := 0x3460000000000002
  rounds := [⟨1024 * 1024, false, false, true⟩, ⟨4 * 1024 * 1024, false, false, true⟩]

structure Frame where
  addr : Int
  v : List UInt8
  page : List UInt8
  -- `struct g340_marker`, `struct g344_marker` and `struct g346_writer`
  f : Int
  err : Int

/-! ## The thread -/

inductive Marking
  | mark (i : Nat)
  | complete
  | exit
  deriving DecidableEq

/-! ## The test function -/

inductive Point
  | mounted
  | mkdir
  | addAction
  -- a round
  | unlink (r : Nat)
  | create (r : Nat)
  | ftruncate (r : Nat)
  | mmap (r : Nat)
  | prefault (r i : Nat)
  | wasZero (r i : Nat)
  | start (r : Nat)
  | mark (r i : Nat)
  | join (r : Nat)
  | assertErr (r : Nat)
  -- every page holds both marks
  | load0 (r i : Nat)
  | expect0 (r i : Nat)
  | load1 (r i : Nat)
  | expect1 (r i : Nat)
  | munmap (r : Nat)
  | close (r : Nat)
  -- and so it does on the server
  | kmalloc (r : Nat)
  | readPage (r i : Nat)
  | server0 (r i : Nat)
  | server1 (r i : Nat)
  | ret
  deriving DecidableEq

namespace Port

variable (p : Port)

/-- `G340_ROOT` -/
def root : Path := XFS_MNT ++ [p.name]

def testfile : Text := ['t', 'e', 's', 't', 'f', 'i', 'l', 'e']

/-- `G340_FILE` -/
def file : Path := p.root ++ [testfile]

/-- `G340_SERVER` -/
def server : Path := XFS_EXPORT ++ [p.name, testfile]

def round (r : Nat) : Round := p.rounds.getD r default

def pages (r : Nat) : Nat := (p.round r).size / PAGE_SIZE

/-- `g340_mark()`, `g344_mark()` and `g346_pwrite_marks()`: the thread of the round `r`. -/
def marker (r : Nat) : Marking → ThreadOp Marking Frame Call Answer
  | .mark i =>
    if i < p.pages r then
      if (p.round r).mapped then
        .step (fun m => some (.copyToUser m.addr (i * PAGE_SIZE + slot0) (u64 p.id0)))
          (fun a m => if a.ret ≠ 0 then { m with err := -EFAULT } else m)
          fun a _ => if a.ret ≠ 0 then .complete else .mark (i + 1)
      else
        .step (fun m => some (.kernelWrite m.f (u64 p.id0) (i * PAGE_SIZE + slot0)))
          (fun a m => if a.ret ≠ 8 then { m with err := if a.ret < 0 then a.ret else - EIO } else m)
          fun a _ => if a.ret ≠ 8 then .complete else .mark (i + 1)
    else .step (fun _ => none) (fun _ m => m) fun _ _ => .complete
  | .complete => .complete .exit
  | .exit => .exit

/-- The next round, if there is one. -/
def enter (r : Nat) : Point := if r < p.rounds.length then .unlink r else .ret

/-- `copy_from_user()` of eight bytes of the page `i`, from `slot` on. -/
def loadMark (i slot : Nat) (next : Point) : Op Point Frame Call Answer :=
  .assertStore (fun m => .copyFromUser m.addr (i * PAGE_SIZE + slot) 8) (fun a => a.ret == 0)
    (fun a m => { m with v := a.bytes }) next

/-- `*(u64 *)(page + slot)` -/
def markAt (m : Frame) (slot : Nat) : List UInt8 := (m.page.drop slot).take 8

/-- The test function, with `g340_one_size()`, `g344_round()` and `g346_one_size()`. -/
def code : Point → Op Point Frame Call Answer
  | .mounted => .assert (fun _ => .mounted) (fun a => a.ret != 0) .mkdir
  | .mkdir => assertZero (fun _ => .mkdir p.root) .addAction
  | .addAction => assertZero (fun _ => .addAction) (p.enter 0)
  -- the answer is not looked at; the record is a new one
  | .unlink r => .assertStore (fun _ => .unlink p.file) (fun _ => true) (fun _ m => { m with err := 0 }) (.create r)
  | .create r => assertFile (fun _ => .create p.file) (fun f m => { m with f := f }) (.ftruncate r)
  | .ftruncate r => assertZero (fun m => .ftruncate m.f (p.round r).size) (.mmap r)
  | .mmap r => .assertStore (fun m => .mmap m.f (p.round r).size) (fun a => a.ret != 0)
      (fun a m => { m with addr := a.ret }) (if (p.round r).prefault then .prefault r 0 else .start r)
  | .prefault r i => if i < p.pages r then loadMark i 0 (.wasZero r i) else .act id (.start r)
  | .wasZero r i => .check true (fun m => m.v == u64 0) (.prefault r (i + 1))
  | .start r => .start r (.mark r 0)
  | .mark r i =>
    if i < p.pages r then
      assertZero (fun m => .copyToUser m.addr (i * PAGE_SIZE + slot1) (u64 p.id1)) (.mark r (i + 1))
    else .act id (.join r)
  | .join r => .wait r (.assertErr r)
  | .assertErr r => .check true (fun m => m.err == 0) (.load0 r 0)
  | .load0 r i => if i < p.pages r then loadMark i slot0 (.expect0 r i) else .act id (.munmap r)
  | .expect0 r i => .expect (fun m => m.v == u64 p.id0) (.load1 r i)
  | .load1 r i => loadMark i slot1 (.expect1 r i)
  | .expect1 r i => .expect (fun m => m.v == u64 p.id1) (.load0 r (i + 1))
  | .munmap r => expectZero (fun m => .munmap m.addr (p.round r).size) (.close r)
  | .close r => .call (fun m => .filpClose m.f) (if (p.round r).server then .kmalloc r else p.enter (r + 1))
  | .kmalloc r => assertKmalloc PAGE_SIZE (.readPage r 0)
  | .readPage r i =>
    if i < p.pages r then
      .assertStore (fun _ => .readRange p.server PAGE_SIZE (i * PAGE_SIZE)) (fun a => a.ret == PAGE_SIZE)
        (fun a m => { m with page := a.bytes }) (.server0 r i)
    else .act id (p.enter (r + 1))
  | .server0 r i => .expect (fun m => markAt m slot0 == u64 p.id0) (.server1 r i)
  | .server1 r i => .expect (fun m => markAt m slot1 == u64 p.id1) (.readPage r (i + 1))
  | .ret => .ret

/-- The thread `r` is the one of the round `r`. -/
def program : Program Point Marking Frame Call Answer where
  entry := .mounted
  frame := ⟨0, [], [], 0, 0⟩
  first _ := .mark 0
  code := p.code
  work := p.marker
  spawn := .kthreadRun
  refused := Answer.isErr

end Port

end NfsPlayground.Races.Marks
