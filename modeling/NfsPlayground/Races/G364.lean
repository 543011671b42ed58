import NfsPlayground.Races.Calls

/-!
# generic/364: direct writes and fsyncs on one file

`direct_writes_and_fsyncs_on_one_fd()` and its thread `g364_write_loop()`.
-/

namespace NfsPlayground.Races.G364

open Lines Threads

/-- `G364_ROOT` -/
def G364_ROOT : Path := XFS_MNT ++ [['g', '3', '6', '4']]

def testfile : Text :=
  ['d', 'i', 'o', '-', 'w', 'r', 'i', 't', 'e', '-', 'f', 's', 'y', 'n', 'c', '-', 's', 'a', 'm', 'e', '-', 'f', 'd']

/-- `G364_FILE` -/
def G364_FILE : Path := G364_ROOT ++ [testfile]

/-- `G364_SERVER` -/
def G364_SERVER : Path := XFS_EXPORT ++ [['g', '3', '6', '4'], testfile]

def G364_CHUNK : Nat := 4096
def G364_ROUNDS : Nat := 256
def G364_BYTE : UInt8 := 0x64

structure Frame where
  f : Int
  -- `struct g364_writer`
  err : Int
  syncs : Int
  buf : List UInt8

/-! ## The writer -/

inductive Writing
  | kmalloc
  | write (i : Nat)
  | complete
  | exit
  deriving DecidableEq

/-- `g364_write_loop()` -/
def writeLoop : Writing → ThreadOp Writing Frame Call Answer
  | .kmalloc => .step (fun _ => some (.kmalloc G364_CHUNK))
      (fun a m => if a.ret = 0 then { m with err := -ENOMEM } else m)
      fun a _ => if a.ret = 0 then .complete else .write 0
  | .write i =>
    if i < G364_ROUNDS then
      .step (fun m => some (.directWrite m.f (List.replicate G364_CHUNK G364_BYTE) (i * G364_CHUNK)))
        (fun a m => if a.ret ≠ G364_CHUNK then { m with err := if a.ret < 0 then a.ret else - EIO } else m)
        fun a _ => if a.ret ≠ G364_CHUNK then .complete else .write (i + 1)
    else .step (fun _ => none) (fun _ m => m) fun _ _ => .complete
  | .complete => .complete .exit
  | .exit => .exit

/-! ## The test function -/

inductive Point
  | mounted
  | mkdir
  | addAction
  | openFile
  | start
  -- until the writer is done
  | head
  | sync
  | join
  | expectErr
  | expectSyncs
  | lastSync
  | close
  | kmalloc
  -- every byte is on the server
  | read (i : Nat)
  | verify (i : Nat)
  | ret
  deriving DecidableEq

/-- `syncs++` of an `int` -/
def incrInt (n : Int) : Int := Int.bmod (n + 1) (2 ^ 32)

/-- `direct_writes_and_fsyncs_on_one_fd()` -/
def code : Point → Op Point Frame Call Answer
  | .mounted => .assert (fun _ => .mounted) (fun a => a.ret != 0) .mkdir
  | .mkdir => assertZero (fun _ => .mkdir G364_ROOT) .addAction
  | .addAction => assertZero (fun _ => .addAction) .openFile
  | .openFile => assertFile (fun _ => .create G364_FILE) (fun f m => { m with f := f }) .start
  | .start => .start 0 .head
  | .head => .branch fun completionDone _ => if completionDone 0 then .join else .sync
  | .sync => .assertStore (fun m => .fsync m.f) (fun a => a.ret == 0)
      (fun _ m => { m with syncs := incrInt m.syncs }) .head
  | .join => .wait 0 .expectErr
  | .expectErr => .expect (fun m => m.err == 0) .expectSyncs
  | .expectSyncs => .expect (fun m => 0 < m.syncs) .lastSync
  | .lastSync => expectZero (fun m => .fsync m.f) .close
  | .close => .call (fun m => .filpClose m.f) .kmalloc
  | .kmalloc => assertKmalloc G364_CHUNK (.read 0)
  | .read i =>
    if i < G364_ROUNDS then
      .assertStore (fun _ => .readRange G364_SERVER G364_CHUNK (i * G364_CHUNK)) (fun a => a.ret == G364_CHUNK)
        (fun a m => { m with buf := a.bytes }) (.verify i)
    else .ret
  | .verify i => .expectOr (fun m => m.buf.all (· == G364_BYTE)) (.read (i + 1)) .ret
  | .ret => .ret

def program : Program Point Writing Frame Call Answer where
  entry := .mounted
  frame := ⟨0, 0, 0, []⟩
  first _ := .kmalloc
  code := code
  work _ := writeLoop
  spawn := .kthreadRun
  refused := Answer.isErr

end NfsPlayground.Races.G364
